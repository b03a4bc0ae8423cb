import RanHoneypot.Data.Utf8Laws

/-!
# Byte strings as sequences of runes

A rune together with its bytes. ASCII bytes are runes of their own wherever they stand: whatever comes
before an ASCII byte is decoded as if the text ended there.
-/

namespace RanHoneypot.Utf8

open List

variable {s : List UInt8}

/-- A rune and the bytes it was read from. -/
abbrev TextRune := ℕ × List UInt8

def unitsOf : List (ℕ × ℕ) → List UInt8 → List TextRune
  | [], _ => []
  | (r, size) :: rest, s => (r, s.take size) :: unitsOf rest (s.drop size)

/-- The runes of a byte string with their bytes. -/
def units (s : List UInt8) : List TextRune := unitsOf (runes s) s

/-- An ASCII byte as a rune. -/
def asciiUnit (b : UInt8) : TextRune := (b.toNat, [b])

def IsAscii (b : UInt8) : Prop := b.toNat < 0x80

theorem units_eq (hs : s ≠ []) :
    units s = ((decodeRune s).1, s.take (decodeRune s).2) :: units (s.drop (decodeRune s).2) := by
  rw [units, runes_eq hs]
  rfl

/-- The first rune does not reach beyond an ASCII byte. -/
theorem decodeRune_append (hs : s ≠ []) {b : UInt8} (hb : IsAscii b) (rest : List UInt8) :
    decodeRune (s ++ b :: rest) = decodeRune s := by
  have hcontinuation : isContinuation b = false := by
    rw [IsAscii] at hb
    simp only [isContinuation, Bool.and_eq_false_iff, decide_eq_false_iff_not]
    omega
  cases s with
  | nil => exact absurd rfl hs
  | cons first s =>
    simp only [cons_append, decodeRune]
    split
    · rfl
    · cases leadByte first.toNat with
      | none => rfl
      | some range =>
        rcases range with ⟨count, low, high⟩
        dsimp only
        by_cases hlong : count ≤ s.length
        · rw [take_append_of_le_length hlong]
        · have htail : ((s ++ b :: rest).take count).all isContinuation = false := by
            rw [all_eq_false]
            refine ⟨b, ?_, by simp [hcontinuation]⟩
            rw [List.take_append, mem_append]
            refine .inr ?_
            rw [show count - s.length = count - s.length - 1 + 1 by omega]
            exact mem_cons_self
          have hshort : (s.take count).length ≠ count := by
            rw [length_take]
            omega
          rw [if_neg fun hvalid ↦ absurd (htail ▸ hvalid.2.2.2) Bool.false_ne_true,
            if_neg fun hvalid ↦ hshort hvalid.1]

theorem decodeRune_size_le (s : List UInt8) : (decodeRune s).2 ≤ s.length := by
  cases s with
  | nil => exact Nat.le_refl 0
  | cons first s =>
    rcases decodeRune_cases first s with
      ⟨_, heq⟩ | heq | ⟨count, _, _, _, hlength, _, _, _, heq⟩
    · rw [heq]
      exact Nat.succ_le_succ (Nat.zero_le _)
    · rw [heq]
      exact Nat.succ_le_succ (Nat.zero_le _)
    · rw [heq]
      rw [length_take] at hlength
      simp only [length_cons]
      omega

/-- A text is decoded in two parts at an ASCII byte. -/
theorem runes_append (s : List UInt8) {b : UInt8} (hb : IsAscii b) (rest : List UInt8) :
    runes (s ++ b :: rest) = runes s ++ runes (b :: rest) := by
  induction s using rune_induction with
  | hnil => rfl
  | hstep s hs ih =>
    have hle := decodeRune_size_le s
    rw [runes_eq (by simp), decodeRune_append hs hb, runes_eq hs, drop_append_of_le_length hle,
      ih, cons_append]

theorem units_append (s : List UInt8) {b : UInt8} (hb : IsAscii b) (rest : List UInt8) :
    units (s ++ b :: rest) = units s ++ units (b :: rest) := by
  induction s using rune_induction with
  | hnil => rfl
  | hstep s hs ih =>
    have hle := decodeRune_size_le s
    rw [units_eq (by simp), decodeRune_append hs hb, units_eq hs, drop_append_of_le_length hle,
      take_append_of_le_length hle, ih, cons_append]

theorem runes_ascii (hs : ∀ b ∈ s, IsAscii b) (rest : List UInt8) :
    runes (s ++ rest) = s.map (fun b ↦ (b.toNat, 1)) ++ runes rest := by
  induction s with
  | nil => rfl
  | cons b s ih =>
    have hb := hs b mem_cons_self
    rw [cons_append, runes_eq (cons_ne_nil _ _), decodeRune_ascii _ hb, drop_succ_cons,
      drop_zero, ih fun c hc ↦ hs c (mem_cons_of_mem b hc)]
    rfl

theorem units_ascii (hs : ∀ b ∈ s, IsAscii b) (rest : List UInt8) :
    units (s ++ rest) = s.map asciiUnit ++ units rest := by
  induction s with
  | nil => rfl
  | cons b s ih =>
    have hb := hs b mem_cons_self
    rw [cons_append, units_eq (cons_ne_nil _ _), decodeRune_ascii _ hb, drop_succ_cons,
      drop_zero, ih fun c hc ↦ hs c (mem_cons_of_mem b hc)]
    rfl

end RanHoneypot.Utf8
