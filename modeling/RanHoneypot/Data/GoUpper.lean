import RanHoneypot.Data.PathLower
import RanHoneypot.Data.Utf8Units

/-!
# Searching in upper case

`strings.Index` and `strings.ToUpper`. Upper case can change how many bytes a rune takes, and a malformed
byte becomes the three bytes of `runeError`. A text whose runes all keep their size is upper-cased byte by
byte: its ASCII bytes become their capitals, and the others stay beyond ASCII.
-/

namespace RanHoneypot.GoText

open Utf8 List

/-! ## First positions -/

variable {sub s : Text}

/-- `strings.Index`. -/
def index (sub : Text) : Text → Option ℕ
  | [] => if sub.isEmpty then some 0 else none
  | b :: s => if sub.isPrefixOf (b :: s) then some 0 else (index sub s).map (· + 1)

theorem index_of_isPrefix (hsub : sub <+: s) : index sub s = some 0 := by
  cases s with
  | nil =>
    rw [prefix_nil.mp hsub]
    rfl
  | cons b s => rw [index, if_pos (List.isPrefixOf_iff_prefix.mpr hsub)]

theorem index_cons_of_not {b : UInt8} (hsub : ¬ sub <+: b :: s) :
    index sub (b :: s) = (index sub s).map (· + 1) := by
  rw [index, if_neg fun h ↦ hsub (List.isPrefixOf_iff_prefix.mp h)]

/-- The position is the first one at which the text occurs. -/
theorem index_eq_some_iff {i : ℕ} :
    index sub s = some i ↔ sub <+: s.drop i ∧ i ≤ s.length ∧ ∀ k < i, ¬ sub <+: s.drop k := by
  induction s generalizing i with
  | nil =>
    rw [index, drop_nil, prefix_nil]
    cases sub with
    | nil =>
      simp only [isEmpty_nil, if_true, Option.some.injEq, length_nil, true_and]
      constructor
      · intro hi
        exact ⟨hi ▸ le_rfl, fun k hk ↦ by omega⟩
      · intro hi
        omega
    | cons b sub => simp
  | cons b s ih =>
    by_cases hsub : sub <+: b :: s
    · rw [index_of_isPrefix hsub, Option.some.injEq]
      constructor
      · intro hi
        rw [← hi]
        exact ⟨hsub, Nat.zero_le _, fun k hk ↦ absurd hk (Nat.not_lt_zero _)⟩
      · intro hfirst
        by_contra hne
        exact hfirst.2.2 0 (by omega) hsub
    · rw [index_cons_of_not hsub]
      cases i with
      | zero =>
        refine iff_of_false ?_ fun hfirst ↦ hsub hfirst.1
        cases index sub s <;> simp
      | succ i =>
        have hmap : (index sub s).map (· + 1) = some (i + 1) ↔ index sub s = some i := by
          cases index sub s <;> simp
        rw [hmap, ih, length_cons, Nat.succ_le_succ_iff]
        constructor
        · intro hfirst
          refine ⟨hfirst.1, hfirst.2.1, ?_⟩
          intro k hk
          cases k with
          | zero => exact hsub
          | succ k => exact hfirst.2.2 k (by omega)
        · intro hfirst
          exact ⟨hfirst.1, hfirst.2.1, fun k hk ↦ hfirst.2.2 (k + 1) (by omega)⟩

theorem index_ne_none {i : ℕ} (hsub : sub <+: s.drop i) : index sub s ≠ none := by
  induction s generalizing i with
  | nil =>
    rw [drop_nil, prefix_nil] at hsub
    rw [hsub]
    exact Option.some_ne_none _
  | cons b s ih =>
    by_cases hfirst : sub <+: b :: s
    · rw [index_of_isPrefix hfirst]
      exact Option.some_ne_none _
    · cases i with
      | zero => exact absurd hsub hfirst
      | succ i =>
        rw [index_cons_of_not hfirst, ne_eq, Option.map_eq_none_iff]
        exact ih hsub

/-- A text that starts with a byte is found behind bytes that are different. -/
theorem index_front {front : Text} {b : UInt8} (hfront : b ∉ front) (rest : Text) :
    index (b :: sub) (front ++ (b :: sub ++ rest)) = some front.length := by
  induction front with
  | nil => exact index_of_isPrefix (prefix_append ..)
  | cons c front ih =>
    rw [mem_cons, not_or] at hfront
    have hne : ¬ b :: sub <+: c :: (front ++ (b :: sub ++ rest)) := fun h ↦
      hfront.1 (cons_prefix_cons.mp h).1
    rw [cons_append, index_cons_of_not hne, ih hfront.2]
    rfl

/-! ## Upper case -/

/-- `unicode.ToUpper`. Apart from U+0131 and U+017F, the runes beyond ASCII stay beyond ASCII. -/
structure UpperTable where
  rune : ℕ → ℕ
  ascii : ∀ r < 0x80, rune r = if 97 ≤ r ∧ r ≤ 122 then r - 32 else r
  dotlessI : rune 0x131 = 0x49
  longS : rune 0x17F = 0x53
  replacement : rune runeError = runeError
  other : ∀ r, 0x80 ≤ r → r ≠ 0x131 → r ≠ 0x17F → 0x80 ≤ rune r

/-- The table that changes no other rune. -/
def UpperTable.latin : UpperTable where
  rune r :=
    if r = 0x131 then 0x49 else if r = 0x17F then 0x53 else if 97 ≤ r ∧ r ≤ 122 then r - 32 else r
  ascii := by
    intro r hr
    rw [if_neg (by omega), if_neg (by omega)]
  dotlessI := rfl
  longS := rfl
  replacement := rfl
  other := by
    intro r hr hdotless hlong
    rw [if_neg hdotless, if_neg hlong, if_neg (by omega)]
    exact hr

/-- `strings.ToUpper`. -/
def stringsToUpper (upper : UpperTable) (s : Text) : Text :=
  (runes s).flatMap fun rune ↦ encodeRune (upper.rune rune.1)

/-- The upper case of a byte, bytes beyond ASCII being left alone. -/
def upperByte (b : UInt8) : UInt8 := if 97 ≤ b.toNat ∧ b.toNat ≤ 122 then b - 32 else b

variable {upper : UpperTable}

theorem stringsToUpper_eq (hs : s ≠ []) :
    stringsToUpper upper s =
      encodeRune (upper.rune (decodeRune s).1) ++ stringsToUpper upper (s.drop (decodeRune s).2) := by
  rw [stringsToUpper, runes_eq hs]
  rfl

theorem toNat_upperByte (b : UInt8) :
    (upperByte b).toNat = if 97 ≤ b.toNat ∧ b.toNat ≤ 122 then b.toNat - 32 else b.toNat := by
  unfold upperByte
  split
  · next hletter =>
    exact UInt8.toNat_sub_of_le _ _ (UInt8.le_iff_toNat_le.mpr (by
      show 32 ≤ b.toNat
      omega))
  · rfl

theorem isAscii_upperByte {b : UInt8} (hb : IsAscii b) : IsAscii (upperByte b) := by
  unfold IsAscii at hb ⊢
  rw [toNat_upperByte]
  split <;> omega

theorem encodeRune_upper_ascii {b : UInt8} (hb : IsAscii b) :
    encodeRune (upper.rune b.toNat) = [upperByte b] := by
  rw [upper.ascii _ hb, ← toNat_upperByte, encodeRune_ascii (isAscii_upperByte hb),
    UInt8.ofNat_toNat]

theorem stringsToUpper_ascii (hs : ∀ b ∈ s, IsAscii b) (rest : Text) :
    stringsToUpper upper (s ++ rest) = s.map upperByte ++ stringsToUpper upper rest := by
  induction s with
  | nil => rfl
  | cons b s ih =>
    have hb := hs b mem_cons_self
    rw [cons_append, stringsToUpper_eq (cons_ne_nil _ _), decodeRune_ascii _ hb,
      encodeRune_upper_ascii hb, drop_succ_cons, drop_zero,
      ih fun c hc ↦ hs c (mem_cons_of_mem b hc)]
    rfl

/-- The runes beyond ASCII never become a byte that is no letter. -/
theorem notMem_encodeRune_upper {r : ℕ} (hr : 0x80 ≤ r) {b : UInt8} (hb : IsAscii b)
    (hletter : b ≠ 0x49 ∧ b ≠ 0x53) : b ∉ encodeRune (upper.rune r) := by
  unfold IsAscii at hb
  by_cases hdotless : r = 0x131
  · rw [hdotless, upper.dotlessI, encodeRune_ascii (by decide), mem_singleton]
    exact hletter.1
  · by_cases hlong : r = 0x17F
    · rw [hlong, upper.longS, encodeRune_ascii (by decide), mem_singleton]
      exact hletter.2
    · intro hmem
      have hhigh := high_of_mem_encodeRune (upper.other r hr hdotless hlong) hmem
      unfold High at hhigh
      omega

/-! ## Runes that keep their size -/

/-- A rune, with the number of its bytes, keeps its size in upper case. -/
def KeepsSize (upper : UpperTable) (unit : ℕ × ℕ) : Prop :=
  (encodeRune (upper.rune unit.1)).length = unit.2

/-- A byte and the byte in its place in upper case. -/
def Cased (b u : UInt8) : Prop := (IsAscii b ∧ u = upperByte b) ∨ (High b ∧ High u)

theorem decodeRune_high_size {first : UInt8} (rest : Text) (hfirst : High first)
    (hsize : (decodeRune (first :: rest)).2 = 1) : (decodeRune (first :: rest)).1 = runeError := by
  unfold High at hfirst
  rcases decodeRune_cases first rest with
    ⟨hascii, _⟩ | heq | ⟨count, low, high, hlead, hlength, hlow, hhigh, htail, heq⟩
  · omega
  · rw [heq]
  · rw [heq] at hsize
    rcases leadByte_cases hlead with ⟨hcount, _⟩ | ⟨hcount, _⟩ | ⟨hcount, _⟩ <;> simp only at hsize <;> omega

/-- A rune beyond ASCII that keeps its size stays beyond ASCII. -/
theorem high_of_keepsSize {first : UInt8} {rest : Text} (hfirst : High first)
    (hkeeps : KeepsSize upper (decodeRune (first :: rest))) :
    0x80 ≤ upper.rune (decodeRune (first :: rest)).1 := by
  have hone : ∀ {c : ℕ}, c < 0x80 → upper.rune (decodeRune (first :: rest)).1 ≠ c := by
    intro c hc heq
    unfold KeepsSize at hkeeps
    rw [heq, encodeRune_ascii hc] at hkeeps
    have herror := decodeRune_high_size rest hfirst hkeeps.symm
    rw [herror, upper.replacement] at heq
    rw [← heq] at hc
    exact absurd hc (by decide)
  by_contra hlow
  exact hone (not_le.mp hlow) rfl

/-- Upper case of a text whose runes keep their size. -/
theorem cased_stringsToUpper (s : Text) (hs : ∀ unit ∈ runes s, KeepsSize upper unit) :
    List.Forall₂ Cased s (stringsToUpper upper s) := by
  induction hlength : s.length using Nat.strong_induction_on generalizing s with
  | _ n ih =>
    cases s with
    | nil => exact .nil
    | cons first rest =>
      have hne : first :: rest ≠ [] := cons_ne_nil _ _
      have hpos := decodeRune_size_pos hne
      rw [runes_eq hne] at hs
      have hfirst := hs _ mem_cons_self
      have hrest := ih _ (by rw [length_drop]; rw [length_cons] at hlength ⊢; omega) _
        (fun unit hunit ↦ hs unit (mem_cons_of_mem _ hunit)) rfl
      rw [stringsToUpper_eq hne]
      by_cases hascii : IsAscii first
      · rw [decodeRune_ascii _ hascii] at hrest ⊢
        rw [encodeRune_upper_ascii hascii]
        exact .cons (.inl ⟨hascii, rfl⟩) hrest
      · have hhigh : High first := not_lt.mp hascii
        have hbytes := (decodeRune_high rest hhigh).2
        have hupper := high_of_keepsSize hhigh hfirst
        have hsize := decodeRune_size_le (first :: rest)
        have hsame : ((first :: rest).take (decodeRune (first :: rest)).2).length =
            (encodeRune (upper.rune (decodeRune (first :: rest)).1)).length := by
          rw [length_take, hfirst]
          omega
        have hunit : List.Forall₂ Cased ((first :: rest).take (decodeRune (first :: rest)).2)
            (encodeRune (upper.rune (decodeRune (first :: rest)).1)) := by
          rw [List.forall₂_iff_get]
          refine ⟨hsame, ?_⟩
          intro i hi hi'
          exact .inr ⟨hbytes _ (get_mem ..), high_of_mem_encodeRune hupper (get_mem ..)⟩
        have hboth := rel_append hunit hrest
        beta_reduce at hboth
        rwa [take_append_drop] at hboth

end RanHoneypot.GoText
