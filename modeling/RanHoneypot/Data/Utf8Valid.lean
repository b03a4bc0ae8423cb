import RanHoneypot.Data.Utf8Units

/-!
# Valid byte strings

A byte string is valid if the decoder meets no malformed byte in it. What follows a valid byte string
does not change how it is decoded, so valid byte strings are closed under appending, and repairing a
byte string rune by rune gives a valid one.
-/

namespace RanHoneypot.Utf8

open List

/-- `utf8.ValidString`. -/
def Valid (s : List UInt8) : Prop := ∀ rune ∈ runes s, rune ≠ (runeError, 1)

instance (s : List UInt8) : Decidable (Valid s) :=
  inferInstanceAs (Decidable (∀ rune ∈ runes s, rune ≠ (runeError, 1)))

/-- The loop of `strings.ToValidUTF8`, with the runes that are left, their bytes, and whether the last
byte was malformed. -/
def toValidLoop (replacement : List UInt8) : List (ℕ × ℕ) → List UInt8 → Bool → List UInt8
  | [], _, _ => []
  | rune :: rest, s, invalid =>
    if rune = (runeError, 1) then
      (if invalid then [] else replacement) ++ toValidLoop replacement rest (s.drop rune.2) true
    else s.take rune.2 ++ toValidLoop replacement rest (s.drop rune.2) false

/-- Every run of malformed bytes is replaced. -/
def toValidUTF8 (s replacement : List UInt8) : List UInt8 := toValidLoop replacement (runes s) s false

/-- A rune that is well formed is read from its own bytes only. -/
theorem decodeRune_take_append {s : List UInt8} (hs : s ≠ []) (hvalid : decodeRune s ≠ (runeError, 1))
    (rest : List UInt8) : decodeRune (s.take (decodeRune s).2 ++ rest) = decodeRune s := by
  cases s with
  | nil => exact absurd rfl hs
  | cons first s =>
    rcases decodeRune_cases first s with
      ⟨hascii, heq⟩ | heq | ⟨count, low, high, hlead, hlength, hlow, hhigh, htail, heq⟩
    · rw [heq]
      exact decodeRune_ascii _ hascii
    · exact absurd heq hvalid
    · have hfirst : 0x80 ≤ first.toNat := by
        rcases leadByte_cases hlead with ⟨_, hmin, _⟩ | ⟨_, hmin, _⟩ | ⟨_, hmin, _⟩ <;> omega
      rw [heq, take_succ_cons]
      exact decodeRune_lead _ _ _ hfirst hlead hlength hlow hhigh htail

section

variable {s : List UInt8}

variable {replacement : List UInt8}

theorem valid_iff (hs : s ≠ []) :
    Valid s ↔ decodeRune s ≠ (runeError, 1) ∧ Valid (s.drop (decodeRune s).2) := by
  rw [Valid, runes_eq hs, forall_mem_cons]
  rfl

theorem runes_append_of_valid (hs : Valid s) (rest : List UInt8) :
    runes (s ++ rest) = runes s ++ runes rest := by
  induction s using rune_induction with
  | hnil => rfl
  | hstep s hne ih =>
    rw [valid_iff hne] at hs
    have hfirst : decodeRune (s ++ rest) = decodeRune s := by
      have htake := decodeRune_take_append hne hs.1 (s.drop (decodeRune s).2 ++ rest)
      rwa [← append_assoc, take_append_drop] at htake
    rw [runes_eq (append_ne_nil_of_left_ne_nil hne _), hfirst,
      drop_append_of_le_length (decodeRune_size_le s), ih hs.2, runes_eq hne, cons_append]

theorem Valid.append (hs : Valid s) {rest : List UInt8} (hrest : Valid rest) : Valid (s ++ rest) := by
  rw [Valid, runes_append_of_valid hs, forall_mem_append]
  exact ⟨hs, hrest⟩

/-- The bytes of one well-formed rune. -/
theorem valid_take_decodeRune (hs : s ≠ []) (hvalid : decodeRune s ≠ (runeError, 1)) :
    Valid (s.take (decodeRune s).2) := by
  have hpos := decodeRune_size_pos hs
  have hne : s.take (decodeRune s).2 ≠ [] := by
    rw [ne_eq, take_eq_nil_iff, not_or]
    exact ⟨by omega, hs⟩
  have hdecode : decodeRune (s.take (decodeRune s).2) = decodeRune s := by
    have htake := decodeRune_take_append hs hvalid []
    rwa [append_nil] at htake
  rw [valid_iff hne, hdecode]
  refine ⟨hvalid, ?_⟩
  rw [drop_eq_nil_of_le (length_take_le ..)]
  exact forall_mem_nil _

theorem valid_flatMap_encodeRune {rs : List ℕ} (hrs : ∀ r ∈ rs, IsScalar r) :
    Valid (rs.flatMap encodeRune) := by
  rw [Valid, runes_flatMap_encodeRune hrs, forall_mem_map]
  intro r _ heq
  rcases Prod.mk.inj heq with ⟨rfl, hlength⟩
  exact absurd hlength (by decide)

/-! ## Repairing a byte string -/

theorem toValidLoop_eq (replacement : List UInt8) (hs : s ≠ []) (invalid : Bool) :
    toValidLoop replacement (runes s) s invalid =
      if decodeRune s = (runeError, 1) then
        (if invalid then [] else replacement) ++
          toValidLoop replacement (runes (s.drop (decodeRune s).2)) (s.drop (decodeRune s).2) true
      else
        s.take (decodeRune s).2 ++
          toValidLoop replacement (runes (s.drop (decodeRune s).2)) (s.drop (decodeRune s).2) false := by
  rw [runes_eq hs, toValidLoop]

theorem valid_toValidLoop (hreplacement : Valid replacement) (invalid : Bool) :
    Valid (toValidLoop replacement (runes s) s invalid) := by
  induction s using rune_induction generalizing invalid with
  | hnil => exact forall_mem_nil _
  | hstep s hs ih =>
    rw [toValidLoop_eq _ hs]
    split
    · cases invalid with
      | true => exact ih true
      | false => exact hreplacement.append (ih true)
    · next hvalid => exact (valid_take_decodeRune hs hvalid).append (ih false)

theorem valid_toValidUTF8 (s : List UInt8) (hreplacement : Valid replacement) :
    Valid (toValidUTF8 s replacement) := valid_toValidLoop hreplacement false

/-- With a replacement of one byte the byte string does not grow. -/
theorem length_toValidUTF8_le (s : List UInt8) (b : UInt8) : (toValidUTF8 s [b]).length ≤ s.length := by
  suffices hloop : ∀ invalid, (toValidLoop _ _ s invalid).length ≤ s.length from hloop false
  induction s using rune_induction with
  | hnil =>
    intro invalid
    exact Nat.le_refl 0
  | hstep s hs ih =>
    intro invalid
    have hpos := decodeRune_size_pos hs
    have hsize := decodeRune_size_le s
    have hdrop : (s.drop _).length = s.length - (decodeRune s).2 := length_drop
    have htrue := ih true
    have hfalse := ih false
    rw [toValidLoop_eq _ hs]
    split
    · cases invalid <;> simp only [length_append, length_cons, length_nil, ite_true,
        Bool.false_eq_true, ite_false] <;> omega
    · rw [length_append, length_take]
      omega

theorem toValidUTF8_eq_nil_iff (hreplacement : replacement ≠ []) :
    toValidUTF8 s replacement = [] ↔ s = [] := by
  constructor
  · intro hnil
    by_contra hs
    rw [toValidUTF8, toValidLoop_eq _ hs] at hnil
    split at hnil
    · exact hreplacement (append_eq_nil_iff.mp hnil).1
    · have hpos := decodeRune_size_pos hs
      rcases take_eq_nil_iff.mp (append_eq_nil_iff.mp hnil).1 with hzero | hempty
      · omega
      · exact hs hempty
  · intro hs
    rw [hs]
    rfl

/-- A valid byte string is left as it is. -/
theorem toValidUTF8_of_valid (hs : Valid s) (replacement : List UInt8) : toValidUTF8 s replacement = s := by
  rw [toValidUTF8]
  induction s using rune_induction with
  | hnil => rfl
  | hstep s hne ih =>
    rw [valid_iff hne] at hs
    rw [toValidLoop_eq _ hne, if_neg hs.1, ih hs.2, take_append_drop]

end

end RanHoneypot.Utf8
