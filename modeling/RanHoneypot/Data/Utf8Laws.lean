import RanHoneypot.Data.Utf8

/-!
# Round trips of the rune decoder

The decoder only returns scalar values, and it reads back what the encoder wrote, whatever follows.
So a list of scalar values survives encoding and decoding.
-/

namespace RanHoneypot.Utf8

open List UInt8

variable {r b : ℕ}

/-- A code point that is not a surrogate. -/
def IsScalar (r : ℕ) : Prop := r < 0xD800 ∨ (0xDFFF < r ∧ r ≤ 0x10FFFF)

instance (r : ℕ) : Decidable (IsScalar r) := inferInstanceAs (Decidable (_ ∨ _))

theorem isScalar_of_lt (hr : r < 0x80) : IsScalar r := .inl (by omega)

theorem isScalar_runeError : IsScalar runeError := by decide

/-! ## The decoder -/

theorem leadByte_two (hlow : 0xC2 ≤ b) (hhigh : b ≤ 0xDF) :
    leadByte b = some (1, 0x80, 0xBF) := if_pos ⟨hlow, hhigh⟩

theorem leadByte_three (hlow : 0xE0 ≤ b) (hhigh : b ≤ 0xEF) :
    leadByte b =
      some (2, if b = 0xE0 then 0xA0 else 0x80, if b = 0xED then 0x9F else 0xBF) := by
  unfold leadByte
  rw [if_neg (by omega)]
  split
  · next hb => simp [hb]
  · split
    · simp
    · rw [if_pos (by omega)]

theorem leadByte_four (hlow : 0xF0 ≤ b) (hhigh : b ≤ 0xF4) :
    leadByte b =
      some (3, if b = 0xF0 then 0x90 else 0x80, if b = 0xF4 then 0x8F else 0xBF) := by
  unfold leadByte
  rw [if_neg (by omega), if_neg (by omega), if_neg (by omega), if_neg (by omega)]
  split
  · next hb => simp [hb]
  · split
    · next hb => simp [show b ≠ 0xF4 by omega]
    · simp [show b = 0xF4 by omega]

theorem leadByte_none (hb : b < 0xC2 ∨ 0xF4 < b) : leadByte b = none := by
  unfold leadByte
  rw [if_neg (by omega), if_neg (by omega), if_neg (by omega), if_neg (by omega),
    if_neg (by omega), if_neg (by omega), if_neg (by omega)]

/-- The first byte decides how many bytes follow and the range of the second byte. -/
theorem leadByte_cases {count low high : ℕ} (hlead : leadByte b = some (count, low, high)) :
    (count = 1 ∧ 0xC2 ≤ b ∧ b ≤ 0xDF ∧ low = 0x80 ∧ high = 0xBF) ∨
    (count = 2 ∧ 0xE0 ≤ b ∧ b ≤ 0xEF ∧ low = (if b = 0xE0 then 0xA0 else 0x80) ∧
      high = if b = 0xED then 0x9F else 0xBF) ∨
    (count = 3 ∧ 0xF0 ≤ b ∧ b ≤ 0xF4 ∧ low = (if b = 0xF0 then 0x90 else 0x80) ∧
      high = if b = 0xF4 then 0x8F else 0xBF) := by
  by_cases houtside : b < 0xC2 ∨ 0xF4 < b
  · rw [leadByte_none houtside] at hlead
    cases hlead
  by_cases htwo : b ≤ 0xDF
  · rw [leadByte_two (by omega) htwo] at hlead
    cases hlead
    exact .inl ⟨rfl, by omega, htwo, rfl, rfl⟩
  by_cases hthree : b ≤ 0xEF
  · rw [leadByte_three (by omega) hthree] at hlead
    cases hlead
    exact .inr (.inl ⟨rfl, by omega, hthree, rfl, rfl⟩)
  · rw [leadByte_four (by omega) (by omega)] at hlead
    cases hlead
    exact .inr (.inr ⟨rfl, by omega, by omega, rfl, rfl⟩)

theorem isContinuation_iff {b : UInt8} :
    isContinuation b = true ↔ 0x80 ≤ b.toNat ∧ b.toNat ≤ 0xBF := by
  simp [isContinuation]

/-- Reading a first byte with its continuation. -/
theorem decodeRune_lead (first : UInt8) (tail rest : List UInt8) {count low high : ℕ}
    (hfirst : 0x80 ≤ first.toNat) (hlead : leadByte first.toNat = some (count, low, high))
    (hlength : tail.length = count) (hlow : low ≤ (tail.headD 0).toNat)
    (hhigh : (tail.headD 0).toNat ≤ high) (htail : tail.all isContinuation = true) :
    decodeRune (first :: (tail ++ rest)) =
      (joinBits (first.toNat % 2 ^ (6 - count)) tail, count + 1) := by
  have htake : (tail ++ rest).take count = tail := by
    rw [← hlength, take_left]
  simp only [decodeRune]
  rw [if_neg (by omega), hlead]
  simp only [htake]
  rw [if_pos ⟨hlength, hlow, hhigh, htail⟩]

/-- What the decoder returns for a byte string that is not empty. -/
theorem decodeRune_cases (first : UInt8) (rest : List UInt8) :
    (first.toNat < 0x80 ∧ decodeRune (first :: rest) = (first.toNat, 1)) ∨
    decodeRune (first :: rest) = (runeError, 1) ∨
    ∃ count low high, leadByte first.toNat = some (count, low, high) ∧
      (rest.take count).length = count ∧ low ≤ ((rest.take count).headD 0).toNat ∧
      ((rest.take count).headD 0).toNat ≤ high ∧ (rest.take count).all isContinuation = true ∧
      decodeRune (first :: rest) =
        (joinBits (first.toNat % 2 ^ (6 - count)) (rest.take count), count + 1) := by
  simp only [decodeRune]
  by_cases hascii : first.toNat < 0x80
  · exact .inl ⟨hascii, if_pos hascii⟩
  · rw [if_neg hascii]
    refine .inr ?_
    cases hlead : leadByte first.toNat with
    | none => exact .inl rfl
    | some range =>
      rcases range with ⟨count, low, high⟩
      dsimp only
      split
      · next hvalid =>
        exact .inr ⟨count, low, high, rfl, hvalid.1, hvalid.2.1, hvalid.2.2.1, hvalid.2.2.2, rfl⟩
      · exact .inl rfl

theorem decodeRune_ascii {first : UInt8} (rest : List UInt8) (hfirst : first.toNat < 0x80) :
    decodeRune (first :: rest) = (first.toNat, 1) := by
  simp only [decodeRune, if_pos hfirst]

theorem decodeRune_size_pos {s : List UInt8} (hs : s ≠ []) : 0 < (decodeRune s).2 := by
  cases s with
  | nil => exact absurd rfl hs
  | cons first rest =>
    rcases decodeRune_cases first rest with
      ⟨_, heq⟩ | heq | ⟨count, _, _, _, _, _, _, _, heq⟩
    · rw [heq]
      exact Nat.one_pos
    · rw [heq]
      exact Nat.one_pos
    · rw [heq]
      exact Nat.succ_pos _

/-- The bits of a valid encoding are those of a scalar value beyond ASCII. -/
theorem joinBits_range {count low high : ℕ} {tail : List UInt8}
    (hlead : leadByte b = some (count, low, high)) (hlength : tail.length = count)
    (hlow : low ≤ (tail.headD 0).toNat) (hhigh : (tail.headD 0).toNat ≤ high)
    (htail : tail.all isContinuation = true) :
    IsScalar (joinBits (b % 2 ^ (6 - count)) tail) ∧ 0x80 ≤ joinBits (b % 2 ^ (6 - count)) tail := by
  rcases leadByte_cases hlead with
    ⟨rfl, hfirst, hfirst', rfl, rfl⟩ | ⟨rfl, hfirst, hfirst', rfl, rfl⟩ |
    ⟨rfl, hfirst, hfirst', rfl, rfl⟩
  · rcases length_eq_one_iff.mp hlength with ⟨b, rfl⟩
    simp only [IsScalar, joinBits, foldl_cons, foldl_nil]
    omega
  · rcases length_eq_two.mp hlength with ⟨b, c, rfl⟩
    simp only [IsScalar, joinBits, foldl_cons, foldl_nil]
    simp only [headD_cons] at hlow hhigh
    split at hlow <;> split at hhigh <;> omega
  · rcases length_eq_three.mp hlength with ⟨b, c, d, rfl⟩
    simp only [IsScalar, joinBits, foldl_cons, foldl_nil]
    simp only [headD_cons] at hlow hhigh
    split at hlow <;> split at hhigh <;> omega

theorem decodeRune_isScalar (s : List UInt8) : IsScalar (decodeRune s).1 := by
  cases s with
  | nil => exact isScalar_runeError
  | cons first rest =>
    rcases decodeRune_cases first rest with
      ⟨hascii, heq⟩ | heq | ⟨count, low, high, hlead, hlength, hlow, hhigh, htail, heq⟩
    · rw [heq]
      exact isScalar_of_lt hascii
    · rw [heq]
      exact isScalar_runeError
    · rw [heq]
      exact (joinBits_range hlead hlength hlow hhigh htail).1

/-- A statement about bytes that can be tried out. -/
theorem forall_byte {P : UInt8 → Prop} (h : ∀ i : Fin 256, P (UInt8.ofNat i.val)) (b : UInt8) : P b := by
  have hb := h ⟨b.toNat, UInt8.toNat_lt b⟩
  rwa [UInt8.ofNat_toNat] at hb

/-! ## Encoding and decoding -/

theorem toNat_ofNat {n : ℕ} (hn : n < 256) : (ofNat n).toNat = n :=
  toNat_ofNat_of_lt' hn

theorem toNat_continuation (n : ℕ) : (ofNat (0x80 + n % 64)).toNat = 0x80 + n % 64 :=
  toNat_ofNat (by omega)

theorem isContinuation_ofNat (n : ℕ) : isContinuation (ofNat (0x80 + n % 64)) = true := by
  rw [isContinuation_iff, toNat_continuation]
  omega

/-- Reading a first byte with the continuation bytes that the encoder writes. -/
theorem decodeRune_continued {first n low high : ℕ} (tail : List ℕ) (rest : List UInt8)
    (hfirst : 0x80 ≤ first ∧ first < 256) (hlead : leadByte first = some (tail.length + 1, low, high))
    (hsecond : low ≤ 0x80 + n % 64 ∧ 0x80 + n % 64 ≤ high) :
    decodeRune (ofNat first :: ((n :: tail).map (fun n ↦ ofNat (0x80 + n % 64)) ++ rest)) =
      ((n :: tail).foldl (fun acc n ↦ acc * 64 + n % 64) (first % 2 ^ (5 - tail.length)),
        tail.length + 2) := by
  have hbyte := toNat_ofNat hfirst.2
  have hbits (n : ℕ) : (0x80 + n % 64) % 64 = n % 64 := by omega
  have hhead := toNat_continuation n
  have hall : ((n :: tail).map fun n ↦ ofNat (0x80 + n % 64)).all isContinuation = true := by
    simp only [all_map, all_eq_true, Function.comp_apply, isContinuation_ofNat, implies_true]
  rw [decodeRune_lead _ _ rest (hbyte.symm ▸ hfirst.1) (hbyte.symm ▸ hlead) (length_map _)
    (hhead.symm ▸ hsecond.1) (hhead.symm ▸ hsecond.2) hall, hbyte]
  simp only [joinBits, foldl_map, toNat_continuation, hbits, length_cons, Nat.reduceSubDiff]

theorem decodeRune_two (hlow : 0x80 ≤ r) (hhigh : r < 0x800) (rest : List UInt8) :
    decodeRune (ofNat (0xC0 + r / 64) :: ofNat (0x80 + r % 64) :: rest) = (r, 2) := by
  apply (decodeRune_continued [] rest (by omega) (leadByte_two (by omega) (by omega))
    (by omega)).trans
  simp only [foldl_cons, foldl_nil, length_nil, Prod.mk.injEq, and_true]
  omega

theorem decodeRune_three (hr : IsScalar r) (hlow : 0x800 ≤ r) (hhigh : r < 0x10000)
    (rest : List UInt8) :
    decodeRune (ofNat (0xE0 + r / 4096) :: ofNat (0x80 + r / 64 % 64) ::
      ofNat (0x80 + r % 64) :: rest) = (r, 3) := by
  unfold IsScalar at hr
  apply (decodeRune_continued [r] rest (by omega) (leadByte_three (by omega) (by omega))
    (by constructor <;> split <;> omega)).trans
  simp only [foldl_cons, foldl_nil, length_cons, length_nil, Prod.mk.injEq, and_true]
  omega

theorem decodeRune_four (hlow : 0x10000 ≤ r) (hhigh : r ≤ 0x10FFFF) (rest : List UInt8) :
    decodeRune (ofNat (0xF0 + r / 262144) :: ofNat (0x80 + r / 4096 % 64) ::
      ofNat (0x80 + r / 64 % 64) :: ofNat (0x80 + r % 64) :: rest) = (r, 4) := by
  apply (decodeRune_continued [r / 64, r] rest (by omega) (leadByte_four (by omega) (by omega))
    (by constructor <;> split <;> omega)).trans
  simp only [foldl_cons, foldl_nil, length_cons, length_nil, Prod.mk.injEq, and_true]
  omega

/-- The encoder writes scalar values as they are. -/
theorem encodeRune_of_isScalar (hr : IsScalar r) :
    encodeRune r =
      if r < 0x80 then [ofNat r]
      else if r < 0x800 then [ofNat (0xC0 + r / 64), ofNat (0x80 + r % 64)]
      else if r < 0x10000 then
        [ofNat (0xE0 + r / 4096), ofNat (0x80 + r / 64 % 64),
          ofNat (0x80 + r % 64)]
      else
        [ofNat (0xF0 + r / 262144), ofNat (0x80 + r / 4096 % 64),
          ofNat (0x80 + r / 64 % 64), ofNat (0x80 + r % 64)] := by
  have hvalid : ¬((0xD800 ≤ r ∧ r ≤ 0xDFFF) ∨ 0x10FFFF < r) := by
    unfold IsScalar at hr
    omega
  simp [encodeRune, if_neg hvalid]

/-- The decoder reads back what the encoder wrote. -/
theorem decodeRune_encodeRune (hr : IsScalar r) (rest : List UInt8) :
    decodeRune (encodeRune r ++ rest) = (r, (encodeRune r).length) := by
  rw [encodeRune_of_isScalar hr]
  split
  · next hone =>
    have hfirst : (ofNat r).toNat = r := toNat_ofNat (by omega)
    simp [decodeRune, hfirst, if_pos hone]
  · split
    · next hone htwo => exact decodeRune_two (by omega) htwo _
    · split
      · next htwo hthree => exact decodeRune_three hr (by omega) hthree _
      · next hthree =>
        have hmax : r ≤ 0x10FFFF := by
          unfold IsScalar at hr
          omega
        exact decodeRune_four (by omega) hmax _

theorem runeLen_eq (hr : IsScalar r) : runeLen r = (encodeRune r).length := by
  rw [encodeRune_of_isScalar hr]
  unfold IsScalar at hr
  unfold runeLen
  split
  · rfl
  · split
    · rfl
    · rw [if_neg (by omega)]
      split
      · rfl
      · rw [if_pos (by omega)]
        rfl

theorem encodeRune_ne_nil (r : ℕ) : encodeRune r ≠ [] := by
  unfold encodeRune
  dsimp only
  split_ifs <;> exact cons_ne_nil _ _

/-! ## Whole byte strings -/

/-- To follow the decoder through a byte string, one rune at a time. -/
theorem rune_induction {P : List UInt8 → Prop} (hnil : P [])
    (hstep : ∀ s, s ≠ [] → P (s.drop (decodeRune s).2) → P s) (s : List UInt8) : P s := by
  by_cases hs : s = []
  · rw [hs]
    exact hnil
  · exact hstep s hs (rune_induction hnil hstep _)
termination_by s.length
decreasing_by
  have hpos := decodeRune_size_pos hs
  have hlength := length_pos_of_ne_nil hs
  rw [length_drop]
  omega

/-- Rounds beyond the length of the byte string change nothing. -/
theorem runesLoop_eq_runes {rounds : ℕ} {s : List UInt8} (hrounds : s.length ≤ rounds) :
    runesLoop rounds s = runes s := by
  suffices hsame : ∀ n m (s : List UInt8), s.length ≤ n → s.length ≤ m →
      runesLoop n s = runesLoop m s from hsame rounds s.length s hrounds le_rfl
  intro n
  induction n with
  | zero =>
    intro m s hn _
    have hs : s = [] := length_eq_zero_iff.mp (Nat.le_zero.mp hn)
    cases m with
    | zero => rfl
    | succ m => simp [runesLoop, hs]
  | succ n ih =>
    intro m s hn hm
    by_cases hs : s = []
    · cases m with
      | zero | succ => simp [runesLoop, hs]
    · have hpos := decodeRune_size_pos hs
      have hlength := length_pos_iff.mpr hs
      cases m with
      | zero => omega
      | succ m =>
        have hdrop : (s.drop (decodeRune s).2).length < s.length := by
          rw [length_drop]
          omega
        simp only [runesLoop]
        rw [ih m _ (by omega) (by omega)]

theorem runes_nil : runes [] = [] := rfl

theorem runes_eq {s : List UInt8} (hs : s ≠ []) :
    runes s = decodeRune s :: runes (s.drop (decodeRune s).2) := by
  have hpos := decodeRune_size_pos hs
  have hlength := length_pos_iff.mpr hs
  unfold runes
  cases hrounds : s.length with
  | zero => omega
  | succ rounds =>
    simp only [runesLoop, if_neg hs]
    rw [runesLoop_eq_runes (by rw [length_drop]; omega)]
    rfl

theorem runes_encodeRune_append (hr : IsScalar r) (rest : List UInt8) :
    runes (encodeRune r ++ rest) = (r, (encodeRune r).length) :: runes rest := by
  have hne : encodeRune r ++ rest ≠ [] := by simp [encodeRune_ne_nil]
  rw [runes_eq hne, decodeRune_encodeRune hr, drop_left]

theorem runes_flatMap_encodeRune {rs : List ℕ} (hrs : ∀ r ∈ rs, IsScalar r) :
    runes (rs.flatMap encodeRune) = rs.map fun r ↦ (r, (encodeRune r).length) := by
  induction rs with
  | nil => rfl
  | cons r rest ih =>
    rw [flatMap_cons, runes_encodeRune_append (hrs r mem_cons_self),
      ih fun other hother ↦ hrs other (mem_cons_of_mem r hother), map_cons]

theorem runes_isScalar (s : List UInt8) : ∀ p ∈ runes s, IsScalar p.1 := by
  suffices hloop : ∀ rounds (s : List UInt8), ∀ p ∈ runesLoop rounds s, IsScalar p.1 from
    hloop s.length s
  intro rounds
  induction rounds with
  | zero =>
    intro s p hp
    cases hp
  | succ rounds ih =>
    intro s p hp
    unfold runesLoop at hp
    split at hp
    · cases hp
    · rcases mem_cons.mp hp with rfl | hrest
      · exact decodeRune_isScalar s
      · exact ih _ p hrest

end RanHoneypot.Utf8
