import RanHoneypot.Data.GoPath

/-!
# Lower case under percent encoding

A percent-encoded text that is put in lower case and then decoded is the original text with only some
of its letters in lower case: those that were not encoded. It lies between the text and the text in
lower case, in the sense of replaced blocks.
-/

namespace RanHoneypot.GoText

open Utf8 List

variable {lower : LowerTable}

/-! ## Bytes -/

variable {b : UInt8}

def High (b : UInt8) : Prop := 0x80 ≤ b.toNat

/-- A byte that lower case leaves alone. -/
def Plain (b : UInt8) : Prop := b.toNat < 0x80 ∧ ¬ (65 ≤ b.toNat ∧ b.toNat ≤ 90)

instance : DecidablePred Plain := fun b ↦
  inferInstanceAs (Decidable (b.toNat < 0x80 ∧ ¬ (65 ≤ b.toNat ∧ b.toNat ≤ 90)))

/-- The bytes that have a meaning in paths. -/
def Mark (b : UInt8) : Prop := b ∈ [ch '/', ch '.', ch '%', ch ';', ch '\\']

theorem Mark.plain (b : UInt8) (hb : Mark b) : Plain b := by
  unfold Mark at hb
  simp only [mem_cons, not_mem_nil, or_false] at hb
  rcases hb with hb | hb | hb | hb | hb <;> rw [hb] <;> decide

theorem High.not_plain (hb : High b) : ¬ Plain b := fun hplain ↦ by
  unfold High at hb
  have := hplain.1
  omega

theorem High.not_mark (hb : High b) : ¬ Mark b := fun hmark ↦ hb.not_plain (Mark.plain b hmark)

/-- The lower case of a byte, bytes beyond ASCII being left alone. -/
def lowerByte (b : UInt8) : UInt8 := if 65 ≤ b.toNat ∧ b.toNat ≤ 90 then b + 32 else b

theorem encodeRune_ascii {r : ℕ} (hr : r < 0x80) : encodeRune r = [UInt8.ofNat r] := by
  have hvalid : ¬ ((0xD800 ≤ r ∧ r ≤ 0xDFFF) ∨ 0x10FFFF < r) := by omega
  simp only [encodeRune, if_neg hvalid, if_pos hr]

theorem encodeRune_lower_ascii (hb : b.toNat < 0x80) :
    encodeRune (lower.rune b.toNat) = [lowerByte b] := by
  rw [lower.ascii _ hb, lowerByte]
  split
  · next hcapital =>
    rw [encodeRune_ascii (by omega), UInt8.ofNat_add, UInt8.ofNat_toNat]
    rfl
  · rw [encodeRune_ascii hb, UInt8.ofNat_toNat]

theorem high_of_mem_encodeRune {r : ℕ} (hr : 0x80 ≤ r) (hb : b ∈ encodeRune r) : High b := by
  have hcontinuation : ∀ n, High (UInt8.ofNat (0x80 + n % 64)) := by
    intro n
    rw [High, toNat_continuation]
    omega
  have hlead : ∀ n, 0x80 ≤ n → n < 256 → High (UInt8.ofNat n) := by
    intro n hlow hhigh
    rw [High, toNat_ofNat hhigh]
    exact hlow
  unfold encodeRune at hb
  generalize hvalid : (if (0xD800 ≤ r ∧ r ≤ 0xDFFF) ∨ 0x10FFFF < r then runeError else r) = valid at hb
  have hbounds : 0x80 ≤ valid ∧ valid ≤ 0x10FFFF := by
    rw [← hvalid]
    split
    · decide
    · omega
  rw [if_neg (by omega)] at hb
  split at hb
  · simp only [mem_cons, not_mem_nil, or_false] at hb
    rcases hb with hb | hb
    · exact hb ▸ hlead _ (by omega) (by omega)
    · exact hb ▸ hcontinuation _
  · split at hb
    · simp only [mem_cons, not_mem_nil, or_false] at hb
      rcases hb with hb | hb | hb
      · exact hb ▸ hlead _ (by omega) (by omega)
      · exact hb ▸ hcontinuation _
      · exact hb ▸ hcontinuation _
    · simp only [mem_cons, not_mem_nil, or_false] at hb
      rcases hb with hb | hb | hb | hb
      · exact hb ▸ hlead _ (by omega) (by omega)
      · exact hb ▸ hcontinuation _
      · exact hb ▸ hcontinuation _
      · exact hb ▸ hcontinuation _

/-- A rune that starts beyond ASCII is beyond ASCII, and so are all its bytes. -/
theorem decodeRune_high {first : UInt8} (rest : Text) (hfirst : High first) :
    0x80 ≤ (decodeRune (first :: rest)).1 ∧
      ∀ b ∈ (first :: rest).take (decodeRune (first :: rest)).2, High b := by
  unfold High at hfirst
  rcases decodeRune_cases first rest with
    ⟨hascii, _⟩ | heq | ⟨count, low, high, hlead, hlength, hlow, hhigh, htail, heq⟩
  · omega
  · rw [heq]
    refine ⟨by decide, ?_⟩
    intro b hb
    rw [take_one, head?_cons, Option.toList_some, mem_singleton] at hb
    exact hb ▸ hfirst
  · rw [heq]
    constructor
    · exact (joinBits_range hlead hlength hlow hhigh htail).2
    · intro b hb
      rcases mem_cons.mp hb with hb | hb
      · exact hb ▸ hfirst
      · exact (isContinuation_iff.mp (all_eq_true.mp htail b hb)).1

/-- The lower case of a rune beyond ASCII has no mark in its encoding. -/
theorem not_mark_of_mem_encodeRune_lower {r : ℕ} (hr : 0x80 ≤ r)
    (hb : b ∈ encodeRune (lower.rune r)) : ¬ Mark b := by
  by_cases hdotted : r = 0x130
  · rw [hdotted, lower.dottedI] at hb
    rw [mem_singleton.mp hb]
    unfold Mark
    decide
  · by_cases hkelvin : r = 0x212A
    · rw [hkelvin, lower.kelvin] at hb
      rw [mem_singleton.mp hb]
      unfold Mark
      decide
    · exact (high_of_mem_encodeRune (lower.other r hr hdotted hkelvin) hb).not_mark

theorem lowerByte_of_plain (hb : Plain b) : lowerByte b = b := if_neg hb.2

theorem lowerByte_not_mark : ∀ b : UInt8, ¬ Plain b → ¬ Mark (lowerByte b) := by
  apply forall_byte
  unfold Mark
  decide +kernel

theorem lowerByte_eq_percent : ∀ b : UInt8, lowerByte b = ch '%' → b = ch '%' := by
  apply forall_byte
  decide +kernel

theorem hexValue_lowerByte : ∀ b : UInt8, hexValue b ≠ none → hexValue (lowerByte b) = hexValue b := by
  apply forall_byte
  decide +kernel

theorem hexValue_ascii : ∀ b : UInt8, hexValue b ≠ none → b.toNat < 0x80 := by
  apply forall_byte
  decide +kernel

/-! ## Lower case -/

theorem toLower_eq {s : Text} (hs : s ≠ []) :
    toLower lower s =
      encodeRune (lower.rune (decodeRune s).1) ++ toLower lower (s.drop (decodeRune s).2) := by
  rw [toLower, runes_eq hs]
  rfl

/-- A text with some of its runes in lower case. The bytes of a rune that was taken apart by the
encoding are malformed on their own; whatever becomes of them is beyond ASCII. -/
inductive PartlyLowered (lower : LowerTable) : Text → Text → Prop
  | nil : PartlyLowered lower [] []
  | same {b : UInt8} {s t : Text} (hb : b.toNat < 0x80) (h : PartlyLowered lower s t) :
      PartlyLowered lower (b :: s) (b :: t)
  | lowered {s t : Text} (hs : s ≠ []) (h : PartlyLowered lower (s.drop (decodeRune s).2) t) :
      PartlyLowered lower s (encodeRune (lower.rune (decodeRune s).1) ++ t)
  | broken {b : UInt8} {s z t : Text} (hb : High b) (hz : z ≠ []) (hhigh : ∀ c ∈ z, High c)
      (h : PartlyLowered lower ((b :: s).drop (decodeRune (b :: s)).2) t) :
      PartlyLowered lower (b :: s) (z ++ t)

theorem partlyLowered_toLower (s : Text) : PartlyLowered lower s (toLower lower s) := by
  induction hlength : s.length using Nat.strong_induction_on generalizing s with
  | _ n ih =>
    by_cases hs : s = []
    · rw [hs]
      exact .nil
    · have hpos := decodeRune_size_pos hs
      have hne := length_pos_iff.mpr hs
      rw [toLower_eq hs]
      exact .lowered hs (ih _ (by rw [length_drop]; omega) _ rfl)

namespace PartlyLowered

variable {s t : Text}

theorem lowered_ascii (hb : b.toNat < 0x80) (h : PartlyLowered lower s t) :
    PartlyLowered lower (b :: s) (lowerByte b :: t) := by
  have hdecode := decodeRune_ascii s hb
  have hlowered : PartlyLowered lower (b :: s)
      (encodeRune _ ++ t) :=
    .lowered (cons_ne_nil b s) (by rw [hdecode]; exact h)
  rwa [hdecode, encodeRune_lower_ascii hb] at hlowered

/-- The first byte of a text that starts with ASCII. -/
theorem cons_ascii (hb : b.toNat < 0x80) (h : PartlyLowered lower (b :: s) t) :
    ∃ c rest, t = c :: rest ∧ (c = b ∨ c = lowerByte b) ∧ PartlyLowered lower s rest := by
  have hdecode := decodeRune_ascii s hb
  cases h with
  | same _ h => exact ⟨b, _, rfl, .inl rfl, h⟩
  | lowered _ h =>
    rw [hdecode] at h
    refine ⟨lowerByte b, _, ?_, .inr rfl, h⟩
    rw [hdecode, encodeRune_lower_ascii hb]
    rfl
  | broken hhigh => exact absurd hhigh (by unfold High; omega)

/-- Continuation bytes without their first byte are malformed one by one. -/
theorem continuation (h : PartlyLowered lower s t) {tail rest : Text} (hs : s = tail ++ rest)
    (htail : tail.all isContinuation = true) :
    ∃ z t', t = z ++ t' ∧ (∀ c ∈ z, High c) ∧ PartlyLowered lower rest t' := by
  induction tail generalizing s t with
  | nil =>
    rw [nil_append] at hs
    exact ⟨[], t, rfl, by simp, hs ▸ h⟩
  | cons b tail ih =>
    rw [all_cons, Bool.and_eq_true, isContinuation_iff] at htail
    have hdecode : decodeRune (b :: (tail ++ rest)) = (runeError, 1) := by
      simp only [decodeRune]
      rw [if_neg (by omega), leadByte_none (.inl (by omega))]
    have hstep : ∃ z t', t = z ++ t' ∧ (∀ c ∈ z, High c) ∧ PartlyLowered lower (tail ++ rest) t' := by
      rw [cons_append] at hs
      cases h with
      | nil => cases hs
      | same hb _ =>
        rcases List.cons.inj hs with ⟨heq, _⟩
        rw [heq] at hb
        omega
      | lowered _ h =>
        rw [hs, hdecode] at h ⊢
        refine ⟨_, _, rfl, ?_, h⟩
        intro c hc
        exact high_of_mem_encodeRune (lower.other _ (by decide) (by decide) (by decide)) hc
      | broken _ _ hhigh h =>
        rw [hs, hdecode] at h
        exact ⟨_, _, rfl, hhigh, h⟩
    rcases hstep with ⟨z, t', ht, hz, h'⟩
    rcases ih h' rfl htail.2 with ⟨z', t'', ht', hz', h''⟩
    refine ⟨z ++ z', t'', by rw [ht, ht', append_assoc], ?_, h''⟩
    intro c hc
    rcases mem_append.mp hc with hc | hc
    · exact hz c hc
    · exact hz' c hc

/-- A byte beyond ASCII in front may make the continuation bytes behind it part of its rune. -/
theorem cons_high (h : PartlyLowered lower s t) (hb : High b) {z : Text} (hz : z ≠ [])
    (hhigh : ∀ c ∈ z, High c) : PartlyLowered lower (b :: s) (z ++ t) := by
  rcases decodeRune_cases b s with ⟨hascii, _⟩ | heq | ⟨count, _, _, _, _, _, _, htail, heq⟩
  · exact absurd hb (by unfold High; omega)
  · exact .broken hb hz hhigh (by rw [heq]; exact h)
  · rcases h.continuation (take_append_drop _ s).symm htail with ⟨z', t', ht, hz', h'⟩
    rw [ht, ← append_assoc]
    refine .broken hb (append_ne_nil_of_left_ne_nil hz z') ?_ ?_
    · intro c hc
      rcases mem_append.mp hc with hc | hc
      · exact hhigh c hc
      · exact hz' c hc
    · rw [heq]
      exact h'

/-! ## Encoded texts -/

/-- What the first rune beyond ASCII becomes, and what is behind it. -/
theorem cons_high_cases (hb : High b) (h : PartlyLowered lower (b :: s) t) :
    ∃ z rest, t = z ++ rest ∧ z ≠ [] ∧ (∀ c ∈ z, ¬ Mark c) ∧
      PartlyLowered lower ((b :: s).drop (decodeRune (b :: s)).2) rest ∧
      ((∀ c ∈ z, High c) ∨ (z = encodeRune (lower.rune (decodeRune (b :: s)).1))) := by
  cases h with
  | same hascii => exact absurd hb (by unfold High; omega)
  | lowered _ h =>
    refine ⟨_, _, rfl, encodeRune_ne_nil _, ?_, h, .inr rfl⟩
    intro c hc
    exact not_mark_of_mem_encodeRune_lower (decodeRune_high s hb).1 hc
  | broken _ hz hhigh h => exact ⟨_, _, rfl, hz, fun c hc ↦ (hhigh c hc).not_mark, h, .inl hhigh⟩

/-- A rune of an encoded text that is beyond ASCII is malformed or a rune of the text. -/
theorem decodeRune_of_escaped (hb : High b) (hescaped : Escaped s t) :
    decodeRune (b :: t) = (runeError, 1) ∨
      decodeRune (b :: s) = decodeRune (b :: t) ∧
        Escaped ((b :: s).drop (decodeRune (b :: s)).2) ((b :: t).drop (decodeRune (b :: t)).2) := by
  rcases decodeRune_cases b t with
    ⟨hascii, _⟩ | heq | ⟨count, low, high, hlead, hlength, hlow, hhigh, htail, heq⟩
  · exact absurd hb (by unfold High; omega)
  · exact .inl heq
  · have hpercent : ch '%' ∉ t.take count := by
      intro hmem
      exact absurd (all_eq_true.mp htail _ hmem) (by decide)
    rw [← take_append_drop _ t] at hescaped
    rcases hescaped.raw_front hpercent with ⟨rest, hs, hrest⟩
    have hsame : decodeRune (b :: s) =
        (joinBits (b.toNat % 2 ^ (6 - count)) (t.take count), count + 1) := by
      rw [hs]
      exact decodeRune_lead b _ _ hb hlead hlength hlow hhigh htail
    refine .inr ⟨hsame.trans heq.symm, ?_⟩
    rw [hsame, heq, drop_succ_cons, hs]
    rwa [drop_left' hlength]

/-- Lower case on an encoded text is lower case on some runes of the text, encoded. -/
theorem of_escaped {u : Text} (hescaped : Escaped s t) (h : PartlyLowered lower t u) :
    ∃ v, Escaped v u ∧ PartlyLowered lower s v := by
  induction hlength : t.length using Nat.strong_induction_on generalizing s t u with
  | _ n ih =>
    cases hescaped with
    | nil =>
      generalize hnil : ([] : Text) = front at h
      cases h with
      | nil => exact ⟨[], .nil, .nil⟩
      | same _ _ => cases hnil
      | lowered hs _ => exact absurd hnil.symm hs
      | broken _ _ _ _ => cases hnil
    | @escape b high low s t hhigh hlow hescaped =>
      have hhex : ∀ {digit : UInt8} {n : ℕ}, hexValue digit = some n → hexValue digit ≠ none := by
        intro digit n hdigit
        rw [hdigit]
        simp
      rcases h.cons_ascii (by decide) with ⟨c, u, rfl, hc, h⟩
      rcases h.cons_ascii (hexValue_ascii high (hhex hhigh)) with ⟨high', u, rfl, hhigh', h⟩
      rcases h.cons_ascii (hexValue_ascii low (hhex hlow)) with ⟨low', u, rfl, hlow', h⟩
      rcases ih t.length (by rw [← hlength]; simp only [length_cons]; omega) hescaped h rfl with
        ⟨v, hv, hpartly⟩
      have hpercent : c = ch '%' := by
        rcases hc with hc | hc
        · exact hc
        · rw [hc]
          decide
      have hdigits : hexValue high' = some (b.toNat / 16) ∧ hexValue low' = some (b.toNat % 16) := by
        constructor
        · rcases hhigh' with heq | heq
          · rw [heq, hhigh]
          · rw [heq, hexValue_lowerByte high (hhex hhigh), hhigh]
        · rcases hlow' with heq | heq
          · rw [heq, hlow]
          · rw [heq, hexValue_lowerByte low (hhex hlow), hlow]
      refine ⟨b :: v, hpercent ▸ .escape hdigits.1 hdigits.2 hv, ?_⟩
      by_cases hb : b.toNat < 0x80
      · exact .same hb hpartly
      · have hhigh : High b := by
          unfold High
          omega
        exact hpartly.cons_high hhigh (cons_ne_nil b []) (by simpa using hhigh)
    | @raw b s t hb hescaped =>
      by_cases hascii : b.toNat < 0x80
      · rcases h.cons_ascii hascii with ⟨c, u, rfl, hc, h⟩
        rcases ih t.length (by rw [← hlength]; simp) hescaped h rfl with ⟨v, hv, hpartly⟩
        rcases hc with hc | hc
        · rw [hc]
          exact ⟨b :: v, .raw hb hv, .same hascii hpartly⟩
        · refine ⟨c :: v, .raw (fun heq ↦ hb ?_) hv, hc ▸ .lowered_ascii hascii hpartly⟩
          exact lowerByte_eq_percent b (hc ▸ heq)
      · have hhigh : High b := by
          unfold High
          omega
        rcases h.cons_high_cases hhigh with ⟨z, u, rfl, hz, hmark, h, hcase⟩
        have hraw : ch '%' ∉ z := fun hmem ↦ hmark _ hmem (by unfold Mark; decide)
        have hshort : ((b :: t).drop (decodeRune (b :: t)).2).length < n := by
          have hpos := decodeRune_size_pos (cons_ne_nil b t)
          rw [length_drop, ← hlength, length_cons]
          omega
        rcases decodeRune_of_escaped hhigh hescaped with heq | ⟨heq, hrest⟩
        · rw [heq] at h hcase hshort
          rcases ih _ hshort hescaped h rfl with ⟨v, hv, hpartly⟩
          refine ⟨z ++ v, hv.append_raw hraw, hpartly.cons_high hhigh hz ?_⟩
          rcases hcase with hcase | hcase
          · exact hcase
          · intro c hc
            rw [hcase] at hc
            exact high_of_mem_encodeRune
              (lower.other _ (by decide) (by decide) (by decide)) hc
        · rcases ih _ hshort hrest h rfl with ⟨v, hv, hpartly⟩
          refine ⟨z ++ v, hv.append_raw hraw, ?_⟩
          rcases hcase with hcase | hcase
          · exact .broken hhigh hz hcase hpartly
          · rw [hcase, ← heq]
            exact .lowered (cons_ne_nil b s) hpartly

theorem of_escapedTimes {rounds : ℕ} {u : Text} (hescaped : EscapedTimes rounds s t)
    (h : PartlyLowered lower t u) : ∃ v, EscapedTimes rounds v u ∧ PartlyLowered lower s v := by
  induction rounds generalizing t u with
  | zero =>
    have hst : s = t := hescaped
    exact ⟨u, rfl, hst ▸ h⟩
  | succ rounds ih =>
    rcases hescaped with ⟨between, hbefore, hlast⟩
    rcases of_escaped hlast h with ⟨between', hlast', hbetween⟩
    rcases ih hbefore hbetween with ⟨v, hv, hpartly⟩
    exact ⟨v, ⟨between', hv, hlast'⟩, hpartly⟩

/-! ## Between a text and its lower case -/

/-- A letter in lower case is a replaced block. -/
theorem replaced_ascii (b : UInt8) (h : Replaced Plain Mark s t) :
    Replaced Plain Mark (b :: s) (lowerByte b :: t) := by
  by_cases hplain : Plain b
  · rw [lowerByte_of_plain hplain]
    exact h.keep b
  · exact h.block (cons_ne_nil b []) (cons_ne_nil _ []) (by simpa using hplain)
      (by simpa using lowerByte_not_mark b hplain)

/-- The bytes of a rune beyond ASCII are a replaced block. -/
theorem replaced_high {z : Text} (hb : High b) (hz : z ≠ []) (hmark : ∀ c ∈ z, ¬ Mark c)
    (h : Replaced Plain Mark ((b :: s).drop (decodeRune (b :: s)).2) t) :
    Replaced Plain Mark (b :: s) (z ++ t) := by
  have hpos := decodeRune_size_pos (cons_ne_nil b s)
  have htake : (b :: s).take (decodeRune (b :: s)).2 ≠ [] := by
    intro hnil
    rcases take_eq_nil_iff.mp hnil with hzero | hnil
    · omega
    · exact absurd hnil (cons_ne_nil b s)
  have hblock := h.block htake hz (fun c hc ↦ ((decodeRune_high s hb).2 c hc).not_plain) hmark
  rwa [take_append_drop] at hblock

theorem replaced (h : PartlyLowered lower s t) : Replaced Plain Mark s t := by
  induction h with
  | nil => exact .nil
  | same _ _ ih => exact ih.keep _
  | @lowered s t hs _ ih =>
    cases s with
    | nil => exact absurd rfl hs
    | cons b s =>
      by_cases hascii : b.toNat < 0x80
      · rw [decodeRune_ascii s hascii] at ih ⊢
        rw [encodeRune_lower_ascii hascii]
        exact replaced_ascii b ih
      · have hhigh : High b := not_lt.mp hascii
        refine replaced_high hhigh (encodeRune_ne_nil _) (fun c hc ↦ ?_) ih
        exact not_mark_of_mem_encodeRune_lower (decodeRune_high s hhigh).1 hc
  | broken hb hz hhigh _ ih => exact replaced_high hb hz (fun c hc ↦ (hhigh c hc).not_mark) ih

theorem replaced_toLower (h : PartlyLowered lower s t) :
    Replaced Plain Mark t (toLower lower s) := by
  induction h with
  | nil => exact .nil
  | @same b s t hb _ ih =>
    rw [toLower_eq (cons_ne_nil b s), decodeRune_ascii s hb, encodeRune_lower_ascii hb]
    exact replaced_ascii b ih
  | lowered hs _ ih =>
    rw [toLower_eq hs]
    exact ih.append_left _
  | @broken b s z t hb hz hhigh _ ih =>
    rw [toLower_eq (cons_ne_nil b s)]
    refine ih.block hz (encodeRune_ne_nil _) (fun c hc ↦ (hhigh c hc).not_plain) (fun c hc ↦ ?_)
    exact not_mark_of_mem_encodeRune_lower (decodeRune_high s hb).1 hc

end PartlyLowered

/-- Lower case only replaces blocks. -/
theorem replaced_toLower (lower : LowerTable) (s : Text) :
    Replaced Plain Mark s (toLower lower s) := (partlyLowered_toLower s).replaced

/-! ## Every byte encoded -/

def hexDigit (n : ℕ) : UInt8 := UInt8.ofNat (if n < 10 then 48 + n else 87 + n)

/-- Percent encoding of every byte, with digits in lower case. -/
def escapeAll (s : Text) : Text :=
  s.flatMap fun b ↦ [ch '%', hexDigit (b.toNat / 16), hexDigit (b.toNat % 16)]

theorem hexDigit_spec : ∀ n < 16, hexValue (hexDigit n) = some n ∧ Plain (hexDigit n) := by
  decide +kernel

theorem escaped_escapeAll (s : Text) : Escaped s (escapeAll s) := by
  induction s with
  | nil => exact .nil
  | cons b s ih =>
    have hb := UInt8.toNat_lt b
    exact .escape (hexDigit_spec _ (by omega)).1 (hexDigit_spec _ (by omega)).1 ih

theorem length_escapeAll (s : Text) : (escapeAll s).length = 3 * s.length := by
  induction s with
  | nil => rfl
  | cons b s ih =>
    rw [escapeAll, flatMap_cons, length_append]
    change 3 + (escapeAll s).length = 3 * (s.length + 1)
    omega

theorem plain_of_mem_escapeAll {s : Text} {c : UInt8} (hc : c ∈ escapeAll s) : Plain c := by
  rcases mem_flatMap.mp hc with ⟨b, _, hc⟩
  have hb := UInt8.toNat_lt b
  simp only [mem_cons, not_mem_nil, or_false] at hc
  rcases hc with hc | hc | hc
  · rw [hc]
    decide
  · rw [hc]
    exact (hexDigit_spec _ (by omega)).2
  · rw [hc]
    exact (hexDigit_spec _ (by omega)).2

/-- An encoded text has no letters to put in lower case. -/
theorem toLower_escapeAll (lower : LowerTable) (s : Text) :
    toLower lower (escapeAll s) = escapeAll s :=
  (replaced_toLower lower (escapeAll s)).eq_of_plain fun _ hc ↦ plain_of_mem_escapeAll hc

end RanHoneypot.GoText
