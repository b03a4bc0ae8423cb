import RanHoneypot.Data.JsCoder

/-!
# UTF-16 as bytes

Code units with the low byte first, and the decoding of `unicode/utf16`, which writes a surrogate without
its partner as the replacement character. Units that stand for scalar values are decoded to them.
-/

namespace RanHoneypot.Utf16

open Utf8 Js List UInt16

variable (s : List UInt16)

/-- The units of a byte string; a last odd byte is dropped. -/
def unitsLE : List UInt8 → List UInt16
  | low :: high :: rest => ofNat (low.toNat + 256 * high.toNat) :: unitsLE rest
  | _ => []

def unitBytes (u : UInt16) : List UInt8 := [UInt8.ofNat u.toNat, UInt8.ofNat (u.toNat / 256)]

/-- The bytes of a text that is given by its scalar values. -/
def encodeLE (text : List ℕ) : List UInt8 := (text.flatMap utf16).flatMap unitBytes

/-- `utf16.Decode` -/
def decode (s : List UInt16) : List ℕ :=
  (codePoints s).map fun r ↦ if 0xD800 ≤ r ∧ r ≤ 0xDFFF then runeError else r

theorem unitsLE_unitBytes : unitsLE (s.flatMap unitBytes) = s := by
  induction s with
  | nil => rfl
  | cons u s ih =>
    have hu := u.toNat_lt
    have hlow : (UInt8.ofNat _).toNat = u.toNat % 256 := UInt8.toNat_ofNat'
    have hhigh : (UInt8.ofNat _).toNat = u.toNat / 256 := toNat_ofNat (by omega)
    rw [flatMap_cons, unitBytes, cons_append, cons_append, nil_append, unitsLE, ih, hlow,
      hhigh, Nat.mod_add_div, UInt16.ofNat_toNat]

theorem even_length_unitBytes : (s.flatMap unitBytes).length % 2 = 0 := by
  induction s with
  | nil => rfl
  | cons u s ih =>
    rw [flatMap_cons, length_append, unitBytes, length_cons, length_cons,
      length_nil]
    omega

theorem codePoints_utf16 {text : List ℕ} (htext : ∀ r ∈ text, IsScalar r) :
    codePoints (text.flatMap utf16) = text := by
  induction text with
  | nil => rfl
  | cons r text ih =>
    have hr := htext r mem_cons_self
    have hrest := ih fun c hc ↦ htext c (mem_cons_of_mem _ hc)
    unfold IsScalar at hr
    rw [flatMap_cons, utf16]
    by_cases hplane : r < 0x10000
    · have hunit : (ofNat r).toNat = r := toNat_ofNat_of_lt' hplane
      have hsingle : isSurrogate (ofNat r) = false := by
        rw [isSurrogate]
        simp only [Bool.and_eq_false_imp, decide_eq_true_eq, decide_eq_false_iff_not]
        omega
      rw [if_pos hplane, singleton_append, Paired.codePoints_single _ hsingle, hunit, hrest]
    · have hhigh : (ofNat _).toNat =
          0xD800 + (r - 0x10000) / 0x400 := toNat_ofNat_of_lt' (by
        show _ < 65536
        omega)
      have hlow : (ofNat _).toNat =
          0xDC00 + (r - 0x10000) % 0x400 := toNat_ofNat_of_lt' (by
        show _ < 65536
        omega)
      rw [if_neg hplane, cons_append, cons_append, nil_append, codePoints, isHighSurrogate,
        isLowSurrogate, hhigh, hlow, if_pos (by simp; omega), hrest,
        show 0x10000 + (0xD800 + (r - 0x10000) / 0x400 - 0xD800) * 0x400 +
          (0xDC00 + (r - 0x10000) % 0x400 - 0xDC00) = r by omega]

/-- Scalar values survive the units. -/
theorem decode_utf16 {text : List ℕ} (htext : ∀ r ∈ text, IsScalar r) :
    decode (text.flatMap utf16) = text := by
  rw [decode, codePoints_utf16 htext]
  conv_rhs => rw [← map_id text]
  apply map_congr_left
  intro r hr
  have hscalar := htext r hr
  unfold IsScalar at hscalar
  exact if_neg (by omega)

theorem codePoints_le : ∀ r ∈ codePoints s, r ≤ 0x10FFFF := by
  induction s using codePoints.induct with
  | case1 => simp [codePoints]
  | case2 u =>
    have hu := u.toNat_lt
    simp only [codePoints, mem_singleton]
    omega
  | case3 u v rest hpair ih =>
    rw [codePoints, if_pos hpair]
    simp only [isHighSurrogate, isLowSurrogate, Bool.and_eq_true, decide_eq_true_eq] at hpair
    intro r hr
    rcases mem_cons.mp hr with hfirst | hrest
    · omega
    · exact ih r hrest
  | case4 u v rest hpair ih =>
    rw [codePoints, if_neg hpair]
    have hu := u.toNat_lt
    intro r hr
    rcases mem_cons.mp hr with hfirst | hrest
    · omega
    · exact ih r hrest

theorem isScalar_decode : ∀ r ∈ decode s, IsScalar r := by
  intro r hr
  rcases mem_map.mp hr with ⟨c, hc, hcr⟩
  have hle := codePoints_le s c hc
  rw [← hcr]
  split
  · exact isScalar_runeError
  · unfold IsScalar
    omega

end RanHoneypot.Utf16
