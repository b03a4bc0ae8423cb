import Mathlib.Data.List.Forall2
import RanHoneypot.Data.GoText
import RanHoneypot.Data.Replaced
import RanHoneypot.Data.Utf8Laws

/-!
# Paths of URLs

Lower case, percent decoding and `path.Clean`, as the packages `strings`, `net/url` and `path` have
them, and percent encoding as the inverse of decoding.
-/

namespace RanHoneypot.GoText

open Utf8 List

/-! ## Lower case -/

/-- `unicode.ToLower`. Apart from U+0130 and U+212A, the runes beyond ASCII stay beyond ASCII. -/
structure LowerTable where
  rune : ℕ → ℕ
  ascii : ∀ r < 0x80, rune r = if 65 ≤ r ∧ r ≤ 90 then r + 32 else r
  dottedI : rune 0x130 = 0x69
  kelvin : rune 0x212A = 0x6B
  other : ∀ r, 0x80 ≤ r → r ≠ 0x130 → r ≠ 0x212A → 0x80 ≤ rune r

/-- The table that changes no other rune. -/
def LowerTable.latin : LowerTable where
  rune r :=
    if r = 0x130 then 0x69 else if r = 0x212A then 0x6B else if 65 ≤ r ∧ r ≤ 90 then r + 32 else r
  ascii := by
    intro r hr
    rw [if_neg (by omega), if_neg (by omega)]
  dottedI := rfl
  kelvin := rfl
  other := by
    intro r hr hdotted hkelvin
    rw [if_neg hdotted, if_neg hkelvin, if_neg (by omega)]
    exact hr

/-- `strings.ToLower`. A malformed byte becomes the encoding of `runeError`. -/
def toLower (lower : LowerTable) (s : Text) : Text :=
  (runes s).flatMap fun rune ↦ encodeRune (lower.rune rune.1)

/-! ## Percent encoding -/

/-- The value of a hexadecimal digit in either case. -/
def hexValue (b : UInt8) : Option ℕ :=
  if ch '0' ≤ b ∧ b ≤ ch '9' then some (b.toNat - 48)
  else if ch 'a' ≤ b ∧ b ≤ ch 'f' then some (b.toNat - 87)
  else if ch 'A' ≤ b ∧ b ≤ ch 'F' then some (b.toNat - 55)
  else none

/-- `url.PathUnescape`. -/
def pathUnescape : Text → Option Text
  | [] => some []
  | b :: rest =>
    if b ≠ ch '%' then (pathUnescape rest).map (b :: ·)
    else
      match rest with
      | high :: low :: rest =>
        match hexValue high, hexValue low with
        | some high, some low => (pathUnescape rest).map (UInt8.ofNat (high * 16 + low) :: ·)
        | _, _ => none
      | _ => none

/-- The second text is the first one with some bytes percent-encoded. A percent sign of the text is
always encoded, as it would be taken for the start of an escape otherwise. -/
inductive Escaped : Text → Text → Prop
  | nil : Escaped [] []
  | raw {b : UInt8} {s t : Text} (hb : b ≠ ch '%') (h : Escaped s t) : Escaped (b :: s) (b :: t)
  | escape {b high low : UInt8} {s t : Text} (hhigh : hexValue high = some (b.toNat / 16))
      (hlow : hexValue low = some (b.toNat % 16)) (h : Escaped s t) :
      Escaped (b :: s) (ch '%' :: high :: low :: t)

/-- Several rounds of percent encoding. -/
def EscapedTimes : ℕ → Text → Text → Prop
  | 0, s, t => s = t
  | rounds + 1, s, t => ∃ between, EscapedTimes rounds s between ∧ Escaped between t

/-! ## Cleaning -/

/-- The segments that are left, the last one first. -/
def cleanStep (rooted : Bool) (out : List Text) (seg : Text) : List Text :=
  if seg = [] ∨ seg = [ch '.'] then out
  else if seg = [ch '.', ch '.'] then
    match out with
    | last :: before => if last = [ch '.', ch '.'] then seg :: out else before
    | [] => if rooted then [] else [seg]
  else seg :: out

/-- `path.Clean`. -/
def clean (p : Text) : Text :=
  let rooted := decide (p.head? = some (ch '/'))
  let out := (p.splitOn (ch '/')).foldl (cleanStep rooted) []
  if rooted then ch '/' :: join [ch '/'] out.reverse
  else if out = [] then [ch '.']
  else join [ch '/'] out.reverse

/-! ## Decoding what was encoded -/

namespace Escaped

variable {s t : Text}

section

variable (h : Escaped s t)

include h

theorem pathUnescape_eq : pathUnescape t = some s := by
  induction h with
  | nil => rfl
  | raw hb _ ih =>
    rw [pathUnescape.eq_def]
    simp [hb, ih]
  | @escape b high low s t hhigh hlow _ ih =>
    have hvalue : UInt8.ofNat (b.toNat / 16 * 16 + b.toNat % 16) = b := by
      rw [Nat.div_add_mod', UInt8.ofNat_toNat]
    rw [pathUnescape.eq_def]
    simp [hhigh, hlow, ih, hvalue]

/-- A text without a percent sign is not encoded at all. -/
theorem eq_of_notMem (ht : ch '%' ∉ t) : s = t := by
  induction h with
  | nil => rfl
  | raw _ _ ih => rw [ih fun hmem ↦ ht (mem_cons_of_mem _ hmem)]
  | escape _ _ _ _ => exact absurd mem_cons_self ht

theorem length_le : s.length ≤ t.length := by
  induction h with
  | nil => exact Nat.le_refl 0
  | raw _ _ ih => exact Nat.succ_le_succ ih
  | escape _ _ _ ih =>
    simp only [length_cons]
    omega

theorem length_lt_of_mem (ht : ch '%' ∈ t) : s.length < t.length := by
  induction h with
  | nil => cases ht
  | raw hb _ ih =>
    rcases mem_cons.mp ht with heq | hmem
    · exact absurd heq.symm hb
    · exact Nat.succ_lt_succ (ih hmem)
  | escape _ _ h _ =>
    have hle := h.length_le
    simp only [length_cons]
    omega

theorem append_raw {x : Text} (hx : ch '%' ∉ x) : Escaped (x ++ s) (x ++ t) := by
  induction x with
  | nil => exact h
  | cons b x ih =>
    refine .raw (fun heq ↦ hx (heq ▸ mem_cons_self)) (ih fun hmem ↦ ?_)
    exact hx (mem_cons_of_mem b hmem)

end

/-- What has no percent sign in front of an encoded text was not encoded. -/
theorem raw_front {x : Text} (hx : ch '%' ∉ x) (h : Escaped s (x ++ t)) :
    ∃ rest, s = x ++ rest ∧ Escaped rest t := by
  induction x generalizing s with
  | nil => exact ⟨s, rfl, h⟩
  | cons b x ih =>
    have hb : b ≠ ch '%' := fun heq ↦ hx (heq ▸ mem_cons_self)
    generalize hfront : b :: x ++ t = front at h
    cases h with
    | nil => cases hfront
    | raw _ h =>
      rcases List.cons.inj hfront with ⟨heq, hfront⟩
      rcases ih (fun hmem ↦ hx (mem_cons_of_mem b hmem)) (hfront ▸ h) with ⟨rest, hs, hrest⟩
      exact ⟨rest, by rw [hs, heq, cons_append], hrest⟩
    | escape _ _ _ => exact absurd (List.cons.inj hfront).1 hb

end Escaped

/-! ## Cleaning with replaced blocks -/

section Clean

variable {plain mark : UInt8 → Prop} (hmarks : ∀ b, mark b → plain b) (hslash : mark (ch '/'))
  (hdot : mark (ch '.'))
include hmarks hdot

theorem cleanStep_replaced (rooted : Bool) {out out' : List Text} {seg seg' : Text}
    (hout : List.Forall₂ (Replaced plain mark) out out') (hseg : Replaced plain mark seg seg') :
    List.Forall₂ (Replaced plain mark) (cleanStep rooted out seg) (cleanStep rooted out' seg') := by
  have hempty := hseg.eq_nil_iff
  have hself : seg = [ch '.'] ↔ seg' = [ch '.'] :=
    hseg.eq_marks_iff hmarks (by simpa using hdot)
  have hparent : ∀ {s t : Text}, Replaced plain mark s t →
      (s = [ch '.', ch '.'] ↔ t = [ch '.', ch '.']) :=
    fun h ↦ h.eq_marks_iff hmarks (by simpa using hdot)
  unfold cleanStep
  simp only [hempty, hself, hparent hseg]
  split
  · exact hout
  · split
    · cases hout with
      | nil =>
        cases rooted with
        | true => exact .nil
        | false => exact .cons hseg .nil
      | @cons last last' before before' hlast hbefore =>
        simp only [hparent hlast]
        split
        · exact .cons hseg (.cons hlast hbefore)
        · exact hbefore
    · exact .cons hseg hout

theorem foldl_cleanStep_replaced (rooted : Bool) {segs segs' out out' : List Text}
    (hsegs : List.Forall₂ (Replaced plain mark) segs segs')
    (hout : List.Forall₂ (Replaced plain mark) out out') :
    List.Forall₂ (Replaced plain mark) (segs.foldl (cleanStep rooted) out)
      (segs'.foldl (cleanStep rooted) out') := by
  induction hsegs generalizing out out' with
  | nil => exact hout
  | cons hseg _ ih => exact ih (cleanStep_replaced hmarks hdot _ hout hseg)

include hslash

/-- Cleaning does not depend on what the replaced blocks hold. -/
theorem clean_replaced {p q : Text} (h : Replaced plain mark p q) :
    Replaced plain mark (clean p) (clean q) := by
  have hrooted : decide (p.head? = some (ch '/')) = decide (q.head? = some (ch '/')) :=
    decide_eq_decide.mpr (h.head?_iff hmarks hslash)
  have hout := foldl_cleanStep_replaced hmarks hdot (decide (q.head? = some (ch '/')))
    (h.splitOn hmarks hslash) .nil
  have hjoin := Replaced.intercalate (List.forall₂_reverse_iff.mpr hout) [ch '/']
  have hnil := length_eq_zero_iff.symm.trans
    ((Eq.congr_left hout.length_eq).trans length_eq_zero_iff)
  unfold clean
  simp only [hrooted, hnil]
  split
  · exact hjoin.keep _
  · split
    · exact Replaced.append_left [ch '.'] .nil
    · exact hjoin

end Clean

end RanHoneypot.GoText
