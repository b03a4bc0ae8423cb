import RanHoneypot.Data.JsJson
import RanHoneypot.Data.Utf8Laws

/-!
# Encoding texts as bytes

`TextEncoder` and the strict `TextDecoder`. The encoder writes a surrogate without a partner as U+FFFD,
so that only texts in which surrogates come in pairs are read back. The decoder drops a byte order mark
in front. A JSON text that was written for texts, arrays and objects has neither.
-/

namespace RanHoneypot.Js

open Utf8 List

/-- `new TextEncoder().encode`. -/
def encodeText (s : JsText) : List UInt8 := (codePoints s).flatMap encodeRune

def byteOrderMark : List UInt8 := [0xEF, 0xBB, 0xBF]

/-- `new TextDecoder('utf-8', fatal)`, which throws on malformed bytes. -/
def decodeText (bytes : List UInt8) : Option JsText :=
  let body := if byteOrderMark.isPrefixOf bytes then bytes.drop 3 else bytes
  if (runes body).contains (runeError, 1) then none
  else some ((runes body).flatMap fun rune ↦ utf16 rune.1)

/-- A text in which surrogates come in pairs. -/
inductive Paired : JsText → Prop
  | nil : Paired []
  | single {u : UInt16} {s : JsText} (hu : isSurrogate u = false) (hs : Paired s) : Paired (u :: s)
  | pair {u v : UInt16} {s : JsText} (hu : isHighSurrogate u = true) (hv : isLowSurrogate v = true)
      (hs : Paired s) : Paired (u :: v :: s)

namespace Paired

theorem append {s t : JsText} (hs : Paired s) (ht : Paired t) : Paired (s ++ t) := by
  induction hs with
  | nil => exact ht
  | single hu _ ih => exact ih.single hu
  | pair hu hv _ ih => exact ih.pair hu hv

theorem codePoints_single {u : UInt16} (s : JsText) (hu : isSurrogate u = false) :
    codePoints (u :: s) = u.toNat :: codePoints s := by
  cases s with
  | nil => rfl
  | cons v s =>
    have hhigh : isHighSurrogate u = false := by
      simp only [isSurrogate, isHighSurrogate, Bool.and_eq_false_iff, decide_eq_false_iff_not] at hu ⊢
      omega
    rw [codePoints, hhigh, Bool.false_and, if_neg Bool.false_ne_true]

theorem isScalar_codePoints {s : JsText} (hs : Paired s) : ∀ r ∈ codePoints s, IsScalar r := by
  induction hs with
  | nil => simp [codePoints]
  | @single u s hu _ ih =>
    rw [codePoints_single s hu]
    intro r hr
    rcases mem_cons.mp hr with rfl | hr
    · have hlt := u.toNat_lt
      simp only [isSurrogate, Bool.and_eq_false_iff, decide_eq_false_iff_not] at hu
      unfold IsScalar
      omega
    · exact ih r hr
  | @pair u v s hu hv _ ih =>
    rw [codePoints, hu, hv, Bool.and_true]
    intro r hr
    rcases mem_cons.mp hr with hr | hr
    · simp only [isHighSurrogate, isLowSurrogate, Bool.and_eq_true, decide_eq_true_eq] at hu hv
      unfold IsScalar
      omega
    · exact ih r hr

theorem utf16_codePoints {s : JsText} (hs : Paired s) : (codePoints s).flatMap utf16 = s := by
  induction hs with
  | nil => rfl
  | @single u s hu _ ih =>
    have hlt : u.toNat < 0x10000 := u.toNat_lt
    rw [codePoints_single s hu, flatMap_cons, ih, utf16, if_pos hlt, UInt16.ofNat_toNat]
    rfl
  | @pair u v s hu hv _ ih =>
    rw [codePoints, hu, hv, Bool.and_true, if_pos rfl, flatMap_cons, ih, utf16,
      if_neg (by omega)]
    simp only [isHighSurrogate, isLowSurrogate, Bool.and_eq_true, decide_eq_true_eq] at hu hv
    have hhigh : 0xD800 + (0x10000 + (u.toNat - 0xD800) * 0x400 + (v.toNat - 0xDC00) - 0x10000) / 0x400 =
        u.toNat := by omega
    have hlow : 0xDC00 + (0x10000 + (u.toNat - 0xD800) * 0x400 + (v.toNat - 0xDC00) - 0x10000) % 0x400 =
        v.toNat := by omega
    rw [hhigh, hlow, UInt16.ofNat_toNat, UInt16.ofNat_toNat]
    rfl

theorem encodeRune_ne_malformed (r : ℕ) :
    (r, (encodeRune r).length) ≠ (runeError, 1) := by
  intro heq
  rw [Prod.mk.injEq] at heq
  have hlength : (encodeRune runeError).length = 3 := by decide
  rw [heq.1] at heq
  exact absurd heq.2 (by decide)

/-- A text that starts in an ASCII unit is decoded from its encoding. -/
theorem decodeText_encodeText {u : UInt16} {s : JsText} (hs : Paired (u :: s)) (hu : u.toNat < 0x80) :
    decodeText (encodeText (u :: s)) = some (u :: s) := by
  have hscalar := hs.isScalar_codePoints
  have hsurrogate : isSurrogate u = false := by
    simp only [isSurrogate, Bool.and_eq_false_iff, decide_eq_false_iff_not]
    omega
  have hmark : byteOrderMark.isPrefixOf (encodeText (u :: s)) = false := by
    have hfirst : encodeRune u.toNat = [UInt8.ofNat u.toNat] := by
      rw [encodeRune_of_isScalar (isScalar_of_lt hu), if_pos hu]
    have hne : (0xEF : UInt8) ≠ UInt8.ofNat u.toNat := fun heq ↦ by
      have hnat := congrArg UInt8.toNat heq
      rw [toNat_ofNat (by omega)] at hnat
      have hbyte : (0xEF : UInt8).toNat = 239 := rfl
      omega
    rw [encodeText, codePoints_single s hsurrogate, flatMap_cons, hfirst, singleton_append,
      byteOrderMark, List.isPrefixOf, beq_false_of_ne hne, Bool.false_and]
  have hgood : ((codePoints (u :: s)).map fun r ↦ (r, (encodeRune r).length)).contains
      (runeError, 1) = false := by
    refine Bool.eq_false_iff.mpr fun hmem ↦ ?_
    rcases mem_map.mp (contains_iff_mem.mp hmem) with ⟨r, -, heq⟩
    exact encodeRune_ne_malformed r heq
  simp only [decodeText, hmark, if_neg Bool.false_ne_true]
  rw [encodeText, runes_flatMap_encodeRune hscalar, hgood, if_neg Bool.false_ne_true, flatMap_map,
    hs.utf16_codePoints]

end Paired

/-! ## What JSON texts consist of -/

theorem isSurrogate_hexDigit : ∀ n < 16, isSurrogate (hexDigit n) = false := by
  decide

theorem paired_escapeUnit (u : UInt16) : Paired (escapeUnit u) := by
  unfold escapeUnit
  split
  · next letter hletter =>
    have hall : shortEscapes.all (fun e ↦ !isSurrogate e.2) = true := by decide
    rcases List.lookup_eq_some_iff.mp hletter with ⟨front, back, hsplit, -⟩
    have hmem : (u, letter) ∈ shortEscapes := by
      rw [hsplit]
      simp
    have hfree : isSurrogate letter = false := by simpa using all_eq_true.mp hall _ hmem
    exact .single (by decide) (.single hfree .nil)
  · split
    · have hlt : u.toNat < 65536 := u.toNat_lt
      exact .single (by decide) (.single (by decide) (.single (isSurrogate_hexDigit _ (by omega))
        (.single (isSurrogate_hexDigit _ (by omega)) (.single (isSurrogate_hexDigit _ (by omega))
          (.single (isSurrogate_hexDigit _ (by omega)) .nil)))))
    · next hplain =>
      refine .single ?_ .nil
      simp only [Bool.or_eq_true, not_or, Bool.not_eq_true] at hplain
      exact hplain.2

theorem paired_escapeText (s : JsText) : Paired (escapeText s) := by
  induction s using escapeText.induct with
  | case1 => exact .nil
  | case2 u => exact paired_escapeUnit u
  | case3 u v rest hpair ih =>
    rw [escapeText, if_pos hpair]
    rw [Bool.and_eq_true] at hpair
    exact .pair hpair.1 hpair.2 ih
  | case4 u v rest hpair ih =>
    rw [escapeText, if_neg hpair]
    exact (paired_escapeUnit u).append ih

theorem paired_quoteText (s : JsText) : Paired (quoteText s) :=
  .single (by decide) ((paired_escapeText s).append (.single (by decide) .nil))

theorem paired_join {sep : UInt16} {parts : List JsText} (hsep : isSurrogate sep = false)
    (hparts : ∀ part ∈ parts, Paired part) : Paired (join sep parts) := by
  induction parts with
  | nil => exact .nil
  | cons part parts ih =>
    have hpart := hparts part mem_cons_self
    cases parts with
    | nil => simpa [join] using hpart
    | cons next parts =>
      exact hpart.append (.single hsep (ih fun other hother ↦ hparts other (mem_cons_of_mem _ hother)))

theorem mem_stringifyItems {items : List Json} {part : JsText} (hpart : part ∈ stringifyItems items) :
    ∃ d ∈ items, part = stringify d := by
  induction items with
  | nil => simp [stringifyItems] at hpart
  | cons d items ih =>
    rw [stringifyItems, mem_cons] at hpart
    rcases hpart with hpart | hpart
    · exact ⟨d, mem_cons_self, hpart⟩
    · rcases ih hpart with ⟨other, hother, heq⟩
      exact ⟨other, mem_cons_of_mem d hother, heq⟩

theorem mem_stringifyEntries {entries : List (JsText × Json)} {part : JsText}
    (hpart : part ∈ stringifyEntries entries) :
    ∃ e ∈ entries, part = quoteText e.1 ++ unit ':' :: stringify e.2 := by
  induction entries with
  | nil => simp [stringifyEntries] at hpart
  | cons e entries ih =>
    rw [stringifyEntries, mem_cons] at hpart
    rcases hpart with hpart | hpart
    · exact ⟨e, mem_cons_self, hpart⟩
    · rcases ih hpart with ⟨other, hother, heq⟩
      exact ⟨other, mem_cons_of_mem e hother, heq⟩

theorem Json.Textual.paired {d : Json} (h : d.Textual) : Paired (stringify d) := by
  induction h with
  | str s =>
    exact paired_quoteText s
  | arr _ ih =>
    refine .single (by decide) ((paired_join (by decide) fun part hpart ↦ ?_).append
      (.single (by decide) .nil))
    rcases mem_stringifyItems hpart with ⟨d, hd, rfl⟩
    exact ih d hd
  | obj _ _ ih =>
    refine .single (by decide) ((paired_join (by decide) fun part hpart ↦ ?_).append
      (.single (by decide) .nil))
    rcases mem_stringifyEntries hpart with ⟨e, he, rfl⟩
    exact (paired_quoteText _).append (.single (by decide) (ih e he))

/-- The bytes of a JSON text are decoded to it. -/
theorem Json.Textual.decodeText_encodeText {d : Json} (h : d.Textual) :
    decodeText (encodeText (stringify d)) = some (stringify d) := by
  have hpaired := h.paired
  rcases h.opens with ⟨u, rest, hfirst, hu⟩
  rw [hfirst] at hpaired ⊢
  refine hpaired.decodeText_encodeText ?_
  rcases hu with rfl | rfl | rfl <;> decide

theorem Json.Textual.encodeText_ne_nil {d : Json} (h : d.Textual) : encodeText (stringify d) ≠ [] := by
  intro hnil
  have hdecode := h.decodeText_encodeText
  rcases h.opens with ⟨u, rest, hfirst, -⟩
  rw [hnil, hfirst] at hdecode
  exact absurd (Option.some.inj hdecode) (by simp [runes_nil])

end RanHoneypot.Js
