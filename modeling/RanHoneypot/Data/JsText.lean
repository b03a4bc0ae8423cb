import Mathlib.Data.List.DropRight
import Mathlib.Data.List.Sort

/-!
# Texts of JavaScript

A text is a list of 16 bit code units. The module has the operations on texts and arrays of texts that
the standard library of the language offers: trimming, splitting, replacing, the order of texts, stable
sorting and the removal of repeated elements. Case conversion depends on tables of Unicode; it is a
parameter that is fixed on ASCII.
-/

namespace RanHoneypot.Js

open List

variable (u : UInt16) (s : JsText)

abbrev JsText := List UInt16

/-- The units of a code point. -/
def utf16 (c : ℕ) : JsText :=
  if c < 0x10000 then [UInt16.ofNat c]
  else [UInt16.ofNat (0xD800 + (c - 0x10000) / 0x400), UInt16.ofNat (0xDC00 + (c - 0x10000) % 0x400)]

def js (text : String) : JsText := text.toList.flatMap fun c ↦ utf16 c.toNat

def unit (c : Char) : UInt16 := UInt16.ofNat c.toNat

def isHighSurrogate : Bool := 0xD800 ≤ u.toNat && u.toNat ≤ 0xDBFF

def isLowSurrogate : Bool := 0xDC00 ≤ u.toNat && u.toNat ≤ 0xDFFF

/-- The code points that an iteration visits; a surrogate without its partner is visited as it is. -/
def codePoints : JsText → List ℕ
  | [] => []
  | [u] => [u.toNat]
  | u :: v :: rest =>
    if isHighSurrogate u && isLowSurrogate v then
      (0x10000 + (u.toNat - 0xD800) * 0x400 + (v.toNat - 0xDC00)) :: codePoints rest
    else u.toNat :: codePoints (v :: rest)

/-! ## Trimming -/

/-- White space and line terminators, as `trim` and `\s` know them. -/
def isSpace : Bool :=
  (9 ≤ u.toNat && u.toNat ≤ 13) || (0x2000 ≤ u.toNat && u.toNat ≤ 0x200A) ||
    [0x20, 0xA0, 0x1680, 0x2028, 0x2029, 0x202F, 0x205F, 0x3000, 0xFEFF].contains u.toNat

def trim : JsText := (s.dropWhile isSpace).rdropWhile isSpace

/-- A text that neither starts nor ends in white space. -/
structure Trimmed (s : JsText) : Prop where
  first : ∀ u ∈ s.head?, isSpace u = false
  last : ∀ u ∈ s.getLast?, isSpace u = false

theorem Trimmed.of_units {s : JsText} (hs : ∀ u ∈ s, isSpace u = false) : Trimmed s where
  first u hu := hs u (mem_of_mem_head? hu)
  last u hu := hs u (mem_of_mem_getLast? hu)

theorem Trimmed.trim_eq {s : JsText} (h : Trimmed s) : trim s = s := by
  have hleft : s.dropWhile isSpace = s := by
    cases s with
    | nil => rfl
    | cons u rest => exact dropWhile_cons_of_neg (by simp [h.first u rfl])
  rw [trim, hleft]
  refine rdropWhile_eq_self_iff.mpr fun hne ↦ ?_
  simp [h.last _ (getLast?_eq_getLast_of_ne_nil hne)]

theorem trimmed_trim : Trimmed (trim s) where
  first u hu := by
    have hfront : trim s <+: s.dropWhile isSpace := List.rdropWhile_prefix isSpace _
    have hhead : u ∈ (s.dropWhile isSpace).head? := by
      rcases hfront with ⟨rest, hrest⟩
      rw [← hrest, head?_append, Option.mem_def.mp hu]
      rfl
    have hnot := head?_dropWhile_not isSpace s
    rw [Option.mem_def.mp hhead] at hnot
    simpa using hnot
  last u hu := by
    have hne : trim s ≠ [] := fun hnil ↦ by simp [hnil] at hu
    have hlast := rdropWhile_last_not isSpace (s.dropWhile _) hne
    have hu' : (trim s).getLast hne = u :=
      Option.some.inj ((getLast?_eq_getLast_of_ne_nil hne).symm.trans hu)
    simpa [← hu', trim] using hlast

theorem trim_trim : trim (trim s) = trim s := (trimmed_trim s).trim_eq

theorem mem_of_mem_trim {s : JsText} {u : UInt16} (hu : u ∈ trim s) : u ∈ s :=
  (dropWhile_sublist isSpace).mem ((List.rdropWhile_prefix isSpace _).mem hu)

/-- Trimming keeps a first unit that is no white space. -/
theorem head?_trim_cons {u : UInt16} (rest : JsText) (hu : isSpace u = false) :
    (trim (u :: rest)).head? = some u := by
  have hleft : (u :: rest).dropWhile isSpace = u :: rest :=
    dropWhile_cons_of_neg (by simp [hu])
  rw [trim, hleft]
  cases hright : (u :: rest).rdropWhile isSpace with
  | nil =>
    have hall := rdropWhile_eq_nil_iff.mp hright u mem_cons_self
    rw [hu] at hall
    cases hall
  | cons v tail =>
    have hfront := List.rdropWhile_prefix isSpace (l := u :: rest)
    rw [hright, cons_prefix_cons] at hfront
    rw [head?_cons, hfront.1]

/-! ## Replacing runs -/

/-- Every run of units of a class is replaced by one unit; the flag tells whether a run goes on. -/
def replaceRunsFrom (cls : UInt16 → Bool) (r : UInt16) : Bool → JsText → JsText
  | _, [] => []
  | inRun, u :: rest =>
    if cls u then
      if inRun then replaceRunsFrom cls r true rest else r :: replaceRunsFrom cls r true rest
    else u :: replaceRunsFrom cls r false rest

def replaceRuns (cls : UInt16 → Bool) (r : UInt16) (s : JsText) : JsText :=
  replaceRunsFrom cls r false s

section ReplaceRuns

variable {cls : UInt16 → Bool} {r : UInt16}

theorem replaceRunsFrom_free (hr : cls r = false) (inRun : Bool) (s : JsText) :
    ∀ u ∈ replaceRunsFrom cls r inRun s, cls u = false := by
  induction s generalizing inRun with
  | nil => simp [replaceRunsFrom]
  | cons v rest ih =>
    rw [replaceRunsFrom]
    by_cases hv : cls v = true
    · cases inRun with
      | true => simpa [hv] using ih true
      | false => simpa [hv, hr] using ih true
    · simpa [hv] using ih false

/-- The result has no unit of the class. -/
theorem replaceRuns_free (hr : cls r = false) (s : JsText) :
    ∀ u ∈ replaceRuns cls r s, cls u = false :=
  replaceRunsFrom_free hr false s

theorem replaceRunsFrom_of_free (inRun : Bool) {s : JsText} (hs : ∀ u ∈ s, cls u = false) :
    replaceRunsFrom cls r inRun s = s := by
  induction s generalizing inRun with
  | nil => rfl
  | cons v rest ih =>
    rw [replaceRunsFrom, hs v mem_cons_self, if_neg Bool.false_ne_true,
      ih false fun u hu ↦ hs u (mem_cons_of_mem v hu)]

theorem replaceRuns_of_free {s : JsText} (hs : ∀ u ∈ s, cls u = false) : replaceRuns cls r s = s :=
  replaceRunsFrom_of_free false hs

end ReplaceRuns

/-! ## Splitting and joining -/

/-- The pieces between runs of separators; the flag tells whether a run goes on. -/
def splitRunsFrom (sep : UInt16 → Bool) : Bool → JsText → List JsText
  | _, [] => [[]]
  | inRun, u :: rest =>
    if sep u then
      if inRun then splitRunsFrom sep true rest else [] :: splitRunsFrom sep true rest
    else (splitRunsFrom sep false rest).modifyHead (u :: ·)

def splitRuns (sep : UInt16 → Bool) (s : JsText) : List JsText := splitRunsFrom sep false s

/-- The lines of a text, which end in LF or in CR and LF. -/
def splitLines : JsText → List JsText
  | [] => [[]]
  | u :: rest =>
    if u = unit '\n' then [] :: splitLines rest
    else if u = unit '\r' ∧ rest.head? = some (unit '\n') then splitLines rest
    else (splitLines rest).modifyHead (u :: ·)

def join (sep : UInt16) (parts : List JsText) : JsText := [sep].intercalate parts

theorem join_cons_cons (sep : UInt16) (part next : JsText) (parts : List JsText) :
    join sep (part :: next :: parts) = part ++ sep :: join sep (next :: parts) := by
  rw [join, intercalate_cons_cons, ← join, append_assoc, singleton_append]

theorem mem_join {sep u : UInt16} {parts : List JsText} (hu : u ∈ join sep parts) :
    u = sep ∨ ∃ part ∈ parts, u ∈ part := by
  induction parts with
  | nil => simp [join] at hu
  | cons part parts ih =>
    cases parts with
    | nil => exact .inr ⟨part, mem_cons_self, by simpa [join] using hu⟩
    | cons next parts =>
      rw [join_cons_cons, mem_append, mem_cons] at hu
      rcases hu with hpart | hsep | hrest
      · exact .inr ⟨part, mem_cons_self, hpart⟩
      · exact .inl hsep
      · rcases ih hrest with hsep | ⟨other, hother, hmem⟩
        · exact .inl hsep
        · exact .inr ⟨other, mem_cons_of_mem _ hother, hmem⟩

section SplitRuns

variable {sep : UInt16 → Bool}

theorem splitRunsFrom_front {inRun : Bool} {part : JsText} (rest : JsText)
    (hpart : ∀ u ∈ part, sep u = false) (hne : part ≠ []) :
    splitRunsFrom sep inRun (part ++ rest) =
      (splitRunsFrom sep false rest).modifyHead (part ++ ·) := by
  induction part generalizing inRun with
  | nil => exact absurd rfl hne
  | cons u part ih =>
    have hu : sep u = false := hpart u mem_cons_self
    rw [cons_append, splitRunsFrom, if_neg (by simp [hu])]
    by_cases hnil : part = []
    · rw [hnil]
      rfl
    · rw [ih (fun v hv ↦ hpart v (mem_cons_of_mem u hv)) hnil, modifyHead_modifyHead]
      rfl

/-- Splitting undoes joining by a separator, for parts that are not empty and have no separator. -/
theorem splitRunsFrom_join {inRun : Bool} {comma : UInt16} (hcomma : sep comma = true)
    {parts : List JsText} (hparts : ∀ part ∈ parts, part ≠ [] ∧ ∀ u ∈ part, sep u = false)
    (hne : parts ≠ []) : splitRunsFrom sep inRun (join comma parts) = parts := by
  induction parts generalizing inRun with
  | nil => exact absurd rfl hne
  | cons part parts ih =>
    have hpart := hparts part mem_cons_self
    cases parts with
    | nil =>
      have hjoin : join comma [part] = part ++ [] := by simp [join]
      rw [hjoin, splitRunsFrom_front [] hpart.2 hpart.1]
      simp [splitRunsFrom]
    | cons next parts =>
      rw [join_cons_cons, splitRunsFrom_front _ hpart.2 hpart.1, splitRunsFrom, if_pos hcomma,
        ih (fun other hother ↦ hparts other (mem_cons_of_mem _ hother)) (by simp)]
      simp

end SplitRuns

theorem splitLines_front {line : JsText} (rest : JsText)
    (hline : ∀ u ∈ line, u ≠ unit '\n' ∧ u ≠ unit '\r') :
    splitLines (line ++ unit '\n' :: rest) = line :: splitLines rest := by
  induction line with
  | nil => rw [nil_append, splitLines, if_pos rfl]
  | cons u line ih =>
    have hu := hline u mem_cons_self
    rw [cons_append, splitLines, if_neg hu.1, if_neg (fun h ↦ hu.2 h.1),
      ih fun v hv ↦ hline v (mem_cons_of_mem u hv)]
    rfl

/-- Lines without line breaks are read back, followed by the empty text behind the last line break. -/
theorem splitLines_lines {lines : List JsText}
    (hlines : ∀ line ∈ lines, ∀ u ∈ line, u ≠ unit '\n' ∧ u ≠ unit '\r') :
    splitLines (lines.flatMap fun line ↦ line ++ [unit '\n']) = lines ++ [[]] := by
  induction lines with
  | nil => rfl
  | cons line lines ih =>
    rw [flatMap_cons, append_assoc, singleton_append,
      splitLines_front _ (hlines line mem_cons_self),
      ih fun other hother ↦ hlines other (mem_cons_of_mem _ hother)]
    rfl

/-- A line break behind every line is a line break between them and one at the end. -/
theorem flatMap_lines {lines : List JsText} (hne : lines ≠ []) :
    (lines.flatMap fun line ↦ line ++ [unit '\n']) = join (unit '\n') lines ++ [unit '\n'] := by
  induction lines with
  | nil => exact absurd rfl hne
  | cons line lines ih =>
    cases lines with
    | nil => simp [join]
    | cons next lines =>
      rw [flatMap_cons, ih (by simp), join_cons_cons]
      simp

/-! ## Order, sorting and repetitions -/

/-- The order of texts by their units. -/
def textLt : JsText → JsText → Bool
  | _, [] => false
  | [], _ :: _ => true
  | u :: s, v :: t => decide (u.toNat < v.toNat) || (u == v && textLt s t)

theorem textLt_cons {u v : UInt16} {s t : JsText} :
    textLt (u :: s) (v :: t) = true ↔ u.toNat < v.toNat ∨ (u = v ∧ textLt s t = true) := by
  simp [textLt]

theorem textLt_irrefl : textLt s s = false := by
  induction s with
  | nil => rfl
  | cons u s ih => simp [textLt, ih]

theorem textLt_trans {s t w : JsText} (hst : textLt s t = true) (htw : textLt t w = true) :
    textLt s w = true := by
  induction s generalizing t w with
  | nil =>
    cases w with
    | nil => simp [textLt] at htw
    | cons => rfl
  | cons u s ih =>
    cases t with
    | nil => simp [textLt] at hst
    | cons v t =>
      cases w with
      | nil => simp [textLt] at htw
      | cons x w =>
        rw [textLt_cons] at hst htw ⊢
        rcases hst with hst | ⟨rfl, hst⟩
        · rcases htw with htw | ⟨rfl, -⟩
          · exact .inl (hst.trans htw)
          · exact .inl hst
        · rcases htw with htw | ⟨rfl, htw⟩
          · exact .inl htw
          · exact .inr ⟨rfl, ih hst htw⟩

theorem textLt_total {s t : JsText} (hne : s ≠ t) : textLt s t = true ∨ textLt t s = true := by
  induction s generalizing t with
  | nil =>
    cases t with
    | nil => exact absurd rfl hne
    | cons => exact .inl rfl
  | cons u s ih =>
    cases t with
    | nil => exact .inr rfl
    | cons v t =>
      rw [textLt_cons, textLt_cons]
      rcases lt_trichotomy u.toNat v.toNat with hlt | heq | hgt
      · exact .inl (.inl hlt)
      · have huv : u = v := UInt16.toNat_inj.mp heq
        rcases ih (t := t) (fun h ↦ hne (by rw [huv, h])) with h | h
        · exact .inl (.inr ⟨huv, h⟩)
        · exact .inr (.inr ⟨huv.symm, h⟩)
      · exact .inr (.inl hgt)

/-- The comparison of `sort` without an argument. -/
def compareText (t : JsText) : ℤ := if textLt s t then -1 else if textLt t s then 1 else 0

section Sorting

variable {α : Type}

/-- A stable sort. A comparison that is not positive keeps the two elements in their order. -/
def sortBy (compare : α → α → ℤ) (l : List α) : List α :=
  l.insertionSort fun a b ↦ compare a b ≤ 0

theorem sortBy_perm (compare : α → α → ℤ) (l : List α) : (sortBy compare l).Perm l :=
  perm_insertionSort _ l

/-- A comparison that orders the elements of a set strictly. -/
structure Orders (compare : α → α → ℤ) (mem : α → Prop) : Prop where
  trans : ∀ a b c, compare a b ≤ 0 → compare b c ≤ 0 → compare a c ≤ 0
  total : ∀ a b, mem a → mem b → a ≠ b → compare a b ≤ 0 ∨ compare b a ≤ 0
  antisymm : ∀ a b, mem a → mem b → compare a b ≤ 0 → compare b a ≤ 0 → a = b

variable {compare : α → α → ℤ} {mem : α → Prop}

theorem Orders.pairwise_orderedInsert (h : Orders compare mem) {a : α} {l : List α} (ha : mem a)
    (hl : ∀ b ∈ l, mem b) (hnotMem : a ∉ l) (hsorted : l.Pairwise fun a b ↦ compare a b ≤ 0) :
    (l.orderedInsert (fun a b ↦ compare a b ≤ 0) a).Pairwise fun a b ↦ compare a b ≤ 0 := by
  induction l with
  | nil => simp
  | cons b l ih =>
    rw [pairwise_cons] at hsorted
    rw [orderedInsert_cons]
    split
    · next hab =>
      rw [pairwise_cons, pairwise_cons]
      refine ⟨fun c hc ↦ ?_, hsorted⟩
      rcases mem_cons.mp hc with hc | hc
      · rw [hc]
        exact hab
      · exact h.trans a b c hab (hsorted.1 c hc)
    · next hab =>
      have hne : a ≠ b := fun heq ↦ hnotMem (heq ▸ mem_cons_self)
      have hba : compare b a ≤ 0 :=
        (h.total a b ha (hl b mem_cons_self) hne).resolve_left hab
      rw [pairwise_cons]
      refine ⟨fun c hc ↦ ?_, ih (fun c hc ↦ hl c (mem_cons_of_mem b hc))
        (fun hmem ↦ hnotMem (mem_cons_of_mem b hmem)) hsorted.2⟩
      rcases (mem_orderedInsert _).mp hc with hc | hc
      · rw [hc]
        exact hba
      · exact hsorted.1 c hc

section

variable {l : List α} (h : Orders compare mem) (hl : ∀ a ∈ l, mem a) (hnodup : l.Nodup)

include h hl hnodup

theorem Orders.pairwise_sortBy : (sortBy compare l).Pairwise fun a b ↦ compare a b ≤ 0 := by
  induction l with
  | nil => exact List.Pairwise.nil
  | cons a l ih =>
    rw [nodup_cons] at hnodup
    have hperm := sortBy_perm compare l
    have hl' : ∀ b ∈ l, mem b := fun b hb ↦ hl b (mem_cons_of_mem a hb)
    exact h.pairwise_orderedInsert (hl a mem_cons_self)
      (fun b hb ↦ hl' b (hperm.mem_iff.mp hb)) (fun hmem ↦ hnodup.1 (hperm.mem_iff.mp hmem))
      (ih hl' hnodup.2)

/-- The sorted list depends on the elements only. -/
theorem Orders.sortBy_congr {l' : List α} (hperm : l.Perm l') :
    sortBy compare l = sortBy compare l' := by
  have hl' : ∀ a ∈ l', mem a := fun a ha ↦ hl a (hperm.mem_iff.mpr ha)
  have hsorted : (sortBy _ l).Perm (sortBy _ l') :=
    (sortBy_perm compare l).trans (hperm.trans (sortBy_perm compare l').symm)
  refine hsorted.eq_of_pairwise (fun a b ha hb hab hba ↦ ?_) (h.pairwise_sortBy hl hnodup)
    (h.pairwise_sortBy hl' (hperm.nodup_iff.mp hnodup))
  exact h.antisymm a b (hl a ((sortBy_perm _ l).mem_iff.mp ha))
    (hl' b ((sortBy_perm _ l').mem_iff.mp hb)) hab hba

end

end Sorting

/-- The elements of a set made from an array, in the order of their first occurrence. -/
def dedupe : List JsText → List JsText
  | [] => []
  | s :: rest => s :: (dedupe rest).filter (· != s)

theorem dedupe_of_nodup {l : List JsText} (hl : l.Nodup) : dedupe l = l := by
  induction l with
  | nil => rfl
  | cons s rest ih =>
    rw [nodup_cons] at hl
    rw [dedupe, ih hl.2, filter_eq_self.mpr fun t ht ↦ ?_]
    exact bne_iff_ne.mpr fun heq ↦ hl.1 (heq ▸ ht)

/-! ## Case conversion -/

def upperUnit : UInt16 := if 97 ≤ u.toNat ∧ u.toNat ≤ 122 then u - 32 else u

def lowerUnit : UInt16 := if 65 ≤ u.toNat ∧ u.toNat ≤ 90 then u + 32 else u

/-- The conversions `toUpperCase` and `toLowerCase`, which change single letters of an ASCII text. -/
structure CaseMapping where
  upper : JsText → JsText
  lower : JsText → JsText
  upper_ascii : ∀ s, (∀ u ∈ s, u.toNat < 128) → upper s = s.map upperUnit
  lower_ascii : ∀ s, (∀ u ∈ s, u.toNat < 128) → lower s = s.map lowerUnit

def CaseMapping.ascii : CaseMapping where
  upper s := s.map upperUnit
  lower s := s.map lowerUnit
  upper_ascii _ _ := rfl
  lower_ascii _ _ := rfl

end RanHoneypot.Js
