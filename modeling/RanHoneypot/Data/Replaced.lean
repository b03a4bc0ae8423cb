import Mathlib.Data.List.Infix

/-!
# Lists with replaced blocks

Some blocks of a list are replaced by others. A block that is taken out has no *plain* element, and a
block that is put in has no *mark*, where the marks are certain plain elements. A search for a word of
plain elements that succeeds in the first list then also succeeds in the second, and splitting at a
mark gives the same pieces up to replaced blocks.
-/

namespace RanHoneypot

open List

variable {β : Type} {plain mark : β → Prop}

inductive Replaced (plain mark : β → Prop) : List β → List β → Prop
  | nil : Replaced plain mark [] []
  | keep (b : β) {s t : List β} (h : Replaced plain mark s t) : Replaced plain mark (b :: s) (b :: t)
  | block {x y s t : List β} (hx : x ≠ []) (hy : y ≠ []) (hplain : ∀ b ∈ x, ¬ plain b)
      (hmark : ∀ b ∈ y, ¬ mark b) (h : Replaced plain mark s t) :
      Replaced plain mark (x ++ s) (y ++ t)

namespace Replaced

variable {s t u : List β}

theorem append_left (x : List β) (h : Replaced plain mark s t) :
    Replaced plain mark (x ++ s) (x ++ t) := by
  induction x with
  | nil => exact h
  | cons b x ih => exact ih.keep b

section

variable (h : Replaced plain mark s t)

include h

theorem append {s' t' : List β} (h' : Replaced plain mark s' t') :
    Replaced plain mark (s ++ s') (t ++ t') := by
  induction h with
  | nil => exact h'
  | keep b _ ih => exact ih.keep b
  | block hx hy hplain hmark _ ih =>
    rw [append_assoc, append_assoc]
    exact ih.block hx hy hplain hmark

theorem eq_nil_iff : s = [] ↔ t = [] := by
  cases h with
  | nil => exact Iff.rfl
  | keep b h => exact iff_of_false (cons_ne_nil _ _) (cons_ne_nil _ _)
  | block hx hy =>
    exact iff_of_false (append_ne_nil_of_left_ne_nil hx _)
      (append_ne_nil_of_left_ne_nil hy _)

/-! ## Words of plain elements -/

/-- A plain front stays where it is. -/
theorem front {w rest : List β} (hw : ∀ b ∈ w, plain b) (hs : s = w ++ rest) :
    ∃ rest', t = w ++ rest' ∧ Replaced plain mark rest rest' := by
  induction h generalizing w with
  | nil =>
    rcases append_eq_nil_iff.mp hs.symm with ⟨hnil, hrest⟩
    rw [hnil, hrest]
    exact ⟨[], rfl, .nil⟩
  | @keep b s t h ih =>
    cases w with
    | nil =>
      rw [nil_append] at hs
      exact ⟨b :: t, rfl, hs ▸ h.keep b⟩
    | cons c w =>
      rcases List.cons.inj hs with ⟨hb, hs⟩
      rcases ih (fun b hb ↦ hw b (mem_cons_of_mem c hb)) hs with ⟨rest', ht, hrest⟩
      exact ⟨rest', by rw [ht, hb, cons_append], hrest⟩
  | @block x y s t hx hy hplain hmark h ih =>
    cases w with
    | nil =>
      rw [nil_append] at hs
      exact ⟨y ++ t, rfl, hs ▸ h.block hx hy hplain hmark⟩
    | cons c w =>
      cases x with
      | nil => exact absurd rfl hx
      | cons b x =>
        have hb : b = c := (List.cons.inj hs).1
        exact absurd (hb ▸ hw c mem_cons_self) (hplain b mem_cons_self)

theorem eq_of_plain (hs : ∀ b ∈ s, plain b) : t = s := by
  rcases h.front hs (append_nil s).symm with ⟨rest, ht, hrest⟩
  rw [ht, hrest.eq_nil_iff.mp rfl, append_nil]

theorem startsWith {w : List β} (hw : ∀ b ∈ w, plain b) (hfront : w <+: s) : w <+: t := by
  rcases hfront with ⟨rest, hs⟩
  rcases h.front hw hs.symm with ⟨rest', ht, _⟩
  exact ⟨rest', ht.symm⟩

/-- A plain word is found again. -/
theorem contains {w : List β} (hw : ∀ b ∈ w, plain b) (hfound : w <:+: s) : w <:+: t := by
  induction h with
  | nil => exact hfound
  | @keep b s t h ih =>
    rcases infix_cons_iff.mp hfound with hfront | hfound
    · exact ((h.keep b).startsWith hw hfront).isInfix
    · exact infix_cons_iff.mpr (.inr (ih hfound))
  | @block x y s t hx hy hplain hmark h ih =>
    have hbehind : w <:+: s := by
      clear hx
      induction x with
      | nil => exact hfound
      | cons b x ihx =>
        rcases infix_cons_iff.mp hfound with hfront | hfound
        · cases w with
          | nil => exact List.nil_infix
          | cons c w =>
            have hb : c = b := (cons_prefix_cons.mp hfront).1
            exact absurd (hb ▸ hw c mem_cons_self) (hplain b mem_cons_self)
        · exact ihx (fun b hb ↦ hplain b (mem_cons_of_mem _ hb)) hfound
    exact (ih hbehind).trans (suffix_append y t).isInfix

end

/-! ## Marks -/

section Marks

variable (hmarks : ∀ b, mark b → plain b)
include hmarks

theorem mem_iff (h : Replaced plain mark s t) {b : β} (hb : mark b) : b ∈ s ↔ b ∈ t := by
  induction h with
  | nil => exact Iff.rfl
  | keep c _ ih => rw [mem_cons, mem_cons, ih]
  | @block x y s t _ _ hplain hmark _ ih =>
    have hx : b ∉ x := fun hmem ↦ hplain b hmem (hmarks b hb)
    have hy : b ∉ y := fun hmem ↦ hmark b hmem hb
    rw [mem_append, ih]
    simp [hx, hy]

/-- Words of marks are not touched and do not arise. -/
theorem eq_marks_iff (h : Replaced plain mark s t) {w : List β} (hw : ∀ b ∈ w, mark b) :
    s = w ↔ t = w := by
  constructor
  · intro hs
    rw [← hs]
    exact h.eq_of_plain fun b hb ↦ hmarks b (hw b (hs ▸ hb))
  · intro ht
    induction h generalizing w with
    | nil => exact ht
    | keep b _ ih =>
      cases w with
      | nil => exact absurd ht (cons_ne_nil _ _)
      | cons c w =>
        rcases List.cons.inj ht with ⟨hb, ht⟩
        rw [hb, ih (fun b hb ↦ hw b (mem_cons_of_mem c hb)) ht]
    | @block x y s t _ hy _ hmark _ _ =>
      cases y with
      | nil => exact absurd rfl hy
      | cons c y =>
        have hc : mark c := hw c (ht ▸ mem_cons_self)
        exact absurd hc (hmark c mem_cons_self)

theorem head?_iff (h : Replaced plain mark s t) {b : β} (hb : mark b) :
    s.head? = some b ↔ t.head? = some b := by
  cases h with
  | nil | keep => exact Iff.rfl
  | @block x y s t hx hy hplain hmark _ =>
    cases x with
    | nil => exact absurd rfl hx
    | cons c x =>
      cases y with
      | nil => exact absurd rfl hy
      | cons d y =>
        have hc : c ≠ b := fun heq ↦ hplain c mem_cons_self (heq ▸ hmarks b hb)
        have hd : d ≠ b := fun heq ↦ hmark d mem_cons_self (heq ▸ hb)
        simp [hc, hd]

variable [DecidableEq β]

omit hmarks in
theorem splitOn_append {x : List β} {b : β} (hx : b ∉ x) (s : List β) :
    (x ++ s).splitOn b = (s.splitOn b).modifyHead (x ++ ·) := by
  induction x with
  | nil => exact (congrFun modifyHead_id _).symm
  | cons c x ih =>
    have hc : c ≠ b := fun heq ↦ hx (heq ▸ mem_cons_self)
    have hrest := ih fun hmem ↦ hx (mem_cons_of_mem c hmem)
    rw [List.splitOn] at hrest ⊢
    rw [cons_append, splitOnP_cons_eq_if_modifyHead, if_neg (by simpa using hc), hrest,
      modifyHead_modifyHead]
    rfl

/-- Splitting at a mark gives pieces with replaced blocks. -/
theorem splitOn (h : Replaced plain mark s t) {b : β} (hb : mark b) :
    List.Forall₂ (Replaced plain mark) (s.splitOn b) (t.splitOn b) := by
  have hhead : ∀ {x y : List β} {ss ts : List (List β)}, (∀ {s t}, Replaced plain mark s t →
      Replaced plain mark (x ++ s) (y ++ t)) → List.Forall₂ (Replaced plain mark) ss ts →
      List.Forall₂ (Replaced plain mark) (ss.modifyHead (x ++ ·)) (ts.modifyHead (y ++ ·)) := by
    intro x y ss ts hfront hpieces
    cases hpieces with
    | nil => exact .nil
    | cons hfirst hrest => exact .cons (hfront hfirst) hrest
  induction h with
  | nil => exact .cons .nil .nil
  | @keep c s t h ih =>
    by_cases hc : c = b
    · rw [hc, List.splitOn, List.splitOn, splitOnP_cons_eq_if_modifyHead,
        splitOnP_cons_eq_if_modifyHead, if_pos (by simp), if_pos (by simp)]
      exact .cons .nil ih
    · have hnot : b ∉ [c] := by simpa using fun heq : b = c ↦ hc heq.symm
      rw [← singleton_append, splitOn_append hnot, ← singleton_append (l := t),
        splitOn_append hnot]
      exact hhead (fun h ↦ h.append_left [c]) ih
  | @block x y s t hx hy hplain hmark h ih =>
    have hnotx : b ∉ x := fun hmem ↦ hplain b hmem (hmarks b hb)
    have hnoty : b ∉ y := fun hmem ↦ hmark b hmem hb
    rw [splitOn_append hnotx, splitOn_append hnoty]
    exact hhead (fun h ↦ h.block hx hy hplain hmark) ih

end Marks

theorem intercalate {ss ts : List (List β)} (h : List.Forall₂ (Replaced plain mark) ss ts)
    (sep : List β) : Replaced plain mark (sep.intercalate ss) (sep.intercalate ts) := by
  induction h with
  | nil => exact .nil
  | @cons s t ss ts hfirst hrest ih =>
    cases hrest with
    | nil => simpa [List.intercalate] using hfirst
    | cons hsecond hrest =>
      rw [intercalate_cons_cons, intercalate_cons_cons]
      rw [append_assoc, append_assoc]
      exact hfirst.append (ih.append_left _)

end Replaced

end RanHoneypot
