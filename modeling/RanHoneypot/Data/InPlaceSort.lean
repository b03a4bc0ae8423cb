import Mathlib.Data.List.Induction
import Mathlib.Data.List.Sort

/-!
# Insertion sort in place

The values are taken one after the other, and each is swapped to the left as long as the value before it
belongs behind it. The values before the current one are always sorted. The order of the result depends on
the values alone and not on how they stood before.
-/

namespace RanHoneypot.InPlaceSort

open List

variable {α : Type*} (after : α → α → Prop) [DecidableRel after]

/-- Moves the value at a position to the left. -/
def sinkLoop : ℕ → List α → List α
  | 0, v => v
  | j + 1, v =>
    match v[j]?, v[j + 1]? with
    | some a, some b => if after a b then sinkLoop j ((v.set j b).set (j + 1) a) else v
    | _, _ => v

def sort (v : List α) : List α :=
  (List.range' 1 (v.length - 1)).foldl (fun v i ↦ sinkLoop after i v) v

/-- A value sinks to its place among the values before it, seen from the right. -/
theorem sinkLoop_eq (front : List α) (x : α) (rest : List α) :
    sinkLoop after front.length (front ++ x :: rest) =
      (front.reverse.orderedInsert (fun a b ↦ ¬ after b a) x).reverse ++ rest := by
  induction front using List.reverseRecOn generalizing rest with
  | nil => rfl
  | append_singleton front y ih =>
    have htext : front ++ [y] ++ x :: rest = front ++ y :: x :: rest := by
      rw [append_assoc, singleton_append]
    have hleft : (front ++ y :: x :: rest)[front.length]? = some y := by
      rw [getElem?_append_right (le_refl _), Nat.sub_self, getElem?_cons_zero]
    have hright : (front ++ y :: x :: rest)[front.length + 1]? = some x := by
      rw [getElem?_append_right (Nat.le_add_right _ 1), Nat.add_sub_cancel_left]
      rfl
    have hswap : ((front ++ y :: x :: rest).set front.length x).set (front.length + 1) y =
        front ++ x :: y :: rest := by
      simp
    rw [htext, length_append, length_singleton, sinkLoop, hleft, hright]
    simp only [hswap, reverse_append, reverse_singleton, singleton_append,
      orderedInsert_cons]
    by_cases hafter : after y x
    · rw [if_pos hafter, if_neg (not_not.mpr hafter), ih, reverse_cons, append_assoc,
        singleton_append]
    · rw [if_neg hafter, if_pos hafter]
      simp

section

variable {after} {le : α → α → Prop} [Std.Total le] [IsTrans α le] (hle : ∀ a b, le a b ↔ ¬ after a b)

include hle

theorem pairwise_orderedInsert {front : List α} (hfront : front.Pairwise le) (x : α) :
    (front.reverse.orderedInsert (fun a b ↦ ¬ after b a) x).reverse.Pairwise le := by
  have htotal : Std.Total fun a b ↦ ¬ after b a := by
    refine ⟨fun a b ↦ ?_⟩
    rw [← hle, ← hle]
    exact (Std.Total.total a b).symm
  have htrans : IsTrans α fun a b ↦ ¬ after b a := by
    refine ⟨fun a b c hab hbc ↦ ?_⟩
    rw [← hle] at hab hbc ⊢
    exact IsTrans.trans _ _ _ hbc hab
  have hreverse : front.reverse.Pairwise fun a b ↦ ¬ after b a := by
    rw [pairwise_reverse]
    exact hfront.imp fun h ↦ (hle ..).mp h
  rw [pairwise_reverse]
  exact (List.Pairwise.orderedInsert x _ hreverse).imp fun h ↦ (hle ..).mpr h

/-- The values up to the current one are sorted, and no value is lost. -/
theorem foldl_sinkLoop {v : List α} {count : ℕ} (hcount : count < v.length) :
    ∃ front rest, (List.range' 1 count).foldl (fun v i ↦ sinkLoop after i v) v = front ++ rest ∧
      front.length = count + 1 ∧ front.Pairwise le ∧ (front ++ rest).Perm v := by
  induction count with
  | zero =>
    cases v with
    | nil => exact absurd hcount (Nat.not_lt_zero _)
    | cons x v => exact ⟨[x], v, rfl, rfl, pairwise_singleton _ _, List.Perm.refl _⟩
  | succ count ih =>
    rcases ih (by omega) with ⟨front, rest, hfold, hlength, hsorted, hperm⟩
    have hrest : rest ≠ [] := by
      intro hnil
      have htotal := hperm.length_eq
      rw [hnil, append_nil] at htotal
      omega
    rcases exists_cons_of_ne_nil hrest with ⟨x, rest, hcons⟩
    rw [hcons] at hfold hperm
    refine ⟨(front.reverse.orderedInsert (fun a b ↦ ¬ after b a) x).reverse, rest, ?_, ?_,
      pairwise_orderedInsert hle hsorted x, ?_⟩
    · rw [range'_1_concat, foldl_concat, hfold, Nat.add_comm 1, ← hlength, sinkLoop_eq]
    · rw [length_reverse, orderedInsert_length, length_reverse, hlength]
    · refine List.Perm.trans ?_ hperm
      have hinsert : (front.reverse.orderedInsert (fun a b ↦ ¬ after b a) x).reverse.Perm (x :: front) :=
        calc (front.reverse.orderedInsert (fun a b ↦ ¬ after b a) x).reverse
            |>.Perm (front.reverse.orderedInsert (fun a b ↦ ¬ after b a) x) := reverse_perm _
          _ |>.Perm (x :: front.reverse) := perm_orderedInsert _ x _
          _ |>.Perm (x :: front) := (reverse_perm _).cons x
      exact (hinsert.append_right _).trans perm_middle.symm

theorem sort_pairwise_perm (v : List α) : (sort after v).Pairwise le ∧ (sort after v).Perm v := by
  cases hv : v with
  | nil => exact ⟨List.Pairwise.nil, List.Perm.refl _⟩
  | cons x values =>
    have hcount : values.length < (x :: values).length := Nat.lt_succ_self _
    rcases foldl_sinkLoop hle hcount with ⟨front, rest, hfold, hlength, hsorted, hperm⟩
    have hrest : rest = [] := by
      have htotal := hperm.length_eq
      rw [length_append, length_cons] at htotal
      exact eq_nil_of_length_eq_zero (by omega)
    have hsort : sort after (x :: values) = front := by
      rw [sort, length_cons, Nat.add_sub_cancel, hfold, hrest, append_nil]
    rw [hrest, append_nil] at hperm
    rw [hsort]
    exact ⟨hsorted, hperm⟩

/-- The result is the same for every order of the input. -/
theorem sort_eq_of_perm [Std.Antisymm le] {v w : List α} (hperm : v.Perm w) :
    sort after v = sort after w := by
  have hv := sort_pairwise_perm hle v
  have hw := sort_pairwise_perm hle w
  exact List.Perm.eq_of_pairwise' hv.1 hw.1 (hv.2.trans (hperm.trans hw.2.symm))

end

end RanHoneypot.InPlaceSort
