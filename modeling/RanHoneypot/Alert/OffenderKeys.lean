import RanHoneypot.Alert.Offenders

/-!
# The sources in the offender table

Only an accepted alert enters a source in the table. Every other operation can at most drop sources.
-/

namespace RanHoneypot.Alert.OffenderTable

open List.Subset

/-- The sources that have an entry. -/
def sources (o : OffenderTable) : List String := o.table.index.keys

variable {o : OffenderTable} (now : ℕ)

variable (id : ℕ) (net : Netip)

theorem node?_eq_none {key : String} (hkey : key ∉ o.sources) : o.table.node? key = none := by
  have hlookup : o.table.index.lookup key = none := AList.lookup_eq_none.mpr hkey
  rw [IndexedList.node?, hlookup, Option.bind_none]

theorem sources_endWindow : (o.endWindow id now).1.sources = o.sources := by
  unfold endWindow
  split <;> rfl

theorem sources_remove : (o.remove id now).1.sources ⊆ o.sources := by
  unfold remove
  split
  · exact refl _
  · next e _ =>
    have hclosed : (if e.active then o.endWindow id now else (o, [])).1.sources = o.sources := by
      split
      · exact sources_endWindow _ id
      · rfl
    rw [← hclosed]
    exact IndexedList.keys_remove_subset _ _ id

theorem sources_sweepFrontLoop (rounds : ℕ) :
    (sweepFrontLoop now rounds o).1.sources ⊆ o.sources := by
  induction rounds generalizing o with
  | zero => exact List.Subset.refl _
  | succ rounds ih =>
    unfold sweepFrontLoop
    split
    · exact List.Subset.refl _
    · next node _ =>
      split
      · exact List.Subset.trans ih (sources_remove ..)
      · exact List.Subset.refl _

theorem sources_makeRoom : (o.makeRoom now).1.sources ⊆ o.sources := by
  have hswept : (o.sweepFront _).1.sources ⊆ o.sources := sources_sweepFrontLoop now _
  unfold makeRoom
  dsimp only
  split
  · exact hswept
  · split
    · exact hswept
    · exact List.Subset.trans (sources_remove ..) hswept

theorem sources_entryFor (key : String) :
    (o.entryFor key now).1.sources ⊆ key :: o.sources := by
  have hroom (fresh : OffenderTable) : (if fresh.max ≤ (fresh.table.len : ℤ) then fresh.makeRoom now
      else (fresh, [])).1.sources ⊆ fresh.sources := by
    split
    · exact sources_makeRoom _
    · exact List.Subset.refl _
  have hpush (fresh : OffenderTable) (hfresh : fresh.sources ⊆ o.sources) :=
    List.cons_subset_cons key (List.Subset.trans (hroom fresh) hfresh)
  unfold entryFor
  cases hnode : o.table.node? key with
  | none =>
    simp only [hnode]
    exact List.Subset.trans (IndexedList.keys_pushBack_subset ..)
      (hpush o (List.Subset.refl _))
  | some node =>
    by_cases hexpired : o.expired node.val now = true
    · simp only [hexpired]
      have hfresh := sources_remove (o := o) now node.id
      split
      · exact List.subset_cons_of_subset _ hfresh
      · exact List.Subset.trans (IndexedList.keys_pushBack_subset ..) (hpush _ hfresh)
    · simp only [hexpired, hnode, Bool.false_eq_true, if_false]
      exact List.subset_cons_of_subset _ (List.Subset.refl _)

theorem sources_shunEntry (window : ℤ) : (o.shunEntry id window now).1.sources = o.sources := by
  unfold shunEntry
  dsimp only
  split
  · rfl
  · split
    · split <;> rfl
    · split
      · exact sources_endWindow _ id
      · rfl

theorem sources_accepted {ip : String} {cls : Class} {window : ℤ} {key : String}
    (hkey : key ∈ (o.accepted net ip cls window now).2.1.sources) :
    key ∈ o.sources ∨ normalizeIP net ip = some key := by
  unfold accepted at hkey
  cases hnorm : normalizeIP net ip with
  | none =>
    rw [hnorm] at hkey
    exact .inl hkey
  | some own =>
    rw [hnorm] at hkey
    have hmem : key ∈ own :: o.sources := by
      apply sources_entryFor ..
      unfold acceptLocked at hkey
      dsimp only at hkey
      split at hkey
      · exact hkey
      · rw [sources_shunEntry] at hkey
        exact hkey
    rcases List.mem_cons.mp hmem with heq | hold
    · rw [heq]
      exact .inr rfl
    · exact .inl hold

theorem sources_revert (m : AcceptMark) : (o.revert m now).1.sources ⊆ o.sources := by
  unfold revert
  split
  · exact refl _
  · split
    · exact refl _
    · next node _ =>
      have hwindow : ((o.update node.id (·.discount m.idx)).revertWindow node.id m now).1.sources =
          o.sources := by
        unfold revertWindow
        split
        · rfl
        · split
          · exact sources_endWindow ..
          · rfl
      rw [← hwindow]
      dsimp only
      unfold dropEmpty
      split
      · exact refl _
      · split
        · exact sources_remove ..
        · exact refl _

theorem sources_shunned (ip : String) : (o.shunned net ip now).2.1.sources = o.sources := by
  unfold shunned
  repeat' split
  all_goals first | rfl | exact sources_endWindow ..

theorem sources_rejected (ip protocol : String) :
    (o.rejected net ip protocol).sources = o.sources := by
  unfold rejected
  repeat' split
  all_goals rfl

/-- A fold over the open windows keeps the sources if every round does. -/
theorem sources_foldl {f : OffenderTable × List ShunSummary → ℕ → OffenderTable × List ShunSummary}
    (hround : ∀ acc id, (f acc id).1.sources = acc.1.sources) (ids : List ℕ)
    (acc : OffenderTable × List ShunSummary) : (ids.foldl f acc).1.sources = acc.1.sources := by
  induction ids generalizing acc with
  | nil => rfl
  | cons id rest ih =>
    rw [List.foldl_cons, ih]
    exact hround acc id

theorem sources_sweep : (o.sweep now).1.sources ⊆ o.sources := by
  have hclosed : (o.active.foldl (closeEnded now) (o, [])).1.sources = o.sources := by
    refine sources_foldl (fun acc id ↦ ?_) _ _
    unfold closeEnded
    split
    · rfl
    · split
      · rfl
      · exact sources_endWindow _ id
  rw [← hclosed]
  exact sources_sweepFrontLoop ..

theorem sources_endWindowKeep : (o.endWindowKeep id now).1.sources = o.sources := by
  unfold endWindowKeep
  split
  · rfl
  · exact sources_endWindow _ id

theorem sources_flush : (o.flush now).1.sources = o.sources := by
  refine sources_foldl (fun acc id ↦ ?_) _ _
  unfold flushWindow
  split
  · rfl
  · split
    · exact sources_endWindowKeep _ id
    · rfl

end RanHoneypot.Alert.OffenderTable
