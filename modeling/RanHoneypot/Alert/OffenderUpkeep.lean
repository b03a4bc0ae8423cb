import RanHoneypot.Alert.OffenderEntries

/-!
# Upkeep, refusals and reverts of the offender table

Lookups and sweeps close windows that have reached their end and drop silent entries; a refused
connection is counted in the open window; a revert takes one alert back. As for accepted alerts,
each operation is described by its effect on the entry of every source.
-/

namespace RanHoneypot.Alert.OffenderTable

open OffenderTable

variable {o : OffenderTable} {node : Node Offender} (now : ℕ)

/-! ## Lookups and sweeps -/

/-- The window of `e` is still open although it has reached its end. -/
def ended (e : Offender) (now : ℕ) : Prop := e.active = true ∧ e.shunUntil ≤ now

/-- `o'` is `o` after some ended windows were closed and some expired entries dropped. -/
structure Tidied (o o' : OffenderTable) : Prop where
  wf : o'.WF
  frame : SameFrame o o'
  get? : ∀ key, o'.table.get? key = o.table.get? key ∨
    (∃ e, o.table.get? key = some e ∧ ended e now ∧ o'.table.get? key = some e.closeWindow) ∨
    (o'.table.get? key = none ∧ ∃ e, o.table.get? key = some e ∧ o.expired e now)

theorem Tidied.refl (hwf : o.WF) : Tidied now o o := ⟨hwf, .refl o, fun _ ↦ .inl rfl⟩

theorem expired_closeWindow {e : Offender} (hended : ended e now) :
    o.expired e.closeWindow now = o.expired e now := by
  have hpast : ¬now < e.shunUntil := not_lt.mpr hended.2
  have hzero : ¬now < e.closeWindow.shunUntil := Nat.not_lt_zero now
  unfold expired
  rw [decide_eq_false hpast]
  rfl

theorem Tidied.trans {o₁ o₂ o₃ : OffenderTable} (hfirst : Tidied now o₁ o₂)
    (hsecond : Tidied now o₂ o₃) : Tidied now o₁ o₃ where
  wf := hsecond.wf
  frame := hfirst.frame.trans hsecond.frame
  get? := by
    intro key
    have hexpired (e : Offender) : o₂.expired e now = o₁.expired e now :=
      expired_of_config hfirst.frame.config e now
    rcases hsecond.get? key with hsame | ⟨e, he, hended, hclosed⟩ | ⟨hnone, e, he, hgone⟩
    · rw [hsame]
      exact hfirst.get? _
    · rcases hfirst.get? key with hsame | ⟨old, _, _, hclosed'⟩ | ⟨hnone, _⟩
      · exact .inr (.inl ⟨e, hsame ▸ he, hended, hclosed⟩)
      · rw [hclosed', Option.some.injEq] at he
        rw [← he] at hended
        cases hended.1
      · rw [hnone] at he
        cases he
    · rw [hexpired] at hgone
      rcases hfirst.get? key with hsame | ⟨old, hold, hended, hclosed'⟩ | ⟨hnone', _⟩
      · exact .inr (.inr ⟨hnone, e, hsame ▸ he, hgone⟩)
      · rw [hclosed', Option.some.injEq] at he
        rw [← he, expired_closeWindow _ hended] at hgone
        exact .inr (.inr ⟨hnone, old, hold, hgone⟩)
      · rw [hnone'] at he
        cases he

theorem WF.endWindow_tidied (hwf : o.WF) (hmem : node ∈ o.table.nodes)
    (hended : ended node.val now) : Tidied now o (o.endWindow node.id now).1 where
  wf := (hwf.endWindow now hmem).wf hwf hmem
  frame := endWindow_frame now _
  get? := by
    intro key
    rw [(hwf.endWindow now hmem).get? hwf hmem]
    split
    · next hkey =>
      rw [hkey]
      exact .inr (.inl ⟨node.val, hwf.table.get?_of_mem hmem, hended, rfl⟩)
    · exact .inl rfl

theorem WF.sweepFront_tidied (hwf : o.WF) : Tidied now o (o.sweepFront now).1 := by
  have hshrinks := hwf.sweepFront_shrinks now
  refine ⟨hshrinks.wf, ⟨hshrinks.config, hshrinks.nextWin, hwf.sweepFront_evicted _⟩, ?_⟩
  intro key
  rcases hshrinks.get? key with hsame | hgone
  · exact .inl hsame
  · exact .inr (.inr hgone)

theorem WF.closeEnded_tidied (hwf : o.WF) {id : ℕ} (hopen : id ∈ o.active)
    (sums : List ShunSummary) : Tidied now o (closeEnded now (o, sums) id).1 := by
  rcases (hwf.active_iff id).mp hopen with ⟨node, hmem, rfl, hon⟩
  unfold closeEnded
  simp only [hwf.table.deref_of_mem hmem]
  split
  · exact .refl now hwf
  · next hpast => exact hwf.endWindow_tidied _ hmem ⟨hon, not_lt.mp hpast⟩

theorem WF.mem_active_closeEnded (hwf : o.WF) {id other : ℕ} (hopen : id ∈ o.active)
    (hother : other ∈ o.active) (hne : other ≠ id) (sums : List ShunSummary) :
    other ∈ (closeEnded now (o, sums) id).1.active := by
  rcases (hwf.active_iff id).mp hopen with ⟨node, hmem, rfl, _⟩
  unfold closeEnded
  simp only [hwf.table.deref_of_mem hmem]
  split
  · exact hother
  · rwa [(hwf.endWindow now hmem).active, if_neg hne]

/-- The loop over the open windows, with the windows still to visit open. -/
theorem WF.closeAll_tidied (hwf : o.WF) {ids : List ℕ} (hids : ids.Nodup)
    (hopen : ∀ id ∈ ids, id ∈ o.active) (sums : List ShunSummary) :
    Tidied now o (ids.foldl (closeEnded now) (o, sums)).1 := by
  induction ids generalizing o sums with
  | nil => exact .refl now hwf
  | cons id rest ih =>
    have hfirst := hwf.closeEnded_tidied now (hopen id (by simp)) sums
    rw [List.nodup_cons] at hids
    refine hfirst.trans _ (ih hfirst.wf hids.2 ?_ _)
    intro other hother
    apply hwf.mem_active_closeEnded _ (hopen id (by simp)) (hopen other (by simp [hother]))
    intro heq
    exact hids.1 (heq ▸ hother)

theorem WF.sweep_tidied (hwf : o.WF) : Tidied now o (o.sweep now).1 := by
  have hclosed := hwf.closeAll_tidied now hwf.active_nodup (fun _ h ↦ h) []
  exact hclosed.trans _ (hclosed.wf.sweepFront_tidied _)

section

variable (hwf : o.WF) (net : Netip) (ip : String)

include hwf

theorem WF.shunned_tidied : Tidied now o (o.shunned net ip now).2.1 := by
  unfold shunned
  split
  · exact .refl now hwf
  · split
    · exact .refl now hwf
    · next key _ =>
      split
      · exact .refl now hwf
      · next node hnode =>
        rcases (hwf.table.node?_iff ..).mp hnode with ⟨hmem, _⟩
        cases hactive : node.val.active with
        | false => exact .refl now hwf
        | true =>
          simp only [Bool.not_true, Bool.false_eq_true, if_false]
          split
          · exact .refl now hwf
          · next hpast => exact hwf.endWindow_tidied _ hmem ⟨hactive, not_lt.mp hpast⟩

/-- A lookup answers whether the window of the source is running. -/
theorem WF.shunned_iff :
    (o.shunned net ip now).1 = true ↔ o.shun = true ∧
      ∃ key e, normalizeIP net ip = some key ∧ o.table.get? key = some e ∧ e.shunnedAt now := by
  unfold shunned
  by_cases hshun : o.shun
  swap
  · simp [hshun]
  by_cases hempty : o.active.length = 0
  · simp only [hempty, beq_self_eq_true, Bool.or_true, if_true, Bool.false_eq_true, false_iff]
    intro hexists
    rcases hexists with ⟨_, key, e, _, hget, hrunning⟩
    rcases (hwf.table.get?_iff _ e).mp hget with ⟨hmem, _⟩
    rcases List.mem_map.mp hmem with ⟨node, hnode, rfl⟩
    have hopen := (hwf.active_iff _).mpr ⟨node, hnode, rfl, (shunnedAt_iff.mp hrunning).1⟩
    rw [List.length_eq_zero_iff.mp hempty] at hopen
    cases hopen
  · have hlength : (o.active.length == 0) = false := by simpa using hempty
    simp only [hshun, hlength, Bool.not_true, Bool.or_self, Bool.false_eq_true, true_and]
    cases hkey : normalizeIP net ip with
    | none => simp
    | some key =>
      simp only [Option.some.injEq]
      cases hnode : o.table.node? key with
      | none =>
        have hget : o.table.get? key = none := by simp [IndexedList.get?, hnode]
        simp [hget]
      | some node =>
        have hget : o.table.get? key = some node.val := by simp [IndexedList.get?, hnode]
        by_cases hactive : node.val.active <;> by_cases hrunning : now < node.val.shunUntil <;>
          simp [hget, hactive, hrunning, Offender.shunnedAt]

/-! ## Refused connections -/

/-- A refused connection is counted in an open window or not at all. -/
theorem WF.rejected_cases (protocol : String) : o.rejected net ip protocol = o ∨
    ∃ node ∈ o.table.nodes, node.val.active = true ∧
      Rewrites (·.suppress protocol) node o (o.rejected net ip protocol) := by
  unfold rejected
  split
  · exact .inl rfl
  · next found _ =>
    split
    · exact .inl rfl
    · next node hnode =>
      rcases (hwf.table.node?_iff ..).mp hnode with ⟨hmem, _⟩
      cases hactive : node.val.active with
      | false => exact .inl rfl
      | true => exact .inr ⟨node, hmem, hactive, hwf.rewrites hmem _ rfl
          fun hoff ↦ absurd (hoff.symm.trans hactive) Bool.false_ne_true⟩

theorem WF.rejected_get? (protocol : String) (key : String) :
    (o.rejected net ip protocol).table.get? key = o.table.get? key ∨
      ∃ e, o.table.get? key = some e ∧ e.active = true ∧
        (o.rejected net ip protocol).table.get? key = some (e.suppress protocol) := by
  rcases hwf.rejected_cases net ip protocol with hsame | ⟨node, hmem, hactive, hwritten⟩
  · exact .inl (by rw [hsame])
  · rw [hwritten.get? hwf hmem]
    split
    · next hkey =>
      rw [hkey]
      exact .inr ⟨node.val, hwf.table.get?_of_mem hmem, hactive, rfl⟩
    · exact .inl rfl

theorem WF.rejected (protocol : String) : (o.rejected net ip protocol).WF := by
  rcases hwf.rejected_cases net ip protocol with hsame | ⟨node, hmem, _, hwritten⟩
  · rwa [hsame]
  · exact hwritten.wf hwf hmem

end

theorem rejected_frame (net : Netip) (ip protocol : String) :
    SameFrame o (o.rejected net ip protocol) := by
  unfold rejected
  repeat' split
  all_goals exact ⟨rfl, rfl, rfl⟩

/-! ## Reverts -/

/-- The entry of the source of `m` after the window of the alert was taken back. -/
def unshunned (e : Offender) (m : AcceptMark) : Offender :=
  if m.win ≠ 0 ∧ e.active ∧ e.winID = m.win then (e.discount m.idx).closeWindow
  else e.discount m.idx

/-- The entry of the source of `m` after the revert; an empty one is dropped. -/
def revertEntry (m : AcceptMark) (e : Offender) : Option Offender :=
  if (unshunned e m).active = false ∧ ∀ i, (unshunned e m).counts i = 0 then none
  else some (unshunned e m)

theorem WF.dropEmpty (hwf : o.WF) (hmem : node ∈ o.table.nodes) :
    (o.dropEmpty node.id now).1.WF ∧ ∀ key, (o.dropEmpty node.id now).1.table.get? key =
      if key = node.val.ip then
        if node.val.active = false ∧ ∀ i, node.val.counts i = 0 then none else some node.val
      else o.table.get? key := by
  unfold OffenderTable.dropEmpty
  simp only [hwf.table.deref_of_mem hmem]
  split
  · exact hwf.remove _ hmem
  · refine ⟨hwf, fun key ↦ ?_⟩
    split
    · next hkey => rw [hkey, hwf.table.get?_of_mem hmem]
    · rfl

theorem WF.revertWindow (hwf : o.WF) (hmem : node ∈ o.table.nodes) (m : AcceptMark) :
    (o.revertWindow node.id m now).1.WF ∧
    ⟨node.id, if m.win ≠ 0 ∧ node.val.active ∧ node.val.winID = m.win then node.val.closeWindow
      else node.val⟩ ∈ (o.revertWindow node.id m now).1.table.nodes ∧
    ∀ key, key ≠ node.val.ip →
      (o.revertWindow node.id m now).1.table.get? key = o.table.get? key := by
  unfold OffenderTable.revertWindow
  simp only [hwf.table.deref_of_mem hmem]
  split
  · have hended := hwf.endWindow now hmem
    refine ⟨hended.wf hwf hmem, hended.mem hwf hmem, fun key hne ↦ ?_⟩
    rw [hended.get? hwf hmem, if_neg hne]
  · exact ⟨hwf, hmem, fun _ _ ↦ rfl⟩

theorem WF.revert (hwf : o.WF) (m : AcceptMark) :
    (o.revert m now).1.WF ∧ ∀ key, (o.revert m now).1.table.get? key =
      if m.ok = true ∧ key = m.key then (o.table.get? key).bind (revertEntry m)
      else o.table.get? key := by
  unfold OffenderTable.revert
  cases hok : m.ok with
  | false => exact ⟨hwf, fun key ↦ by simp⟩
  | true =>
    simp only [Bool.not_true, Bool.false_eq_true, true_and]
    cases hnode : o.table.node? m.key with
    | none =>
      have hget : o.table.get? m.key = none := by simp [IndexedList.get?, hnode]
      refine ⟨hwf, fun key ↦ ?_⟩
      by_cases hkey : key = m.key
      · simp [hkey, hget]
      · simp [hkey]
    | some node =>
      rcases (hwf.table.node?_iff ..).mp hnode with ⟨hmem, hip⟩
      have hget : o.table.get? m.key = some node.val := by simp [IndexedList.get?, hnode]
      have hcounted := hwf.rewrites hmem (·.discount m.idx) rfl fun _ ↦ ⟨rfl, rfl⟩
      rcases (hcounted.wf hwf hmem).revertWindow now (hcounted.mem hwf hmem) m with
        ⟨hended, hentry, hothers⟩
      rcases hended.dropEmpty now hentry with ⟨hdropped, hdropGet⟩
      refine ⟨hdropped, fun key ↦ ?_⟩
      have hval : (if m.win ≠ 0 ∧ (node.val.discount m.idx).active ∧
          (node.val.discount m.idx).winID = m.win then (node.val.discount _).closeWindow
          else node.val.discount m.idx) = unshunned node.val m := rfl
      refine (hdropGet key).trans ?_
      rw [hval]
      have hip' : (unshunned node.val m).ip = m.key := by
        unfold unshunned
        split <;> exact hip
      rw [hip']
      by_cases hkey : key = m.key
      · rw [if_pos hkey, if_pos hkey, hkey, hget]
        rfl
      · have hne : key ≠ node.val.ip := by rwa [hip]
        rw [if_neg hkey, if_neg hkey, hothers key hne, hcounted.get? hwf hmem, if_neg hne]

theorem revert_frame (m : AcceptMark) : SameFrame o (o.revert m now).1 := by
  have hwindow (o : OffenderTable) (id : ℕ) : SameFrame o (o.revertWindow id m now).1 := by
    unfold revertWindow
    repeat' split
    all_goals first | exact .refl o | exact endWindow_frame _ id
  have hdrop (o : OffenderTable) (id : ℕ) : SameFrame o (o.dropEmpty id now).1 := by
    unfold dropEmpty
    repeat' split
    all_goals first | exact .refl o | exact remove_frame _ id
  unfold revert
  split
  · exact .refl o
  · split
    · exact .refl o
    · exact (update_frame ..).trans ((hwindow ..).trans (hdrop ..))

end RanHoneypot.Alert.OffenderTable
