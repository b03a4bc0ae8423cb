import RanHoneypot.Alert.Offenders

/-!
# What each operation does to the entries of the offender table

The map, the FIFO list and the set of open windows are updated by separate statements. The
invariant `WF` says that they agree. Under it every operation is described by its effect on the
entry of each source, `o.table.get? key`: this is the view in which the properties of the shun
window and of the counters are stated.
-/

namespace RanHoneypot.Alert.OffenderTable

open List IndexedList OffenderTable Offender

/-- The map, the list and the set of open windows agree, and a closed window leaves nothing. -/
structure WF (o : OffenderTable) : Prop where
  table : o.table.WF ip
  active_nodup : o.active.Nodup
  active_iff : ∀ id, id ∈ o.active ↔ ∃ node ∈ o.table.nodes, node.id = id ∧ node.val.active = true
  idle : ∀ node ∈ o.table.nodes, node.val.active = false →
    node.val.shunUntil = 0 ∧ node.val.suppressed = 0

variable {o o' : OffenderTable}

/-- The settings of a table. -/
def config (o : OffenderTable) : OffenderConfig where
  shun := o.shun
  repeatAfter := o.repeatAfter
  repeatCooldown := o.repeatCooldown
  maxEntries := o.max
  reset := o.reset

theorem newOffenderTable_wf (cfg : OffenderConfig) : (newOffenderTable cfg).WF where
  table := empty_wf
  active_nodup := nodup_nil
  active_iff := by simp [newOffenderTable, empty]
  idle := by simp [newOffenderTable, empty]

theorem shun_of_config (h : o'.config = o.config) : o'.shun = o.shun :=
  congrArg OffenderConfig.shun h

theorem reset_of_config (h : o'.config = o.config) : o'.reset = o.reset :=
  congrArg OffenderConfig.reset h

theorem expired_of_config (h : o'.config = o.config) (e : Offender) (now : ℕ) :
    o'.expired e now = o.expired e now := by
  unfold expired
  rw [reset_of_config h]

/-- The settings, the window ids in use and the evictions are the same. -/
structure SameFrame (o o' : OffenderTable) : Prop where
  config : o'.config = o.config
  nextWin : o'.nextWin = o.nextWin
  evicted : o'.evicted = o.evicted

theorem SameFrame.refl (o : OffenderTable) : SameFrame o o := ⟨rfl, rfl, rfl⟩

theorem SameFrame.trans {o₁ o₂ o₃ : OffenderTable} (hfirst : SameFrame o₁ o₂)
    (hsecond : SameFrame o₂ o₃) : SameFrame o₁ o₃ where
  config := hsecond.config.trans hfirst.config
  nextWin := hsecond.nextWin.trans hfirst.nextWin
  evicted := hsecond.evicted.trans hfirst.evicted

variable {o : OffenderTable} {node : Node Offender} (now : ℕ)

/-! ## Writing an entry -/

variable (id : ℕ) {f : Offender → Offender} {e : Offender} {cls : Class} {window : ℤ}

variable {gone : Offender → Prop} {o₁ : OffenderTable} {after : Offender} {o₂ : OffenderTable}
  {win next : ℕ}

theorem update_frame (f : Offender → Offender) : SameFrame o (o.update id f) :=
  ⟨rfl, rfl, rfl⟩

@[simp] theorem update_active (f : Offender → Offender) :
    (o.update id f).active = o.active := rfl

/-- `o'` is `o` with one entry written, and the set of open windows follows it. -/
structure Rewrites (f : Offender → Offender) (node : Node Offender) (o o' : OffenderTable) : Prop where
  table : o'.table = o.table.modify node.id f
  ip : (f node.val).ip = node.val.ip
  nodup : o'.active.Nodup
  active : ∀ id, id ∈ o'.active ↔ if id = node.id then (f node.val).active = true else id ∈ o.active
  idle : (f node.val).active = false → (f node.val).shunUntil = 0 ∧ (f node.val).suppressed = 0

section

variable (hwf : o.WF) (hmem : node ∈ o.table.nodes)

include hwf hmem

theorem WF.mem_active_iff : node.id ∈ o.active ↔ node.val.active = true := by
  rw [hwf.active_iff]
  constructor
  · intro hopen
    rcases hopen with ⟨other, hother, hid, hon⟩
    rwa [hwf.table.eq_of_id_eq hother hmem hid] at hon
  · intro hon
    exact ⟨node, hmem, rfl, hon⟩

variable (h : Rewrites f node o o')

section

include h

theorem Rewrites.get? (key : String) : o'.table.get? key =
    if key = node.val.ip then some (f node.val) else o.table.get? key := by
  rw [h.table]
  exact hwf.table.get?_modify hmem h.ip key

theorem Rewrites.mem_nodes (other : Node Offender) : other ∈ o'.table.nodes ↔
    (other ∈ o.table.nodes ∧ other.id ≠ node.id) ∨ other = ⟨node.id, f node.val⟩ := by
  rw [h.table]
  exact hwf.table.mem_nodes_modify_iff hmem f other

theorem Rewrites.mem : ⟨node.id, f node.val⟩ ∈ o'.table.nodes :=
  (h.mem_nodes hwf hmem _).mpr (.inr rfl)

theorem Rewrites.wf : o'.WF where
  table := by
    rw [h.table]
    apply hwf.table.modify
    intro other hother hid
    rw [hwf.table.eq_of_id_eq hother hmem hid, h.ip]
  active_nodup := h.nodup
  active_iff := by
    intro id
    rw [h.active]
    simp only [h.mem_nodes hwf hmem]
    split
    · next hid =>
      constructor
      · intro hon
        exact ⟨_, .inr rfl, hid.symm, hon⟩
      · intro hopen
        rcases hopen with ⟨other, ⟨_, hne⟩ | rfl, hother, hon⟩
        · exact absurd (hother.trans hid) hne
        · exact hon
    · next hid =>
      rw [hwf.active_iff]
      constructor
      · intro hopen
        rcases hopen with ⟨other, hother, rfl, hon⟩
        exact ⟨other, .inl ⟨hother, hid⟩, rfl, hon⟩
      · intro hopen
        rcases hopen with ⟨other, ⟨hother, _⟩ | rfl, hother', hon⟩
        · exact ⟨other, hother, hother', hon⟩
        · exact absurd hother'.symm hid
  idle := by
    intro other hother
    rcases (h.mem_nodes hwf hmem _).mp hother with ⟨hold, _⟩ | rfl
    · exact hwf.idle _ hold
    · exact h.idle

end

/-- A write that keeps the address and the window of an entry. -/
theorem WF.rewrites (f : Offender → Offender) (hactive : (f node.val).active = node.val.active)
    (hidle : node.val.active = false → (f node.val).shunUntil = node.val.shunUntil ∧
      (f node.val).suppressed = node.val.suppressed)
    (hip : (f node.val).ip = node.val.ip := by rfl) :
    Rewrites f node o (o.update node.id f) where
  table := rfl
  ip := hip
  nodup := hwf.active_nodup
  active := by
    intro id
    split
    · next hid => rw [hid, hactive, update_active, hwf.mem_active_iff hmem]
    · rfl
  idle := by
    intro hoff
    rw [hactive] at hoff
    rw [(hidle hoff).1, (hidle hoff).2]
    exact hwf.idle node hmem hoff

/-! ## Closing a window -/

theorem WF.endWindow_eq :
    o.endWindow node.id now =
      ({ o.update node.id closeWindow with
          active := o.active.filter fun other ↦ other ≠ node.id },
        if 0 < node.val.suppressed then [node.val.summary now] else []) := by
  unfold endWindow
  rw [hwf.table.deref_of_mem hmem]

theorem WF.endWindow : Rewrites closeWindow node o (o.endWindow node.id now).1 := by
  rw [hwf.endWindow_eq _ hmem]
  refine ⟨rfl, rfl, hwf.active_nodup.filter _, fun id ↦ ?_, fun _ ↦ ⟨rfl, rfl⟩⟩
  by_cases hid : id = node.id <;> simp [hid, closeWindow]

end

theorem endWindow_frame : SameFrame o (o.endWindow id now).1 := by
  unfold endWindow
  split
  · exact .refl o
  · exact ⟨rfl, rfl, rfl⟩

/-! ## Removing an entry -/

section

variable (hwf : o.WF) (hmem : node ∈ o.table.nodes)

include hwf hmem

/-- Dropping an entry without an open window. -/
theorem WF.drop (hoff : node.val.active = false) :
    ({ o with table := o.table.remove node.val.ip node.id } : OffenderTable).WF where
  table := hwf.table.remove hmem
  active_nodup := hwf.active_nodup
  active_iff := by
    intro id
    simp only [mem_remove_iff, hwf.active_iff]
    constructor
    · intro hopen
      rcases hopen with ⟨other, hother, hid, hon⟩
      refine ⟨other, ⟨hother, fun hsame ↦ ?_⟩, hid, hon⟩
      rw [hwf.table.eq_of_id_eq hother hmem hsame, hoff] at hon
      exact Bool.false_ne_true hon
    · intro hopen
      rcases hopen with ⟨other, ⟨hother, _⟩, hid, hon⟩
      exact ⟨other, hother, hid, hon⟩
  idle := by
    intro other hother
    exact hwf.idle _ ((mem_remove_iff ..).mp hother).1

/-- An open window is closed first. -/
theorem WF.remove : (o.remove node.id now).1.WF ∧ ∀ key, (o.remove node.id now).1.table.get? key =
    if key = node.val.ip then none else o.table.get? key := by
  unfold OffenderTable.remove
  simp only [hwf.table.deref_of_mem hmem]
  cases hactive : node.val.active with
  | false => exact ⟨hwf.drop hmem hactive, hwf.table.get?_remove hmem⟩
  | true =>
    have hended := hwf.endWindow now hmem
    have hwf' := hended.wf hwf hmem
    have hmem' := hended.mem hwf hmem
    have hdropped := hwf'.drop hmem' rfl
    refine ⟨hdropped, fun key ↦ (hwf'.table.get?_remove hmem' key).trans ?_⟩
    rw [hended.get? hwf hmem]
    by_cases hkey : key = node.val.ip <;> simp [hkey, closeWindow]

end

theorem remove_frame : SameFrame o (o.remove id now).1 := by
  unfold remove
  split
  · exact .refl o
  · next e _ =>
    cases e.active with
    | false => exact ⟨rfl, rfl, rfl⟩
    | true =>
      have hframe := endWindow_frame (o := o) now id
      exact ⟨hframe.config, hframe.nextWin, hframe.evicted⟩

/-! ## Losing entries -/

/-- `o'` is `o` without some entries, all of which satisfy `gone`. -/
structure Shrinks (gone : Offender → Prop) (o o' : OffenderTable) : Prop where
  wf : o'.WF
  config : o'.config = o.config
  nextWin : o'.nextWin = o.nextWin
  get? : ∀ key, o'.table.get? key = o.table.get? key ∨
    (o'.table.get? key = none ∧ ∃ e, o.table.get? key = some e ∧ gone e)

theorem Shrinks.refl (hwf : o.WF) : Shrinks gone o o :=
  ⟨hwf, rfl, rfl, fun _ ↦ .inl rfl⟩

theorem Shrinks.trans {o₃ : OffenderTable} (hfirst : Shrinks gone o₁ o₂)
    (hsecond : Shrinks gone o₂ o₃) : Shrinks gone o₁ o₃ where
  wf := hsecond.wf
  config := hsecond.config.trans hfirst.config
  nextWin := hsecond.nextWin.trans hfirst.nextWin
  get? := by
    intro key
    rcases hsecond.get? key with hsame | ⟨hnone, e, he, hgone⟩
    · rw [hsame]
      exact hfirst.get? _
    · rcases hfirst.get? key with hsame | ⟨hnone', _⟩
      · exact .inr ⟨hnone, e, hsame ▸ he, hgone⟩
      · rw [hnone'] at he
        cases he

theorem Shrinks.mono {weaker : Offender → Prop} (hshrinks : Shrinks gone o₁ o₂)
    (himp : ∀ e, gone e → weaker e) : Shrinks weaker o₁ o₂ where
  wf := hshrinks.wf
  config := hshrinks.config
  nextWin := hshrinks.nextWin
  get? := by
    intro key
    rcases hshrinks.get? key with hsame | ⟨hnone, e, he, hgone⟩
    · exact .inl hsame
    · exact .inr ⟨hnone, e, he, himp e hgone⟩

theorem WF.remove_shrinks (hwf : o.WF) (hmem : node ∈ o.table.nodes) :
    Shrinks (· = node.val) o (o.remove node.id now).1 where
  wf := (hwf.remove now hmem).1
  config := (remove_frame ..).config
  nextWin := (remove_frame ..).nextWin
  get? := by
    intro key
    rw [(hwf.remove now hmem).2]
    by_cases hkey : key = node.val.ip
    · rw [if_pos hkey, hkey]
      exact .inr ⟨rfl, node.val, hwf.table.get?_of_mem hmem, rfl⟩
    · rw [if_neg hkey]
      exact .inl rfl

theorem WF.sweepFrontLoop_shrinks (hwf : o.WF) (rounds : ℕ) :
    Shrinks (fun e ↦ o.expired e now) o (sweepFrontLoop now rounds o).1 ∧
      (sweepFrontLoop now rounds o).1.evicted = o.evicted := by
  induction rounds generalizing o with
  | zero => exact ⟨.refl hwf, rfl⟩
  | succ rounds ih =>
    unfold sweepFrontLoop
    cases hfront : o.table.front? with
    | none => exact ⟨.refl hwf, rfl⟩
    | some node =>
      have hmem : node ∈ o.table.nodes := mem_of_head? hfront
      by_cases hexpired : o.expired node.val now
      · simp only [hexpired]
        have hremove := hwf.remove_shrinks now hmem
        have hrest := ih hremove.wf
        refine ⟨?_, hrest.2.trans (remove_frame ..).evicted⟩
        have hfirst : Shrinks (fun e ↦ o.expired e now) o (o.remove ..).1 :=
          hremove.mono fun e he ↦ by rw [he]; exact hexpired
        apply hfirst.trans
        exact hrest.1.mono fun e he ↦ by rwa [expired_of_config hremove.config] at he
      · simp only [hexpired, Bool.false_eq_true, if_false]
        exact ⟨.refl hwf, trivial⟩

theorem WF.sweepFront_shrinks (hwf : o.WF) :
    Shrinks (fun e ↦ o.expired e now) o (o.sweepFront now).1 :=
  (hwf.sweepFrontLoop_shrinks now _).1

theorem WF.sweepFront_evicted (hwf : o.WF) : (o.sweepFront now).1.evicted = o.evicted :=
  (hwf.sweepFrontLoop_shrinks now _).2

theorem victim_mem {front : Node Offender} (hfront : o.table.front? = some front) :
    o.victim front ∈ o.table.nodes := by
  have hmem : front ∈ o.table.nodes := mem_of_head? hfront
  unfold victim
  split
  · cases hfind : (o.table.nodes.take _).find? fun node ↦ !node.val.active with
    | none => exact hmem
    | some found => exact mem_of_mem_take (mem_of_find?_eq_some hfind)
  · exact hmem

/-- A full table gives up expired entries and at most one victim, which it counts as evicted. -/
theorem WF.makeRoom_shrinks (hwf : o.WF) :
    Shrinks (fun e ↦ o.expired e now ∨ (o.makeRoom now).1.evicted = o.evicted ++ [e]) o
      (o.makeRoom now).1 := by
  have hswept := hwf.sweepFront_shrinks now
  have hevicted := hwf.sweepFront_evicted now
  unfold makeRoom
  dsimp only
  split
  · exact hswept.mono fun _ ↦ .inl
  · cases hfront : (o.sweepFront _).1.table.front? with
    | none => exact hswept.mono fun _ ↦ .inl
    | some front =>
      have hmem := victim_mem hfront
      let counted : OffenderTable := { (o.sweepFront now).1 with
        evicted := (o.sweepFront now).1.evicted ++ [((o.sweepFront now).1.victim front).val] }
      have hcounted : counted.WF :=
        ⟨hswept.wf.table, hswept.wf.active_nodup, hswept.wf.active_iff, hswept.wf.idle⟩
      have hremove : Shrinks (· = ((o.sweepFront _).1.victim front).val) counted
          (counted.remove ..).1 :=
        hcounted.remove_shrinks now hmem
      have hlast : (counted.remove ((o.sweepFront now).1.victim front).id now).1.evicted =
          o.evicted ++ [((o.sweepFront now).1.victim front).val] := by
        rw [(remove_frame ..).evicted, ← hevicted]
      have hstart : Shrinks (fun e ↦ o.expired e now) o counted :=
        ⟨hcounted, hswept.config, hswept.nextWin, hswept.get?⟩
      apply (hstart.mono fun _ ↦ .inl).trans
      apply hremove.mono
      intro e he
      subst he
      exact .inr hlast

theorem WF.makeRoom_evicted (hwf : o.WF) :
    (o.makeRoom now).1.evicted = o.evicted ∨
      ∃ e, (o.makeRoom now).1.evicted = o.evicted ++ [e] := by
  have hevicted := hwf.sweepFront_evicted now
  unfold makeRoom
  dsimp only
  split
  · exact .inl hevicted
  · cases hfront : (o.sweepFront _).1.table.front? with
    | none => exact .inl hevicted
    | some front =>
      refine .inr ⟨((o.sweepFront now).1.victim front).val, ?_⟩
      simp only [(remove_frame ..).evicted, hevicted]

/-! ## Recording an alert -/

/-- The entry an alert of `key` is recorded in at `now`, before it is counted. -/
def startEntry (o : OffenderTable) (key : String) (now : ℕ) : Offender :=
  match o.table.get? key with
  | none => { ip := key }
  | some e => if o.expired e now then { ip := key } else e

theorem WF.startEntry_ip (hwf : o.WF) (key : String) : (o.startEntry key now).ip = key := by
  unfold startEntry
  cases hget : o.table.get? key with
  | none => rfl
  | some e =>
    have hip := ((hwf.table.get?_iff _ e).mp hget).2
    dsimp only
    split
    · rfl
    · exact hip

/-- What `entryFor` leaves to the entries of other sources. -/
def lost (o o' : OffenderTable) (now : ℕ) (e : Offender) : Prop :=
  o.expired e now ∨ o'.evicted = o.evicted ++ [e]

theorem WF.pushBack (hwf : o.WF) {key : String} (hnew : o.table.get? key = none) :
    ({ o with table := o.table.pushBack key { ip := key } } : OffenderTable).WF ∧
      ∀ other, (o.table.pushBack key { ip := key }).get? other =
        if other = key then some { ip := key } else o.table.get? other := by
  have hkeys : ∀ node ∈ o.table.nodes, node.val.ip ≠ ({ ip := key } : Offender).ip := by
    intro node hmem hip
    have hsome := hwf.table.get?_of_mem hmem
    rw [hip, hnew] at hsome
    cases hsome
  refine ⟨⟨hwf.table.pushBack hkeys, hwf.active_nodup, ?_, ?_⟩, hwf.table.get?_pushBack hkeys⟩
  · intro id
    rw [hwf.active_iff]
    simp only [mem_pushBack_iff, or_and_right, exists_or, exists_eq_left, Bool.false_eq_true,
      and_false, or_false]
  · intro other hother hoff
    rcases (mem_pushBack_iff ..).mp hother with hold | rfl
    · exact hwf.idle _ hold hoff
    · exact ⟨rfl, rfl⟩

theorem WF.moveToBack (hwf : o.WF) (id : ℕ) :
    ({ o with table := o.table.moveToBack id } : OffenderTable).WF :=
  { hwf with
    table := hwf.table.moveToBack id
    active_iff := by
      intro id'
      simp only [mem_moveToBack_iff]
      exact hwf.active_iff _
    idle := by
      intro other hother
      exact hwf.idle _ ((mem_moveToBack_iff id other).mp hother) }

/-- Looking up the entry for an alert: the entry itself, and what happens to the others. -/
structure EntryFor (o : OffenderTable) (key : String) (now : ℕ) (o' : OffenderTable) (id : ℕ) :
    Prop where
  wf : o'.WF
  config : o'.config = o.config
  nextWin : o'.nextWin = o.nextWin
  mem : ⟨id, o.startEntry key now⟩ ∈ o'.table.nodes
  others : ∀ other, other ≠ key → o'.table.get? other = o.table.get? other ∨
    (o'.table.get? other = none ∧ ∃ e, o.table.get? other = some e ∧ lost o o' now e)
  evicted : o'.evicted = o.evicted ∨ ∃ e, o'.evicted = o.evicted ++ [e]

/-- The table with room for one more entry. -/
def roomFor (o : OffenderTable) (now : ℕ) : OffenderTable × List ShunSummary :=
  if o.max ≤ (o.table.len : ℤ) then o.makeRoom now else (o, [])

theorem WF.roomFor_shrinks (hwf : o.WF) :
    Shrinks (lost o (o.roomFor now).1 now) o (o.roomFor now).1 := by
  unfold roomFor
  split
  · exact hwf.makeRoom_shrinks _
  · exact .refl hwf

theorem WF.roomFor_evicted (hwf : o.WF) :
    (o.roomFor now).1.evicted = o.evicted ∨
      ∃ e, (o.roomFor now).1.evicted = o.evicted ++ [e] := by
  unfold roomFor
  split
  · exact hwf.makeRoom_evicted _
  · exact .inl rfl

/-- A new entry is pushed into a table that lost only expired entries before. -/
theorem entryFor_push {key : String} {smaller : OffenderTable}
    (hsmaller : Shrinks (fun e ↦ o.expired e now) o smaller) (hevicted : smaller.evicted = o.evicted)
    (hnew : smaller.table.get? key = none) (hstart : o.startEntry key now = { ip := key }) :
    EntryFor o key now
      { (smaller.roomFor now).1 with
        table := (smaller.roomFor now).1.table.pushBack key { ip := key } }
      (smaller.roomFor now).1.table.fresh := by
  have hroom := hsmaller.wf.roomFor_shrinks now
  have hshrinks : Shrinks (lost o (smaller.roomFor now).1 now) o (smaller.roomFor now).1 := by
    apply (hsmaller.mono fun _ ↦ .inl).trans
    apply hroom.mono
    intro e he
    rcases he with hexpired | hlast
    · exact .inl (by rwa [expired_of_config hsmaller.config] at hexpired)
    · exact .inr (by rwa [hevicted] at hlast)
  have hnone : (smaller.roomFor now).1.table.get? key = none := by
    rcases hroom.get? key with hsame | ⟨hnone, _⟩
    · rw [hsame, hnew]
    · exact hnone
  refine ⟨(hroom.wf.pushBack hnone).1, hshrinks.config, hshrinks.nextWin, ?_, ?_, ?_⟩
  · rw [hstart]
    exact (mem_pushBack_iff ..).mpr (.inr rfl)
  · intro other hne
    rw [(hroom.wf.pushBack hnone).2, if_neg hne]
    exact hshrinks.get? _
  · rw [← hevicted]
    exact hsmaller.wf.roomFor_evicted _

theorem WF.entryFor (hwf : o.WF) (key : String) :
    EntryFor o key now (o.entryFor key now).1 (o.entryFor key now).2.1 := by
  unfold OffenderTable.entryFor
  cases hnode : o.table.node? key with
  | none =>
    have hget : o.table.get? key = none := by simp [get?, hnode]
    have hstart : o.startEntry key now = { ip := key } := by simp [startEntry, hget]
    simp only [hnode]
    exact entryFor_push _ (.refl hwf) rfl hget hstart
  | some node =>
    rcases (hwf.table.node?_iff _ _).mp hnode with ⟨hmem, hip⟩
    have hget : o.table.get? key = some node.val := by simp [get?, hnode]
    by_cases hexpired : o.expired node.val now
    · have hremove := hwf.remove_shrinks now hmem
      have hgone : (o.remove node.id now).1.table.get? key = none := by
        rw [(hwf.remove now hmem).2, if_pos hip.symm]
      have hgone' : (o.remove node.id now).1.table.node? key = none := by
        simpa [get?] using hgone
      have hstart : o.startEntry key now = { ip := key } := by simp [startEntry, hget, hexpired]
      simp only [hexpired, if_true, hgone']
      refine entryFor_push _ (hremove.mono fun e he ↦ ?_) (remove_frame ..).evicted hgone hstart
      rw [he]
      exact hexpired
    · have hstart : o.startEntry key now = node.val := by simp [startEntry, hget, hexpired]
      simp only [hexpired, Bool.false_eq_true, if_false, hnode]
      refine ⟨hwf.moveToBack _, rfl, rfl, ?_, ?_, .inl rfl⟩
      · rw [hstart]
        exact (mem_moveToBack_iff ..).mpr hmem
      · intro other _
        exact .inl (hwf.table.get?_moveToBack ..)

/-- An alert of this class with this window opens or extends a shun window. -/
def shuns (o : OffenderTable) (cls : Class) (window : ℤ) : Prop :=
  o.shun = true ∧ cls ≠ .probe ∧ 0 < window

/-- What an alert does to the counted entry `e` of its source: the entry afterwards, the id of the
window the alert opened (0 for none) and the last id in use. -/
inductive Accepts (o : OffenderTable) (e : Offender) (cls : Class) (window : ℤ) (now : ℕ) :
    Offender → ℕ → ℕ → Prop
  | quiet : ¬o.shuns cls window → Accepts o e cls window now e 0 o.nextWin
  | joins : o.shuns cls window → e.shunnedAt now → advance now window ≤ e.shunUntil →
      Accepts o e cls window now e 0 o.nextWin
  | prolongs : o.shuns cls window → e.shunnedAt now → e.shunUntil < advance now window →
      Accepts o e cls window now (e.extendWindow (advance now window) (o.nextWin + 1)) 0
        (o.nextWin + 1)
  | opens : o.shuns cls window → ¬e.shunnedAt now →
      Accepts o e cls window now
        ((if e.active then e.closeWindow else e).openWindow now (advance now window) (o.nextWin + 1))
        (o.nextWin + 1) (o.nextWin + 1)

/-- Window ids grow. -/
theorem Accepts.bounds (haccepts : Accepts o e cls window now after win next)
    (hid : e.winID ≤ o.nextWin) : after.winID ≤ next ∧ win ≤ next ∧ o.nextWin ≤ next := by
  cases haccepts with
  | quiet | joins => exact ⟨hid, Nat.zero_le _, le_rfl⟩
  | prolongs hshuns hrunning hlt => exact ⟨le_rfl, Nat.zero_le _, Nat.le_succ _⟩
  | opens hshuns hidle => exact ⟨le_rfl, le_rfl, Nat.le_succ _⟩

theorem Accepts.counts (haccepts : Accepts o e cls window now after win next) :
    after.counts = e.counts := by
  cases haccepts with
  | quiet | joins | prolongs => rfl
  | opens hshuns hidle =>
    split <;> rfl

section

variable (hwf : o.WF) (hmem : node ∈ o.table.nodes)

include hwf hmem

/-- A write that opens the window of an entry, together with the set of open windows. -/
theorem WF.openWith (f : Offender → Offender) (win : ℕ) (hoff : node.val.active = false)
    (hip : (f node.val).ip = node.val.ip := by rfl) (hon : (f node.val).active = true := by rfl) :
    Rewrites f node o
      { o.update node.id f with nextWin := win, active := o.active ++ [node.id] } where
  table := rfl
  ip := hip
  nodup := by
    apply hwf.active_nodup.append (nodup_singleton _)
    intro id hopen hid
    rw [mem_singleton.mp hid, hwf.mem_active_iff hmem, hoff] at hopen
    exact Bool.false_ne_true hopen
  active := by
    intro id
    split
    · next hid => simp [hid, hon]
    · next hid => simp [hid]
  idle := by
    intro hoff'
    exact absurd (hoff'.symm.trans hon) Bool.false_ne_true

theorem WF.prolongWindow (hon : node.val.active = true) (end' win : ℕ) :
    Rewrites (·.extendWindow end' win) node o
      { o.update node.id (·.extendWindow end' win) with nextWin := win } :=
  { hwf.rewrites hmem (·.extendWindow end' win) rfl
      fun hoff ↦ absurd (hoff.symm.trans hon) Bool.false_ne_true with }

end

theorem shunnedAt_iff {now : ℕ} : e.shunnedAt now = true ↔ e.active = true ∧ now < e.shunUntil := by
  simp [shunnedAt]

/-- One alert that may shun, on the counted entry of its source. -/
theorem WF.shunEntry (hwf : o.WF) (hmem : node ∈ o.table.nodes) (hshuns : o.shuns cls window) :
    ∃ after, Accepts o node.val cls window now after (o.shunEntry node.id window now).2.1
        (o.shunEntry node.id window now).1.nextWin ∧
      (o.shunEntry node.id window now).1.WF ∧
      (o.shunEntry node.id window now).1.config = o.config ∧
      (o.shunEntry node.id window now).1.evicted = o.evicted ∧
      ∀ key, (o.shunEntry node.id window now).1.table.get? key =
        if key = node.val.ip then some after else o.table.get? key := by
  unfold OffenderTable.shunEntry
  simp only [hwf.table.deref_of_mem hmem]
  by_cases hrunning : node.val.shunnedAt now
  · have hopen := shunnedAt_iff.mp hrunning
    have hcond : (node.val.active && decide (now < node.val.shunUntil)) = true := hrunning
    simp only [hcond, if_true]
    by_cases hlonger : node.val.shunUntil < advance now window
    · simp only [hlonger]
      have hwritten := hwf.prolongWindow hmem hopen.1 (advance now window) (o.nextWin + 1)
      exact ⟨_, .prolongs hshuns hrunning hlonger, hwritten.wf hwf hmem, rfl, rfl,
        hwritten.get? hwf hmem⟩
    · simp only [hlonger, if_false]
      refine ⟨_, .joins hshuns hrunning (not_lt.mp hlonger), hwf, trivial, trivial, fun key ↦ ?_⟩
      split
      · next hkey => rw [hkey, hwf.table.get?_of_mem hmem]
      · rfl
  · have hcond : (node.val.active && decide (now < node.val.shunUntil)) = false :=
      Bool.eq_false_iff.mpr hrunning
    simp only [hcond]
    have hopens := Accepts.opens (o := o) (e := node.val) hshuns hrunning
    cases hactive : node.val.active with
    | false =>
      simp only [hactive] at hopens ⊢
      have hwritten := hwf.openWith hmem (·.openWindow now (advance now window) (o.nextWin + 1))
        (o.nextWin + 1) hactive
      exact ⟨_, hopens, hwritten.wf hwf hmem, rfl, rfl, hwritten.get? hwf hmem⟩
    | true =>
      -- The old window has ended but was not closed yet: it is closed first.
      have hended := hwf.endWindow now hmem
      have hwf' := hended.wf hwf hmem
      have hmem' := hended.mem hwf hmem
      have hframe := endWindow_frame (o := o) now node.id
      have hwritten := hwf'.openWith hmem' (·.openWindow now (advance now window) (o.nextWin + 1))
        (o.nextWin + 1) rfl
      simp only [hactive, if_true, hframe.nextWin] at hopens ⊢
      refine ⟨_, hopens, hwritten.wf hwf' hmem', hframe.config, hframe.evicted, fun key ↦ ?_⟩
      refine (hwritten.get? hwf' hmem' key).trans ?_
      rw [hended.get? hwf hmem]
      by_cases hkey : key = node.val.ip <;> simp [hkey, closeWindow]

/-- The table after an accepted alert. -/
structure AcceptedIn (o : OffenderTable) (key : String) (idx : Fin 3) (cls : Class) (window : ℤ)
    (now : ℕ) (o' : OffenderTable) (win : ℕ) : Prop where
  wf : o'.WF
  config : o'.config = o.config
  entry : ∃ after, Accepts o ((o.startEntry key now).record idx now) cls window now after win
    o'.nextWin ∧ o'.table.get? key = some after
  others : ∀ other, other ≠ key → o'.table.get? other = o.table.get? other ∨
    (o'.table.get? other = none ∧ ∃ e, o.table.get? other = some e ∧ lost o o' now e)
  evicted : o'.evicted = o.evicted ∨ ∃ e, o'.evicted = o.evicted ++ [e]

theorem Accepts.congr {now : ℕ} (hconfig : o₂.config = o₁.config) (hnext : o₂.nextWin = o₁.nextWin)
    (haccepts : Accepts o₂ e cls window now after win next) :
    Accepts o₁ e cls window now after win next := by
  have hshuns : o₂.shuns cls window = o₁.shuns cls window := by
    unfold shuns
    rw [shun_of_config hconfig]
  cases haccepts with
  | quiet hquiet => exact hnext ▸ .quiet (hshuns ▸ hquiet)
  | joins hshun hrunning hle => exact hnext ▸ .joins (hshuns ▸ hshun) hrunning hle
  | prolongs hshun hrunning hlt => exact hnext ▸ .prolongs (hshuns ▸ hshun) hrunning hlt
  | opens hshun hidle => exact hnext ▸ .opens (hshuns ▸ hshun) hidle

theorem WF.acceptLocked (hwf : o.WF) (key : String) (idx : Fin 3) (cls : Class) (window : ℤ) :
    AcceptedIn o key idx cls window now (o.acceptLocked key idx cls window now).1
      (o.acceptLocked key idx cls window now).2.1 := by
  have hentry := hwf.entryFor now key
  have hip := hwf.startEntry_ip now key
  -- `recorded` is the table with the alert counted, before any window is touched.
  let recorded := (o.entryFor key now).1.update (o.entryFor key now).2.1 (·.record idx now)
  have hwritten : Rewrites _ _ _ recorded :=
    hentry.wf.rewrites hentry.mem (·.record idx now) rfl fun _ ↦ ⟨rfl, rfl⟩
  have hrecorded := hwritten.wf hentry.wf hentry.mem
  have hget (other : String) : recorded.table.get? other =
      if other = key then some ((o.startEntry key now).record idx now)
      else (o.entryFor key now).1.table.get? other := by
    simpa only [hip] using hwritten.get? hentry.wf hentry.mem other
  have hmem := hwritten.mem hentry.wf hentry.mem
  have hshun : recorded.shun = o.shun := shun_of_config hentry.config
  unfold OffenderTable.acceptLocked
  by_cases hquiet : (!o.shun || cls == .probe || decide (window ≤ 0)) = true
  · simp only [hquiet, if_true]
    refine ⟨hrecorded, hentry.config, ⟨_, .congr hentry.config hentry.nextWin (.quiet ?_), ?_⟩,
      ?_, hentry.evicted⟩
    · intro hshuns
      rcases hshuns with ⟨hon, hcls, hwindow⟩
      rw [shun_of_config hentry.config] at hon
      simp [hon, hcls] at hquiet
      omega
    · rw [hget, if_pos rfl]
    · intro other hne
      have hother := hentry.others other hne
      rw [← show recorded.table.get? other = _ from (hget other).trans (if_neg hne)] at hother
      exact hother
  · have hshuns : recorded.shuns cls window := by
      simp only [Bool.or_eq_true, Bool.not_eq_true', beq_iff_eq, decide_eq_true_eq, not_or,
        Bool.not_eq_false, Int.not_le] at hquiet
      exact ⟨hshun.trans hquiet.1.1, hquiet.1.2, hquiet.2⟩
    simp only [hquiet, Bool.false_eq_true, if_false]
    have hconfig : recorded.config = o.config := hentry.config
    have hnext : recorded.nextWin = o.nextWin := hentry.nextWin
    rcases hrecorded.shunEntry now hmem hshuns with
      ⟨after, haccepts, hafter, hafterConfig, hevicted, hentries⟩
    simp only [show ((o.startEntry ..).record idx now).ip = key from hip] at hentries
    refine ⟨hafter, hafterConfig.trans hconfig, ⟨after, haccepts.congr hconfig hnext, ?_⟩, ?_, ?_⟩
    · exact (hentries key).trans (if_pos rfl)
    · intro other hne
      have hother := hentry.others other hne
      have hsame : (recorded.shunEntry (o.entryFor key now).2.1 window now).1.table.get? other =
          (o.entryFor key now).1.table.get? other := by
        rw [hentries, if_neg hne, hget, if_neg hne]
      rw [← hsame] at hother
      unfold lost at hother ⊢
      rw [hevicted]
      exact hother
    · rw [hevicted]
      exact hentry.evicted

end RanHoneypot.Alert.OffenderTable
