import RanHoneypot.Data.TimedRun
import RanHoneypot.Alert.Scan

/-!
# What the scan tracker answers

The answers of the tracker are compared with the history of touches. Every protocol and port in an
entry was really touched by its source within the window, so the tracker never makes a scanner out
of a source that is none. In the other direction a source that was not evicted is recognised by its
protocols, and by its ports as long as no port of the window was skipped because 16 live ones were
remembered already. A skipped port does matter: the 16 ports may expire before it does.
-/

namespace RanHoneypot.Alert

open TimedRun List RecentMap IndexedList.WF IndexedList ScanTracker

/-! ## One touch -/

namespace ScanTracker

variable {s : ScanTracker} {ip : String} {now : ℕ}

def WF (s : ScanTracker) : Prop := s.table.WF ScanEntry.ip

def entries (s : ScanTracker) : List ScanEntry := s.table.vals

/-- The entry that a touch of `ip` is recorded in, before it is recorded. -/
def startEntry (s : ScanTracker) (ip : String) : ScanEntry := (s.table.get? ip).getD { ip := ip }

/-- The settings of a tracker: its window, its two limits and its capacity. -/
def limits (s : ScanTracker) : ℤ × ℤ × ℤ × ℤ := (s.window, s.threshold, s.portLimit, s.maxEntries)

/-- `s'` is `s` with the entry of `ip` replaced by `e`, which is the newest now. -/
structure Touches (s : ScanTracker) (ip : String) (e : ScanEntry) (now : ℕ) (s' : ScanTracker) : Prop where
  wf : s'.WF
  limits : s'.limits = s.limits
  order : ∃ others, s'.entries = others ++ [e] ∧ others.Sublist s.entries ∧ ∀ x ∈ others, x.ip ≠ ip
  keeps : ∀ x ∈ s.entries, x.ip ≠ ip → x ∈ s'.entries ∨ s.stale now x = true ∨ x ∈ s'.evicted
  evicted : ∀ x ∈ s.evicted, x ∈ s'.evicted
  bound : 0 < s.maxEntries → (s.entries.length : ℤ) ≤ s.maxEntries →
    (s'.entries.length : ℤ) ≤ s.maxEntries

/-- A tracker with room for one more entry, or with an entry for `ip` already. -/
structure Room (s : ScanTracker) (now : ℕ) (s' : ScanTracker) : Prop where
  wf : s'.WF
  limits : s'.limits = s.limits
  sublist : s'.entries.Sublist s.entries
  keeps : ∀ x ∈ s.entries, x ∈ s'.entries ∨ s.stale now x = true ∨ x ∈ s'.evicted
  evicted : ∀ x ∈ s.evicted, x ∈ s'.evicted

theorem WF.room_self (hwf : s.WF) (now : ℕ) : Room s now s :=
  ⟨hwf, rfl, List.Sublist.refl _, fun _ hx ↦ .inl hx, fun _ hx ↦ hx⟩

theorem WF.room_makeRoom (hwf : s.WF) (now : ℕ) : Room s now (s.makeRoom now) := by
  have hdrops := makeRoom_drops hwf (s.stale now) s.maxEntries
  refine ⟨hdrops.wf, rfl, hdrops.sublist, fun x hx ↦ ?_, fun x hx ↦ ?_⟩
  · rcases hdrops.keeps x hx with hin | hstale | hvictim
    · exact .inl hin
    · exact .inr (.inl hstale)
    · exact .inr (.inr (by simp [makeRoom, hvictim]))
  · exact mem_append_left _ hx

/-- Recording the touch in the entry `node` of `found`, the tracker with an entry for `ip`. -/
theorem touches_of_entry (found : ScanTracker) {node : Node ScanEntry} (protocol : String)
    (port : ℤ) (hwf : found.WF)
    (hmem : node ∈ found.table.nodes) (hip : node.val.ip = ip) (hlimits : found.limits = s.limits)
    (hothers : (found.table.remove ip node.id).vals.Sublist s.entries)
    (hkeeps : ∀ x ∈ s.entries, x.ip ≠ ip →
      x ∈ found.entries ∨ s.stale now x = true ∨ x ∈ found.evicted)
    (hevicted : ∀ x ∈ s.evicted, x ∈ found.evicted)
    (hbound : 0 < s.maxEntries → (s.entries.length : ℤ) ≤ s.maxEntries →
      (found.entries.length : ℤ) ≤ s.maxEntries) :
    Touches s ip (node.val.touch s.window protocol port now) now
      { found with table := (found.table.modify node.id
          (·.touch s.window protocol port now)).moveToBack node.id } := by
  have hvals := vals_modify_moveToBack hwf hmem (·.touch s.window protocol port now)
  have hrest (x : ScanEntry) (hx : x ∈ (found.table.remove ip node.id).vals) : x.ip ≠ ip := by
    rw [← hip] at hx ⊢
    exact key_ne_of_mem_remove hwf hmem hx
  refine ⟨?_, hlimits, ⟨_, hvals, hothers, hrest⟩, ?_, hevicted, ?_⟩
  · exact (hwf.modify _ fun _ _ _ ↦ rfl).moveToBack node.id
  · intro x hx hne
    rcases hkeeps x hx hne with hin | hgone
    · have hremove := (mem_vals_remove_iff hwf hmem x).mpr
        ⟨hin, fun heq ↦ hne (by rw [heq, hip])⟩
      refine .inl ?_
      change x ∈ ((found.table.modify ..).moveToBack node.id).vals
      rw [hvals]
      exact mem_append_left _ hremove
    · exact .inr hgone
  · intro hpos hold
    change ((((found.table.modify ..).moveToBack node.id).vals.length : ℕ) : ℤ) ≤ _
    rw [length_modify_moveToBack]
    exact hbound hpos hold

/-- A new entry for `ip` in a tracker with room for it. -/
theorem touches_of_push {room : ScanTracker} (protocol : String) (port : ℤ) (hroom : Room s now room)
    (hnone : ∀ x ∈ s.entries, x.ip ≠ ip)
    (hbound : 0 < s.maxEntries → (s.entries.length : ℤ) ≤ s.maxEntries →
      (room.entries.length : ℤ) < s.maxEntries) :
    ⟨room.table.fresh, { ip := ip }⟩ ∈ (room.table.pushBack ip { ip := ip }).nodes ∧
    (room.table.pushBack ip { ip := ip }).WF ScanEntry.ip ∧
    Touches s ip (ScanEntry.touch { ip := ip } s.window protocol port now) now
      { room with table := ((room.table.pushBack ip { ip := ip }).modify room.table.fresh
          (·.touch s.window protocol port now)).moveToBack room.table.fresh } := by
  have hmem : ⟨room.table.fresh, { ip := ip }⟩ ∈ (room.table.pushBack ip { ip := ip }).nodes :=
    (IndexedList.mem_pushBack_iff ..).mpr (.inr rfl)
  have hkeys : ∀ node ∈ room.table.nodes, node.val.ip ≠ ({ ip := ip } : ScanEntry).ip :=
    fun node hnode ↦ hnone _ (hroom.sublist.subset (IndexedList.mem_vals_iff.mpr ⟨node, hnode, rfl⟩))
  have hwf : (room.table.pushBack ip { ip := ip }).WF ScanEntry.ip :=
    pushBack hroom.wf hkeys
  refine ⟨hmem, hwf, ?_⟩
  refine touches_of_entry { room with table := room.table.pushBack ip { ip := ip } } protocol port
    hwf hmem rfl hroom.limits ?_ ?_ hroom.evicted ?_
  · rw [remove_pushBack_vals hroom.wf]
    exact hroom.sublist
  · intro x hx _
    rcases hroom.keeps x hx with hin | hgone
    · exact .inl ((IndexedList.mem_vals_pushBack_iff ..).mpr (.inl hin))
    · exact .inr hgone
  · intro hpos hold
    have hlength : (room.table.pushBack ip { ip := ip }).vals.length = room.entries.length + 1 := by
      simp [IndexedList.vals, IndexedList.pushBack, entries]
    change (((room.table.pushBack ip { ip := ip }).vals.length : ℕ) : ℤ) ≤ _
    omega

/-- What a touch does to the tracker, and what it answers. -/
theorem WF.touchPort (hwf : s.WF) (ip protocol : String) (port : ℤ) (now : ℕ) :
    (s.touchPort ip protocol port now).1 =
      s.verdict ((s.startEntry ip).touch s.window protocol port now) ∧
    Touches s ip ((s.startEntry ip).touch s.window protocol port now) now
      (s.touchPort ip protocol port now).2 := by
  -- The answer is read from the entry that was just written.
  have hanswer {table : IndexedList String ScanEntry} {node : Node ScanEntry}
      (htable : table.WF ScanEntry.ip) (hmem : node ∈ table.nodes) :
      ((table.modify node.id (·.touch s.window protocol port now)).moveToBack node.id).deref
        node.id = some (node.val.touch s.window protocol port now) := by
    have htouched := (htable.modify node.id
      (f := (·.touch s.window protocol port now)) fun _ _ _ ↦ rfl).moveToBack node.id
    rw [htouched.deref_iff, mem_moveToBack_iff, mem_modify_iff]
    exact ⟨node, hmem, if_pos rfl⟩
  unfold ScanTracker.touchPort entryFor startEntry
  cases hnode : s.table.node? ip with
  | some node =>
    rcases (node?_iff hwf ip _).mp hnode with ⟨hmem, hip⟩
    have hget : s.table.get? ip = some node.val := by simp [get?, hnode]
    simp only [hget, Option.getD_some, hanswer hwf hmem, true_and]
    exact touches_of_entry s _ _ hwf hmem hip rfl (filter_sublist.map _)
      (fun x hx _ ↦ .inl hx) (fun x hx ↦ hx) (fun _ h ↦ h)
  | none =>
    have hget : s.table.get? ip = none := by simp [get?, hnode]
    have hnone : ∀ x ∈ s.entries, x.ip ≠ ip := (get?_eq_none_iff hwf ip).mp hget
    simp only [hget]
    generalize hchoice : (if s.maxEntries ≤ (s.table.len : ℤ) then s.makeRoom now else s) = room
    have hroom : Room s now room ∧ (0 < s.maxEntries → (s.entries.length : ℤ) ≤ s.maxEntries →
        (room.entries.length : ℤ) < s.maxEntries) := by
      rw [← hchoice]
      split
      · exact ⟨hwf.room_makeRoom _, fun hpos hold ↦ length_makeRoom hwf (s.stale _) hpos hold⟩
      · next hfull =>
        rw [hwf.len_eq] at hfull
        exact ⟨hwf.room_self _, fun _ _ ↦ Int.not_le.mp hfull⟩
    rcases touches_of_push protocol port hroom.1 hnone hroom.2 with ⟨hmem, hpush, htouches⟩
    rw [hanswer hpush hmem]
    exact ⟨rfl, htouches⟩

theorem WF.cleanup_drops (hwf : s.WF) (now : ℕ) :
    s.table.Drops ScanEntry.ip (fun e ↦ s.stale now e = true) (s.cleanup now).table :=
  sweepFront_drops hwf _

end ScanTracker

/-! ## Histories -/

/-- One call of `touchPort`. `skipped` says that its port was not remembered. -/
structure Touch where
  ip : String
  protocol : String
  port : ℤ
  touchedAt : ℕ
  skipped : Bool
deriving DecidableEq

inductive ScanOp where
  | touchPort (ip protocol : String) (port : ℤ) (now : ℕ)
  | cleanup (now : ℕ)

variable (trace : List Touch) (ip : String) (window : ℤ) (now : ℕ)

def ScanOp.time : ScanOp → ℕ
  | touchPort _ _ _ now => now
  | cleanup now => now

/-- A positive port for which there is no room among the live ports of its source. -/
def ScanTracker.skips (s : ScanTracker) (ip : String) (port : ℤ) (now : ℕ) : Bool :=
  decide (0 < port) && !(s.startEntry ip).accepts s.window port now

/-- The tracker and the touches so far, oldest first. -/
structure ScanRun where
  tracker : ScanTracker
  trace : List Touch

def ScanRun.step (r : ScanRun) : ScanOp → ScanRun
  | .touchPort ip protocol port now =>
    { tracker := (r.tracker.touchPort ip protocol port now).2
      trace := r.trace ++ [⟨ip, protocol, port, now, r.tracker.skips ip port now⟩] }
  | .cleanup now => { r with tracker := r.tracker.cleanup now }

/-- A run of a new tracker with the real protocol and port limits. -/
def scanAfter (maxEntries : ℤ) (ops : List ScanOp) : ScanRun :=
  run ScanRun.step ⟨newScanTracker window scanProtocols maxEntries, []⟩ ops

/-- The distinct protocols that `ip` touched strictly within the last window. -/
def recentProtocols : Finset String :=
  ((trace.filter fun t ↦ t.ip = ip ∧ since now t.touchedAt < window).map Touch.protocol).toFinset

/-- The distinct positive ports that `ip` touched strictly within the last window. -/
def recentPorts : Finset ℤ :=
  ((trace.filter fun t ↦ t.ip = ip ∧ 0 < t.port ∧ since now t.touchedAt < window).map
    Touch.port).toFinset

/-- The time at which `ip` was touched last. -/
def lastTouch : Option ℕ :=
  (trace.filter fun t ↦ t.ip = ip).getLast?.map Touch.touchedAt

section

variable {trace : List Touch} {ip : String} {window : ℤ} {now : ℕ}

theorem mem_recentProtocols {protocol : String} :
    protocol ∈ recentProtocols trace ip window now ↔
      ∃ t ∈ trace, t.ip = ip ∧ since now t.touchedAt < window ∧ t.protocol = protocol := by
  simp [recentProtocols, and_assoc]

theorem mem_recentPorts {port : ℤ} :
    port ∈ recentPorts trace ip window now ↔
      ∃ t ∈ trace, t.ip = ip ∧ 0 < t.port ∧ since now t.touchedAt < window ∧ t.port = port := by
  simp [recentPorts, and_assoc]

theorem lastTouch_append_self (t : Touch) (hip : t.ip = ip) :
    lastTouch (trace ++ [t]) ip = some t.touchedAt := by
  simp [lastTouch, hip]

theorem lastTouch_append_other (t : Touch) (hip : t.ip ≠ ip) :
    lastTouch (trace ++ [t]) ip = lastTouch trace ip := by
  simp [lastTouch, hip]

end

/-! ## Soundness and bounds -/

/-- Everything in the entry was touched by its source, and the port set is capped. -/
structure Backed (trace : List Touch) (e : ScanEntry) : Prop where
  touched : ∀ protocol t, e.touched.lookup protocol = some t →
    ∃ x ∈ trace, x.ip = e.ip ∧ x.protocol = protocol ∧ x.touchedAt = t
  ports : ∀ port t, e.ports.lookup port = some t →
    0 < port ∧ ∃ x ∈ trace, x.ip = e.ip ∧ x.port = port ∧ x.touchedAt = t
  size : e.ports.size ≤ maxScanPorts

section

variable {trace : List Touch} {e : ScanEntry} {window port : ℤ} {protocol : String} {now : ℕ}

theorem backed_new : Backed trace { ip := ip } where
  touched := fun _ _ h ↦ by simp at h
  ports := fun _ _ h ↦ by simp at h
  size := Nat.zero_le _

theorem Backed.append (hbacked : Backed trace e) (new : Touch) : Backed (trace ++ [new]) e where
  touched := by
    intro protocol t h
    rcases hbacked.touched protocol t h with ⟨x, hx, hmatch⟩
    exact ⟨x, mem_append_left _ hx, hmatch⟩
  ports := by
    intro port t h
    rcases hbacked.ports port t h with ⟨hpos, x, hx, hmatch⟩
    exact ⟨hpos, x, mem_append_left _ hx, hmatch⟩
  size := hbacked.size

theorem accepts_iff : e.accepts window port now = true ↔
    0 < port ∧ (port ∈ e.livePorts window now ∨ (e.livePorts window now).size < maxScanPorts) := by
  simp [ScanEntry.accepts]

/-- The ports after a touch are the new one, if there was room for it, and those that are live. -/
theorem lookup_touch_ports {other : ℤ} {t : ℕ} :
    (e.touch window protocol port now).ports.lookup other = some t ↔
      (e.accepts window port now = true ∧ other = port ∧ t = now) ∨
        ((e.accepts window port now = true → other ≠ port) ∧ e.ports.lookup other = some t ∧
          since now t < window) := by
  rw [← lookup_expire_iff]
  cases haccepts : e.accepts window port now with
  | false => simp [ScanEntry.touch, haccepts, ScanEntry.livePorts]
  | true => simp [ScanEntry.touch, haccepts, ScanEntry.livePorts, lookup_touch_iff]

theorem Backed.touch (hbacked : Backed trace e) (window port : ℤ) (protocol : String) (now : ℕ)
    (skipped : Bool) :
    Backed (trace ++ [⟨e.ip, protocol, port, now, skipped⟩]) (e.touch window protocol port now) where
  touched := by
    intro other t h
    rcases ((lookup_expire_iff _ t).mp h) with ⟨htouch, _⟩
    rcases (lookup_touch_iff _ _ _ t).mp htouch with ⟨rfl, rfl⟩ | ⟨_, hold⟩
    · exact ⟨_, mem_append_right _ (mem_singleton_self _), rfl, rfl, rfl⟩
    · exact (hbacked.append _).touched other t hold
  ports := by
    intro other t h
    rcases lookup_touch_ports.mp h with ⟨haccepts, rfl, rfl⟩ | ⟨_, hold, _⟩
    · exact ⟨(accepts_iff.mp haccepts).1, _,
        mem_append_right _ (mem_singleton_self _), rfl, rfl, rfl⟩
    · exact (hbacked.append _).ports other t hold
  size := by
    have hexpire := (size_expire_le _ window now).trans hbacked.size
    cases haccepts : e.accepts window port now with
    | false =>
      simp only [ScanEntry.touch, haccepts]
      exact hexpire
    | true =>
      simp only [ScanEntry.touch, haccepts, if_true]
      rcases (accepts_iff.mp haccepts).2 with hknown | hroom
      · rw [size_touch_of_mem hknown]
        exact hexpire
      · exact (size_touch_le ..).trans hroom

/-- The protocols of a touched entry were touched within the window. -/
theorem Backed.protocols_subset (hbacked : Backed trace (e.touch window protocol port now)) :
    (e.touch window protocol port now).touched.keySet ⊆
      recentProtocols trace e.ip window now := by
  intro other hother
  rcases (mem_keySet_iff _).mp hother with ⟨t, ht⟩
  have hlive := ((lookup_expire_iff _ t).mp ht).2
  rcases hbacked.touched other t ht with ⟨x, hx, hip, hprotocol, htime⟩
  exact mem_recentProtocols.mpr ⟨x, hx, hip, htime ▸ hlive, hprotocol⟩

theorem Backed.ports_subset (hbacked : Backed trace (e.touch window protocol port now))
    (hwindow : 0 < window) :
    (e.touch window protocol port now).ports.keySet ⊆ recentPorts trace e.ip window now := by
  intro other hother
  rcases (mem_keySet_iff _).mp hother with ⟨t, ht⟩
  have hlive : since now t < window := by
    rcases lookup_touch_ports.mp ht with ⟨_, _, rfl⟩ | ⟨_, _, hlive⟩
    · unfold since
      omega
    · exact hlive
  rcases hbacked.ports other t ht with ⟨hpos, x, hx, hip, hport, htime⟩
  exact mem_recentPorts.mpr ⟨x, hx, hip, hport ▸ hpos, htime ▸ hlive, hport⟩

end

/-- What holds of the tracker along every run, whatever is evicted. -/
structure ScanRun.Inv (window maxEntries : ℤ) (now : ℕ) (r : ScanRun) : Prop where
  wf : r.tracker.WF
  limits : r.tracker.limits = (window, scanProtocols, scanPorts, maxEntries)
  order : r.tracker.entries.Pairwise fun x y ↦ x.last ≤ y.last
  last_le : ∀ e ∈ r.tracker.entries, e.last ≤ now
  bound : (r.tracker.entries.length : ℤ) ≤ maxEntries
  last : ∀ e ∈ r.tracker.entries, lastTouch r.trace e.ip = some e.last
  backed : ∀ e ∈ r.tracker.entries, Backed r.trace e

namespace ScanRun

variable {window maxEntries : ℤ} {now later : ℕ} {r : ScanRun}

theorem start_inv (hcapacity : 0 < maxEntries) :
    Inv window maxEntries 0 ⟨newScanTracker window scanProtocols maxEntries, []⟩ where
  wf := empty_wf
  limits := rfl
  order := List.Pairwise.nil
  last_le := nofun
  bound := le_of_lt hcapacity
  last := nofun
  backed := nofun

section

variable (hinv : Inv window maxEntries now r)

include hinv

theorem Inv.window_eq : r.tracker.window = window := congrArg (·.1) hinv.limits

theorem Inv.wait (hle : now ≤ later) : Inv window maxEntries later r :=
  { hinv with last_le := fun e he ↦ (hinv.last_le e he).trans hle }

theorem Inv.backed_startEntry :
    (r.tracker.startEntry ip).ip = ip ∧ Backed r.trace (r.tracker.startEntry ip) := by
  unfold startEntry
  cases hget : r.tracker.table.get? ip with
  | none => exact ⟨rfl, backed_new ..⟩
  | some e =>
    rcases (get?_iff hinv.wf ip e).mp hget with ⟨hmem, hip⟩
    exact ⟨hip, hinv.backed e hmem⟩

theorem Inv.touchPort (hcapacity : 0 < maxEntries) (ip protocol : String) (port : ℤ) :
    Inv window maxEntries now (r.step (.touchPort ip protocol port now)) := by
  have htouches := (hinv.wf.touchPort ip protocol port now).2
  rcases hinv.backed_startEntry ip with ⟨hip, hstart⟩
  rcases htouches.order with ⟨others, hentries, hsublist, hothers⟩
  -- The entry of the touched source is the last one; all others were there before.
  have hmem {x : ScanEntry}
      (hx : x ∈ (r.step (.touchPort ip protocol port now)).tracker.entries) :
      (x ∈ r.tracker.entries ∧ x.ip ≠ ip) ∨
        x = (r.tracker.startEntry ip).touch r.tracker.window protocol port now := by
    change x ∈ (r.tracker.touchPort ip ..).2.entries at hx
    rw [hentries, mem_append, mem_singleton] at hx
    rcases hx with hold | hnew
    · exact .inl ⟨hsublist.subset hold, hothers x hold⟩
    · exact .inr hnew
  have hmax : r.tracker.maxEntries = maxEntries := congrArg (·.2.2.2) hinv.limits
  refine ⟨htouches.wf, htouches.limits.trans hinv.limits, ?_, ?_, ?_, ?_, ?_⟩
  · change (r.tracker.touchPort ip ..).2.entries.Pairwise _
    rw [hentries]
    refine pairwise_append.mpr ⟨hinv.order.sublist hsublist, pairwise_singleton _ _, ?_⟩
    intro x hx y hy
    rw [mem_singleton.mp hy]
    exact hinv.last_le x (hsublist.subset hx)
  · intro x hx
    rcases hmem hx with ⟨hold, _⟩ | rfl
    · exact hinv.last_le x hold
    · exact le_rfl
  · have hbound := htouches.bound (hmax ▸ hcapacity) (hmax ▸ hinv.bound)
    rw [hmax] at hbound
    exact hbound
  · intro x hx
    rcases hmem hx with ⟨hold, hne⟩ | rfl
    · exact (lastTouch_append_other _ (Ne.symm hne)).trans (hinv.last x hold)
    · exact lastTouch_append_self _ hip.symm
  · intro x hx
    rcases hmem hx with ⟨hold, _⟩ | rfl
    · exact (hinv.backed x hold).append _
    · have hbacked := hstart.touch r.tracker.window port protocol now (r.tracker.skips ip port now)
      rwa [hip] at hbacked

end

theorem Inv.step {op : ScanOp} (hinv : Inv window maxEntries op.time r) (hcapacity : 0 < maxEntries) :
    Inv window maxEntries op.time (r.step op) := by
  cases op with
  | touchPort ip protocol port now => exact hinv.touchPort hcapacity ip ..
  | cleanup now =>
    have hdrops := hinv.wf.cleanup_drops now
    have hlength := hdrops.sublist.length_le
    refine ⟨hdrops.wf, hinv.limits, hinv.order.sublist hdrops.sublist, ?_, ?_, ?_, ?_⟩
    · exact fun e he ↦ hinv.last_le e (hdrops.mem he)
    · exact le_trans (Int.ofNat_le.mpr hlength) hinv.bound
    · exact fun e he ↦ hinv.last e (hdrops.mem he)
    · exact fun e he ↦ hinv.backed e (hdrops.mem he)

end ScanRun

theorem scanAfter_inv {maxEntries : ℤ} (hcapacity : 0 < maxEntries) {ops : List ScanOp} {now : ℕ}
    (hclock : Clock ScanOp.time 0 ops now) :
    ScanRun.Inv window maxEntries now (scanAfter window maxEntries ops) :=
  run_invariant (ScanRun.Inv window maxEntries) (fun _ _ _ hle h ↦ h.wait hle)
    (fun _ _ _ h ↦ h.step hcapacity) hclock (along_of_forall fun _ _ ↦ trivial)
    (ScanRun.start_inv hcapacity)

theorem scanAfter_concat (maxEntries : ℤ) (ops : List ScanOp) (op : ScanOp) :
    scanAfter window maxEntries (ops ++ [op]) = (scanAfter window maxEntries ops).step op := by
  unfold scanAfter
  rw [run_append]
  rfl

theorem ScanRun.Inv.verdict_iff {window maxEntries : ℤ} {now : ℕ} {r : ScanRun}
    (hinv : ScanRun.Inv window maxEntries now r) (e : ScanEntry) :
    r.tracker.verdict e = true ↔ 3 ≤ e.touched.keySet.card ∨ 5 ≤ e.ports.keySet.card := by
  have hthreshold : r.tracker.threshold = 3 := congrArg (·.2.1) hinv.limits
  have hports : r.tracker.portLimit = 5 := congrArg (·.2.2.1) hinv.limits
  unfold verdict
  rw [Bool.or_eq_true, decide_eq_true_eq, decide_eq_true_eq,
    card_keySet, card_keySet]
  omega

/-- No source is taken for a scanner that is none, and the tracker stays in order and bounded. -/
theorem scan_sound_and_bounded (window maxEntries : ℤ) (hwindow : 0 < window)
    (hcapacity : 0 < maxEntries) (ops : List ScanOp) (now : ℕ)
    (hclock : Clock ScanOp.time 0 ops now) :
    (∀ (ip protocol : String) (port : ℤ),
      ((scanAfter window maxEntries ops).tracker.touchPort ip protocol port now).1 = true →
        3 ≤ (recentProtocols (scanAfter window maxEntries
          (ops ++ [.touchPort ip protocol port now])).trace ip window now).card ∨
        5 ≤ (recentPorts (scanAfter window maxEntries
          (ops ++ [.touchPort ip protocol port now])).trace ip window now).card) ∧
    (scanAfter window maxEntries ops).tracker.table.index.keys.Perm
      ((scanAfter window maxEntries ops).tracker.entries.map ScanEntry.ip) ∧
    (scanAfter window maxEntries ops).tracker.entries.Pairwise (fun x y ↦ x.last ≤ y.last) ∧
    ((scanAfter window maxEntries ops).tracker.entries.length : ℤ) ≤ maxEntries ∧
    ∀ e ∈ (scanAfter window maxEntries ops).tracker.entries,
      lastTouch (scanAfter window maxEntries ops).trace e.ip = some e.last ∧ e.ports.size ≤ 16 := by
  have hinv := scanAfter_inv window hcapacity hclock
  refine ⟨fun ip protocol port hscan ↦ ?_, hinv.wf.keys_perm, hinv.order, hinv.bound,
    fun e he ↦ ⟨hinv.last e he, (hinv.backed e he).size⟩⟩
  rcases hinv.backed_startEntry ip with ⟨hip, hstart⟩
  have hbacked := hstart.touch window port protocol now
    ((scanAfter window maxEntries ops).tracker.skips ip port now)
  have hprotocols := hbacked.protocols_subset
  have hports := hbacked.ports_subset hwindow
  rw [(hinv.wf.touchPort ip ..).1, hinv.verdict_iff, hinv.window_eq] at hscan
  rw [hip] at hprotocols hports
  rw [scanAfter_concat]
  rcases hscan with hscan | hscan
  · exact .inl (hscan.trans (Finset.card_le_card hprotocols))
  · exact .inr (hscan.trans (Finset.card_le_card hports))

/-- Three protocols within the window, in a tracker with a single slot. -/
def threeProtocols : List ScanOp :=
  [.touchPort "9.9.9.9" "ssh" 22 0, .touchPort "8.8.8.8" "ssh" 22 1, .touchPort "8.8.8.8" "ftp" 21 2]

theorem scan_sound_and_bounded_three :
    ((scanAfter scanWindow 1 threeProtocols).tracker.touchPort "8.8.8.8" "http" 80 3).1 = true ∧
    (3 ≤ (recentProtocols (scanAfter scanWindow 1
        (threeProtocols ++ [.touchPort "8.8.8.8" "http" 80 3])).trace "8.8.8.8" scanWindow 3).card ∨
      5 ≤ (recentPorts (scanAfter scanWindow 1
        (threeProtocols ++ [.touchPort "8.8.8.8" "http" 80 3])).trace "8.8.8.8" scanWindow 3).card) ∧
    ((scanAfter scanWindow 1 threeProtocols).tracker.entries.length : ℤ) ≤ 1 := by
  have hlaw := scan_sound_and_bounded scanWindow 1 (by decide) (by decide) threeProtocols 3
    (by decide)
  have hscan : ((scanAfter scanWindow 1 threeProtocols).tracker.touchPort "8.8.8.8" "http" 80 3).1 =
      true := by decide
  exact ⟨hscan, hlaw.1 _ "http" 80 hscan, hlaw.2.2.2.1⟩

/-! ## Completeness -/

/-- The entry knows about the touch, or about a later touch of the same protocol and port. -/
def Holds (e : ScanEntry) (x : Touch) : Prop :=
  (∃ t, x.touchedAt ≤ t ∧ e.touched.lookup x.protocol = some t) ∧
    (0 < x.port → x.skipped = false → ∃ t, x.touchedAt ≤ t ∧ e.ports.lookup x.port = some t)

section

variable {e : ScanEntry} {window port : ℤ} {protocol : String} {now : ℕ}

theorem since_lt_of_le {earlier t : ℕ} (hle : earlier ≤ t) (hlive : since now earlier < window) :
    since now t < window := by
  unfold since at *
  omega

/-- A touch does not make the entry forget another one that is inside the window. -/
theorem Holds.touch {x : Touch} (hholds : Holds e x) (htime : x.touchedAt ≤ now)
    (hlive : since now x.touchedAt < window) : Holds (e.touch window protocol port now) x := by
  have hnow := since_lt_of_le htime hlive
  refine ⟨?_, fun hpos hkept ↦ ?_⟩
  · rcases hholds.1 with ⟨t, hle, ht⟩
    have hlive' := since_lt_of_le hle hlive
    by_cases hsame : x.protocol = protocol
    · exact ⟨now, htime, (lookup_expire_iff ..).mpr
        ⟨(lookup_touch_iff ..).mpr (.inl ⟨hsame, rfl⟩), hnow⟩⟩
    · exact ⟨t, hle, (lookup_expire_iff ..).mpr
        ⟨(lookup_touch_iff ..).mpr (.inr ⟨hsame, ht⟩), hlive'⟩⟩
  · rcases hholds.2 hpos hkept with ⟨t, hle, ht⟩
    by_cases hsame : e.accepts window port now = true ∧ x.port = port
    · exact ⟨now, htime, lookup_touch_ports.mpr (.inl ⟨hsame.1, hsame.2, rfl⟩)⟩
    · exact ⟨t, hle, lookup_touch_ports.mpr
        (.inr ⟨not_and.mp hsame, ht, since_lt_of_le hle hlive⟩)⟩

/-- The entry knows about the touch that was just recorded. -/
theorem holds_touch_self (hwindow : 0 < window) (ip : String) {skipped : Bool}
    (hskipped : 0 < port → skipped = false → e.accepts window port now = true) :
    Holds (e.touch window protocol port now) ⟨ip, protocol, port, now, skipped⟩ := by
  have hnow : since now now < window := by
    unfold since
    omega
  refine ⟨⟨now, le_rfl, ?_⟩, fun hpos hkept ↦ ⟨now, le_rfl, ?_⟩⟩
  · exact (lookup_expire_iff ..).mpr
      ⟨(lookup_touch_iff ..).mpr (.inl ⟨rfl, rfl⟩), hnow⟩
  · exact lookup_touch_ports.mpr (.inl ⟨hskipped hpos hkept, rfl, rfl⟩)

end

/-- The touches of a source that was never evicted are remembered for the length of the window. -/
structure ScanRun.Remembers (window : ℤ) (now : ℕ) (r : ScanRun) : Prop where
  time : ∀ x ∈ r.trace, x.touchedAt ≤ now
  last : ∀ x ∈ r.trace, ∀ e ∈ r.tracker.entries, e.ip = x.ip → x.touchedAt ≤ e.last
  entry : ∀ x ∈ r.trace, (∀ e ∈ r.tracker.evicted, e.ip ≠ x.ip) →
    since now x.touchedAt < window → ∃ e, r.tracker.table.get? x.ip = some e ∧ Holds e x

namespace ScanRun

variable {window maxEntries : ℤ} {now later : ℕ} {r : ScanRun}

theorem Remembers.wait (hr : Remembers window now r) (hle : now ≤ later) :
    Remembers window later r where
  time := fun x hx ↦ (hr.time x hx).trans hle
  last := hr.last
  entry := by
    intro x hx hkept hlive
    exact hr.entry x hx hkept (lt_of_le_of_lt (since_mono hle) hlive)

/-- A stale entry has no touch inside the window. -/
theorem not_stale {x : Touch} {e : ScanEntry} (hlimit : r.tracker.window = window)
    (hle : x.touchedAt ≤ e.last) (hlive : since now x.touchedAt < window) :
    r.tracker.stale now e = false := by
  unfold stale
  rw [hlimit, decide_eq_true (since_lt_of_le hle hlive)]
  rfl

/-- The entry of a source that was just touched. -/
theorem Inv.get?_touchPort (hinv : Inv window maxEntries now r) (ip protocol : String) (port : ℤ) :
    (r.tracker.touchPort ip protocol port now).2.table.get? ip =
      some ((r.tracker.startEntry ip).touch window protocol port now) := by
  have htouches := (hinv.wf.touchPort ip protocol port now).2
  rw [hinv.window_eq] at htouches
  rcases htouches.order with ⟨others, hentries, _⟩
  refine (get?_iff htouches.wf ..).mpr ⟨?_, (hinv.backed_startEntry ip).1⟩
  change _ ∈ (r.tracker.touchPort ip ..).2.entries
  rw [hentries]
  exact mem_append_right _ (mem_singleton_self _)

theorem Remembers.touchPort (hr : Remembers window now r) (hinv : Inv window maxEntries now r)
    (hwindow : 0 < window) (ip protocol : String) (port : ℤ) :
    Remembers window now (r.step (.touchPort ip protocol port now)) := by
  have htouches := (hinv.wf.touchPort ip protocol port now).2
  rcases htouches.order with ⟨others, hentries, hsublist, hothers⟩
  have hget := hinv.get?_touchPort ip protocol port
  refine ⟨forall_mem_append.mpr ⟨hr.time, forall_mem_singleton.mpr le_rfl⟩,
    fun x hx e he hsame ↦ ?_, fun x hx hkept hlive ↦ ?_⟩
  · change e ∈ (r.tracker.touchPort ip ..).2.entries at he
    rw [hentries, mem_append, mem_singleton] at he
    rcases mem_append.mp hx with hold | hnew
    · rcases he with hother | rfl
      · exact hr.last x hold e (hsublist.subset hother) hsame
      · exact hr.time x hold
    · rw [mem_singleton.mp hnew] at hsame ⊢
      rcases he with hother | rfl
      · exact absurd hsame (hothers e hother)
      · exact le_rfl
  · rcases mem_append.mp hx with hold | hnew
    · have hkept' : ∀ e ∈ r.tracker.evicted, e.ip ≠ x.ip :=
        fun e he ↦ hkept e (htouches.evicted e he)
      rcases hr.entry x hold hkept' hlive with ⟨e, he, hholds⟩
      by_cases hsame : x.ip = ip
      · have hstart : r.tracker.startEntry ip = e := by
          unfold startEntry
          rw [← hsame, he]
          rfl
        rw [hstart] at hget
        refine ⟨e.touch _ protocol port _, ?_, hholds.touch (hr.time x hold) hlive⟩
        rw [hsame]
        exact hget
      · rcases (get?_iff hinv.wf ..).mp he with ⟨hmem, hkey⟩
        rcases htouches.keeps e hmem (hkey ▸ hsame) with hin | hstale | hout
        · exact ⟨e, (get?_iff htouches.wf ..).mpr ⟨hin, hkey⟩, hholds⟩
        · rw [not_stale hinv.window_eq (hr.last x hold e hmem hkey) hlive] at hstale
          cases hstale
        · exact absurd hkey (hkept e hout)
    · rw [mem_singleton.mp hnew]
      refine ⟨_, hget, holds_touch_self hwindow ip fun hpos hskipped ↦ ?_⟩
      simpa [skips, hpos, hinv.window_eq] using hskipped

theorem Remembers.cleanup (hr : Remembers window now r) (hinv : Inv window maxEntries now r) :
    Remembers window now (r.step (.cleanup now)) := by
  have hdrops := hinv.wf.cleanup_drops now
  refine ⟨hr.time, fun x hx e he ↦ hr.last x hx e (hdrops.mem he), fun x hx hkept hlive ↦ ?_⟩
  rcases hr.entry x hx hkept hlive with ⟨e, he, hholds⟩
  rcases (get?_iff hinv.wf ..).mp he with ⟨hmem, hkey⟩
  rcases hdrops.keeps e hmem with hin | hstale
  · exact ⟨e, (get?_iff hdrops.wf ..).mpr ⟨hin, hkey⟩, hholds⟩
  · rw [not_stale hinv.window_eq (hr.last x hx e hmem hkey) hlive] at hstale
    cases hstale

end ScanRun

theorem scanAfter_remembers {window maxEntries : ℤ} (hwindow : 0 < window)
    (hcapacity : 0 < maxEntries) {ops : List ScanOp} {now : ℕ}
    (hclock : Clock ScanOp.time 0 ops now) :
    ScanRun.Remembers window now (scanAfter window maxEntries ops) := by
  have hstart : ScanRun.Remembers window 0
      ⟨newScanTracker window scanProtocols maxEntries, []⟩ := by
    refine ⟨fun x hx ↦ ?_, fun x hx ↦ ?_, fun x hx ↦ ?_⟩ <;> cases hx
  have hstep (r : ScanRun) (op : ScanOp) (hinv : ScanRun.Inv window maxEntries op.time r)
      (hr : ScanRun.Remembers window op.time r) : ScanRun.Remembers window op.time (r.step op) := by
    cases op with
    | touchPort ip protocol port now => exact hr.touchPort hinv hwindow ip ..
    | cleanup now => exact hr.cleanup hinv
  exact (run_invariant
    (fun now r ↦ ScanRun.Inv window maxEntries now r ∧ ScanRun.Remembers window now r)
    (fun _ _ _ hle h ↦ ⟨h.1.wait hle, h.2.wait hle⟩)
    (fun r op _ h ↦ ⟨h.1.step hcapacity, hstep r op h.1 h.2⟩) hclock
    (along_of_forall fun _ _ ↦ trivial) ⟨ScanRun.start_inv hcapacity, hstart⟩).2

/-- A source that was not evicted is recognised by its protocols, and by its ports if none of its
touches inside the window was skipped. -/
theorem scan_complete_of_unskipped (window maxEntries : ℤ) (hwindow : 0 < window)
    (hcapacity : 0 < maxEntries) (ops : List ScanOp) (ip protocol : String) (port : ℤ) (now : ℕ)
    (hclock : Clock ScanOp.time 0 (ops ++ [.touchPort ip protocol port now]) now)
    (hkept : ∀ e ∈ (scanAfter window maxEntries
      (ops ++ [.touchPort ip protocol port now])).tracker.evicted, e.ip ≠ ip) :
    (3 ≤ (recentProtocols (scanAfter window maxEntries
        (ops ++ [.touchPort ip protocol port now])).trace ip window now).card →
      ((scanAfter window maxEntries ops).tracker.touchPort ip protocol port now).1 = true) ∧
    ((∀ x ∈ (scanAfter window maxEntries (ops ++ [.touchPort ip protocol port now])).trace,
        x.ip = ip → since now x.touchedAt < window → x.skipped = false) →
      5 ≤ (recentPorts (scanAfter window maxEntries
        (ops ++ [.touchPort ip protocol port now])).trace ip window now).card →
      ((scanAfter window maxEntries ops).tracker.touchPort ip protocol port now).1 = true) := by
  rcases clock_append.mp hclock with ⟨middle, hops, hmiddle, _⟩
  have hinv : ScanRun.Inv window maxEntries now (scanAfter ..) :=
    scanAfter_inv window hcapacity (hops.mono_finish hmiddle)
  have hr := scanAfter_remembers hwindow hcapacity hclock
  rw [(hinv.wf.touchPort ip ..).1, hinv.verdict_iff, hinv.window_eq]
  -- The entry that the answer is read from knows about every touch inside the window.
  have hholds : ∀ x ∈ (scanAfter window maxEntries
      (ops ++ [.touchPort ip protocol port now])).trace, x.ip = ip → since now x.touchedAt < window →
      Holds (((scanAfter window maxEntries ops).tracker.startEntry ip).touch window protocol port
        now) x := by
    intro x hx hip hlive
    rcases hr.entry x hx (hip ▸ hkept) hlive with ⟨e, he, hholds⟩
    have hget := hinv.get?_touchPort ip protocol port
    rw [hip, scanAfter_concat] at he
    rw [Option.some.inj (hget.symm.trans he)]
    exact hholds
  refine ⟨fun hprotocols ↦ .inl ?_, fun hunskipped hports ↦ .inr ?_⟩
  · refine hprotocols.trans (Finset.card_le_card fun other hother ↦ ?_)
    rcases mem_recentProtocols.mp hother with ⟨x, hx, hip, hlive, rfl⟩
    rcases (hholds x hx hip hlive).1 with ⟨t, _, ht⟩
    exact (mem_keySet_iff _).mpr ⟨t, ht⟩
  · refine hports.trans (Finset.card_le_card fun other hother ↦ ?_)
    rcases mem_recentPorts.mp hother with ⟨x, hx, hip, hpos, hlive, rfl⟩
    rcases (hholds x hx hip hlive).2 hpos (hunskipped x hx hip hlive) with ⟨t, _, ht⟩
    exact (mem_keySet_iff _).mpr ⟨t, ht⟩

theorem scan_complete_of_unskipped_three :
    ((scanAfter scanWindow 2 threeProtocols).tracker.touchPort "8.8.8.8" "http" 80 3).1 = true := by
  have hlaw := scan_complete_of_unskipped scanWindow 2 (by decide) (by decide) threeProtocols
    "8.8.8.8" "http" 80 3 (by decide) (by decide)
  exact hlaw.1 (by decide)

/-- Sixteen ports at the start, five more just before those expire. -/
def skippedPorts : List ScanOp :=
  ((List.range 16).map fun i ↦ .touchPort "8.8.8.8" "http" (i + 1 : ℕ) 0) ++
    (List.range 5).map fun i ↦ .touchPort "8.8.8.8" "http" (i + 17 : ℕ) (scanWindow.toNat - 1)

/-- The five ports were skipped because sixteen live ones were remembered. When those expire, the
source is no scanner any more, although it touched six ports within the last nanoseconds. -/
theorem scan_forgets_skipped_ports :
    ¬∀ (window maxEntries : ℤ) (ops : List ScanOp) (ip protocol : String) (port : ℤ) (now : ℕ),
      0 < window → 0 < maxEntries →
      Clock ScanOp.time 0 (ops ++ [.touchPort ip protocol port now]) now →
      (∀ e ∈ (scanAfter window maxEntries
        (ops ++ [.touchPort ip protocol port now])).tracker.evicted, e.ip ≠ ip) →
      3 ≤ (recentProtocols (scanAfter window maxEntries
          (ops ++ [.touchPort ip protocol port now])).trace ip window now).card ∨
        5 ≤ (recentPorts (scanAfter window maxEntries
          (ops ++ [.touchPort ip protocol port now])).trace ip window now).card →
      ((scanAfter window maxEntries ops).tracker.touchPort ip protocol port now).1 = true := by
  intro hall
  have hscan := hall scanWindow 20000 skippedPorts "8.8.8.8" "http" 22 scanWindow.toNat
    (by decide) (by decide) (by decide +kernel) (by decide +kernel) (.inr (by decide +kernel))
  revert hscan
  decide +kernel

end RanHoneypot.Alert
