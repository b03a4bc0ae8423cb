import RanHoneypot.Data.TableSums
import RanHoneypot.Data.TimedRun
import RanHoneypot.Alert.ProbeLog

/-!
# No probe session is lost

Every session that the probe log takes is counted in the entry of its source, and an entry leaves the
log only into a summary line. The calls of the log run concurrently: `Record` and `flushDue` read the
clock and then enter one critical section, and `closeAndFlush` sets its flag in a section of its own,
reads the clock and flushes in a second one. A run here is an arbitrary interleaving of these steps.

Since the clock is read before the lock is taken, a `Record` can enter behind another one that read a
later time. The list is then not ordered by the start of the windows, and `flushDue`, which stops at
the first entry that is not due, leaves one behind it that is.
-/

namespace RanHoneypot.Alert

open TimedRun List ProbeEntry IndexedList

/-! ## Counting sessions -/

/-- A way to count sessions, in entries, in summary lines and one by one. -/
structure Measure where
  entry : ProbeEntry → ℕ
  line : ProbeSummary → ℕ
  session : String → String → ℕ
  entry_new : ∀ ip start, entry { ip := ip, start := start } = 0
  entry_count : ∀ e protocol, entry (e.count protocol) = entry e + session e.ip protocol
  line_summary : ∀ e window now, line (e.summary window now) = entry e

namespace Measure

/-- The sessions of the given sources. -/
def sessions (sources : String → Bool) : Measure where
  entry e := if sources e.ip then e.sessions else 0
  line s := if sources s.ip then s.sessions else 0
  session ip _ := if sources ip then 1 else 0
  entry_new ip start := ite_self 0
  entry_count e protocol := by
    by_cases hsource : sources e.ip
    · simp [ProbeEntry.count, hsource]
    · simp [ProbeEntry.count, hsource]
  line_summary e window now := rfl

/-- The sessions of one source over one protocol. -/
def protocol (source name : String) : Measure where
  entry e := if e.ip = source then (e.protos.lookup name).getD 0 else 0
  line s := if s.ip = source then (s.protos.lookup name).getD 0 else 0
  session ip protocol := if (ip, protocol) = (source, name) then 1 else 0
  entry_new ip start := ite_self 0
  entry_count e protocol := by
    simp only [ProbeEntry.count, Prod.mk.injEq]
    by_cases hip : e.ip = source
    · by_cases hname : protocol = name
      · subst hname
        simp [hip]
      · simp [hip, hname, AList.lookup_insert_ne (Ne.symm hname)]
    · simp [hip]
  line_summary e window now := rfl

end Measure

namespace ProbeLog

/-- The sessions in the lines written so far and in the entries. -/
def tally (m : Measure) (p : ProbeLog) : ℕ := (p.summaries.map m.line).sum + p.table.total m.entry

/-- The map and the list agree and the log is within its capacity. -/
structure Sound (p : ProbeLog) : Prop where
  wf : p.table.WF ip
  bounded : (p.table.len : ℤ) ≤ p.maxEntries

/-- The settings of a log and its flag. -/
def frame (p : ProbeLog) : ℤ × ℤ × Bool := (p.window, p.maxEntries, p.closed)

variable {p : ProbeLog} {node : Node ProbeEntry} (now : ℕ)

section Emit

section

variable (hwf : p.table.WF ip) (hmem : node ∈ p.table.nodes)

include hwf hmem

theorem wf_emit :
    (p.emit node now).table.WF ip := hwf.remove hmem

theorem tally_emit (m : Measure) : (p.emit node now).tally m = p.tally m := by
  have htotal := hwf.total_remove hmem m.entry node.val.ip
  simp only [tally, emit, map_append, map_cons, map_nil, sum_append,
    sum_singleton, m.line_summary]
  rw [← htotal, add_assoc]

theorem len_emit : (p.emit node now).table.len + 1 = p.table.len := by
  rw [(wf_emit _ hwf hmem).len_eq, hwf.len_eq, (hwf.vals_remove_perm hmem _).length_eq]
  rfl

end

theorem starts_emit (node : Node ProbeEntry) :
    ((p.emit node now).table.vals.map start).Sublist
      (p.table.vals.map start) :=
  ((filter_sublist (l := p.table.nodes)).map Node.val).map start

end Emit

/-! ## Recording -/

theorem front_mem (hfront : p.table.front? = some node) : node ∈ p.table.nodes :=
  mem_of_head? hfront

/-- Making room and looking for an entry write out some entries and nothing else. -/
structure Writes (p p' : ProbeLog) : Prop where
  wf : p'.table.WF ip
  frame : p'.frame = p.frame
  tally : ∀ m : Measure, p'.tally m = p.tally m
  starts : (p'.table.vals.map start).Sublist (p.table.vals.map start)
  len : p'.table.len ≤ p.table.len

theorem Writes.refl (hwf : p.table.WF ip) : Writes p p :=
  ⟨hwf, rfl, fun _ ↦ rfl, List.Sublist.refl _, le_rfl⟩

theorem Writes.trans {p₁ p₂ p₃ : ProbeLog} (hfirst : Writes p₁ p₂) (hsecond : Writes p₂ p₃) :
    Writes p₁ p₃ where
  wf := hsecond.wf
  frame := hsecond.frame.trans hfirst.frame
  tally m := (hsecond.tally m).trans (hfirst.tally m)
  starts := hsecond.starts.trans hfirst.starts
  len := Nat.le_trans hsecond.len hfirst.len

theorem Writes.empty {p' : ProbeLog} (h : Writes p p') (hempty : p.table.vals = []) :
    p'.table.vals = [] := by
  have hstarts := h.starts
  rw [hempty, map_nil, sublist_nil] at hstarts
  exact map_eq_nil_iff.mp hstarts

theorem writes_emit (hwf : p.table.WF ip) (hmem : node ∈ p.table.nodes) :
    Writes p (p.emit node now) where
  wf := wf_emit now hwf hmem
  frame := rfl
  tally := tally_emit now hwf hmem
  starts := starts_emit now node
  len := by
    have hlen := len_emit now hwf hmem
    omega

theorem writes_makeRoom (hwf : p.table.WF ip) : Writes p (p.makeRoom now) := by
  unfold makeRoom
  split
  · cases hfront : p.table.front? with
    | none => exact .refl hwf
    | some front => exact writes_emit _ hwf (front_mem hfront)
  · exact .refl hwf

section

variable (h : p.Sound) (hcapacity : 0 < p.maxEntries)

include h hcapacity

/-- A log within its capacity has room for one more entry afterwards. -/
theorem Sound.len_makeRoom : ((p.makeRoom now).table.len : ℤ) < p.maxEntries := by
  unfold makeRoom
  split
  · next hfull =>
    cases hfront : p.table.front? with
    | none =>
      have hempty : p.table.nodes = [] := head?_eq_none_iff.mp hfront
      have hlen : p.table.len = 0 := by
        rw [h.wf.len_eq, vals, hempty]
        rfl
      simp only [hlen]
      exact hcapacity
    | some front =>
      have hlen := len_emit now h.wf (front_mem hfront)
      have hbounded := h.bounded
      simp only
      omega
  · next hroom => exact Int.not_le.mp hroom

/-- The log with an entry for `ip` at the returned pointer: nothing but that entry is new. -/
structure EntryFor (p : ProbeLog) (ip : String) (now : ℕ) (p' : ProbeLog) (id : ℕ) : Prop where
  sound : p'.Sound
  frame : p'.frame = p.frame
  tally : ∀ m : Measure, p'.tally m = p.tally m
  mem : ∃ e : ProbeEntry, e.ip = ip ∧ ⟨id, e⟩ ∈ p'.table.nodes
  starts : (p'.table.vals.map start).Sublist (p.table.vals.map start ++ [now])

theorem Sound.newEntry {ip : String} (hnew : ∀ node ∈ p.table.nodes, node.val.ip ≠ ip) :
    EntryFor p ip now (p.newEntry ip now).1 (p.newEntry ip now).2 := by
  have hroom := writes_makeRoom now h.wf
  have hlen := h.len_makeRoom now hcapacity
  have hfree : ∀ node ∈ (p.makeRoom now).table.nodes,
      node.val.ip ≠ ({ ip := ip, start := now } : ProbeEntry).ip := by
    intro node hmem
    apply hnew node
    unfold makeRoom at hmem
    split at hmem
    · cases hfront : p.table.front? with
      | none =>
        rw [hfront] at hmem
        exact hmem
      | some front =>
        rw [hfront] at hmem
        exact ((mem_remove_iff ..).mp hmem).1
    · exact hmem
  have hpushed := hroom.wf.pushBack hfree
  refine ⟨⟨hpushed, ?_⟩, hroom.frame, ?_, ⟨{ ip := ip, start := now }, rfl, ?_⟩, ?_⟩
  · have hmax : (p.newEntry ip _).1.maxEntries = p.maxEntries :=
      congrArg (fun f : ℤ × ℤ × Bool ↦ f.2.1) hroom.frame
    have hgrown : (p.newEntry ip now).1.table.len = (p.makeRoom now).table.len + 1 := by
      have hpushed' : (p.newEntry ip _).1.table.WF ProbeEntry.ip := hpushed
      rw [hpushed'.len_eq, hroom.wf.len_eq]
      simp [ProbeLog.newEntry, vals, pushBack]
    rw [hgrown]
    push_cast
    omega
  · intro m
    rw [← hroom.tally m]
    have htotal := total_pushBack m.entry (p.makeRoom now).table ip
      { ip := ip, start := now }
    rw [m.entry_new, add_zero] at htotal
    simp only [tally, ProbeLog.newEntry, htotal]
  · exact (mem_pushBack_iff ..).mpr (.inr rfl)
  · have hstarts : (p.newEntry ip now).1.table.vals.map ProbeEntry.start =
        (p.makeRoom now).table.vals.map ProbeEntry.start ++ [now] := by
      simp [ProbeLog.newEntry, vals, pushBack]
    rw [hstarts]
    exact hroom.starts.append (List.Sublist.refl _)

theorem Sound.entryFor (ip : String) :
    EntryFor p ip now (p.entryFor ip now).1 (p.entryFor ip now).2 := by
  unfold ProbeLog.entryFor
  cases hnode : p.table.node? ip with
  | none => exact h.newEntry _ hcapacity ((h.wf.node?_eq_none_iff ip).mp hnode)
  | some node =>
    rcases (h.wf.node?_iff ip _).mp hnode with ⟨hmem, hip⟩
    dsimp only
    split
    · have hwritten := writes_emit now h.wf hmem
      have hsound : (p.emit node now).Sound := by
        refine ⟨hwritten.wf, Int.le_trans ?_ h.bounded⟩
        exact_mod_cast hwritten.len
      have hnew : ∀ other ∈ (p.emit node now).table.nodes, other.val.ip ≠ ip := by
        intro other hother hsame
        rcases (mem_remove_iff ..).mp hother with ⟨hold, hne⟩
        exact hne (congrArg _ (h.wf.eq_of_key_eq hold hmem (hsame.trans hip.symm)))
      have hentry := hsound.newEntry now hcapacity hnew
      refine ⟨hentry.sound, hentry.frame, fun m ↦ ?_, hentry.mem, ?_⟩
      · rw [hentry.tally m, hwritten.tally m]
      · exact hentry.starts.trans (hwritten.starts.append (List.Sublist.refl _))
    · exact ⟨h, rfl, fun _ ↦ rfl, ⟨node.val, hip, hmem⟩, sublist_append_left ..⟩

/-- A session that is taken is counted, and only it. -/
theorem Sound.record (net : Netip) (rawIP protocol : String) :
    (p.record net rawIP protocol now).1 = !p.closed ∧
      (p.record net rawIP protocol now).2.Sound ∧
      (p.record net rawIP protocol now).2.frame = p.frame ∧
      (∀ m : Measure, (p.record net rawIP protocol now).2.tally m =
        p.tally m + if p.closed then 0 else m.session (probeKey net rawIP) protocol) ∧
      ((p.record net rawIP protocol now).2.table.vals.map start).Sublist
        (p.table.vals.map start ++ [now]) := by
  unfold ProbeLog.record
  cases hclosed : p.closed with
  | true =>
    exact ⟨rfl, h, rfl, fun _ ↦ rfl, sublist_append_left ..⟩
  | false =>
    simp only [Bool.false_eq_true, if_false, Bool.not_false]
    have hentry := h.entryFor now hcapacity (probeKey net rawIP)
    rcases hentry.mem with ⟨e, hip, hmem⟩
    have hcounted : ((p.entryFor ..).1.table.modify
        (p.entryFor (probeKey net rawIP) now).2 (·.count protocol)).WF ip :=
      hentry.sound.wf.modify _ fun _ _ _ ↦ rfl
    refine ⟨trivial, ⟨hcounted, hentry.sound.bounded⟩, hentry.frame, fun m ↦ ?_, ?_⟩
    · have htotal := hentry.sound.wf.total_modify hmem m.entry (·.count protocol)
      have htally := hentry.tally m
      simp only [m.entry_count, hip] at htotal
      simp only [tally] at htally ⊢
      omega
    · rw [map_vals_modify (f := (·.count protocol)) (g := start) _ fun _ ↦ rfl]
      exact hentry.starts

end

/-! ## Flushing -/

section

variable (hwf : p.table.WF ip)

include hwf

theorem writes_flushLoop (ready : ProbeEntry → Bool) (rounds : ℕ) :
    Writes p (flushLoop ready now rounds p) := by
  induction rounds generalizing p with
  | zero => exact .refl hwf
  | succ rounds ih =>
    unfold flushLoop
    cases hfront : p.table.front? with
    | none => exact .refl hwf
    | some node =>
      have hwritten := writes_emit now hwf (front_mem hfront)
      dsimp only
      split
      · exact hwritten.trans (ih hwritten.wf)
      · exact .refl hwf

/-- With enough rounds the loop stops at an entry that is not ready. -/
theorem front_flushLoop (ready : ProbeEntry → Bool) {rounds : ℕ} (hrounds : p.table.len ≤ rounds) :
    ∀ node,
      (flushLoop ready now rounds p).table.front? = some node → ready node.val = false := by
  intro node hfront
  induction rounds generalizing p with
  | zero =>
    have hlen : 0 < p.table.len := by
      rw [hwf.len_eq]
      exact length_pos_of_mem (mem_map_of_mem (front_mem hfront))
    omega
  | succ rounds ih =>
    unfold flushLoop at hfront
    cases hhead : p.table.front? with
    | none =>
      rw [hhead] at hfront
      rw [hhead] at hfront
      cases hfront
    | some head =>
      have hmem := front_mem hhead
      have hlen := len_emit now hwf hmem
      rw [hhead] at hfront
      dsimp only at hfront
      split at hfront
      · exact ih (wf_emit _ hwf hmem) (by omega) hfront
      · next hready =>
        rw [hhead, Option.some.injEq] at hfront
        rw [← hfront]
        exact Bool.eq_false_iff.mpr hready

theorem len_le_nodes : p.table.len ≤ p.table.nodes.length := by
  rw [hwf.len_eq, vals, length_map]

/-- A log that is ordered by the start of the windows keeps no entry that is due. -/
theorem flushDue_complete (hordered : (p.table.vals.map start).Pairwise (· ≤ ·)) :
    ∀ e ∈ (p.flushDue now).table.vals, since now e.start < p.window := by
  have hsorted := hordered.sublist (writes_flushLoop now hwf (p.due now) p.table.nodes.length).starts
  have hhead := front_flushLoop now hwf (p.due now) (len_le_nodes hwf)
  intro e he
  unfold flushDue at he
  generalize flushLoop (p.due _) now p.table.nodes.length p = after at hsorted hhead he
  rcases mem_map.mp he with ⟨node, hmem, rfl⟩
  cases hnodes : after.table.nodes with
  | nil =>
    rw [hnodes] at hmem
    cases hmem
  | cons first rest =>
    have hfirst : since now first.val.start < p.window := by
      have hready := hhead first (by rw [front?, hnodes, head?_cons])
      simpa [due] using hready
    have hle : first.val.start ≤ node.val.start := by
      rw [hnodes] at hmem
      rw [vals, hnodes, map_cons, map_cons, pairwise_cons] at hsorted
      rcases mem_cons.mp hmem with rfl | hrest
      · exact le_rfl
      · exact hsorted.1 _ (mem_map_of_mem (mem_map_of_mem hrest))
    unfold since at hfirst ⊢
    omega

theorem flushAll_empty : (p.flushAll now).table.vals = [] := by
  have hhead := front_flushLoop now hwf (fun _ ↦ true) (len_le_nodes hwf)
  cases hnodes : (p.flushAll _).table.nodes with
  | nil => rw [vals, hnodes, map_nil]
  | cons first rest =>
    have hready := hhead first (by
      rw [← head?_cons (l := rest) (a := first), ← hnodes]
      rfl)
    cases hready

end

end ProbeLog

end RanHoneypot.Alert
