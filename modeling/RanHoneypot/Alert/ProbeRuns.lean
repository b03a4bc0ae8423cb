import RanHoneypot.Alert.ProbeAccounting

/-!
# Interleavings of the calls of the probe log

The machine of `Record`, `flushDue` and `closeAndFlush` calls on one probe log. Each step of a call is
a clock reading or a critical section. Conservation, the capacity and the finality of
`closeAndFlush` hold under every interleaving. That `flushDue` leaves no entry that is due holds as
long as no `Record` enters with a reading from before the start of an entry that is already there.
-/

namespace RanHoneypot.Alert

open TimedRun List ProbeLog

/-- Where a call of the probe log is. -/
inductive ProbeCall where
  /-- `Record` has read the clock. -/
  | record (rawIP protocol : String) (now : ℕ)
  | recorded (kept : Bool)
  /-- `flushDue` has read the clock. -/
  | flushDue (now : ℕ)
  | flushed
  /-- `closeAndFlush` has set the flag. -/
  | closing
  /-- `closeAndFlush` has read the clock. -/
  | flushAll (now : ℕ)
  | closed
deriving DecidableEq

/-- `recorded` holds the source and the protocol of every `Record` call that returned true. -/
structure ProbeRun where
  clock : ℕ
  log : ProbeLog
  calls : List ProbeCall
  recorded : List (String × String)

inductive ProbeAction where
  | tick (elapsed : ℕ)
  | callRecord (rawIP protocol : String)
  | callFlushDue
  | callClose
  /-- The next step of a call. -/
  | resume (call : ℕ)

/-- The call is a `closeAndFlush` that has set the flag. -/
def ProbeCall.closes : ProbeCall → Bool
  | closing => true
  | flushAll _ => true
  | closed => true
  | _ => false

namespace ProbeRun

def start (window maxEntries : ℤ) : ProbeRun where
  clock := 0
  log := newProbeLog window maxEntries
  calls := []
  recorded := []

/-- The critical section of a `Record` call. -/
def enterRecord (net : Netip) (s : ProbeRun) (call : ℕ) (rawIP protocol : String) (now : ℕ) :
    ProbeRun :=
  let (kept, log) := s.log.record net rawIP protocol now
  { s with
    log := log
    calls := s.calls.set call (.recorded kept)
    recorded := if kept then s.recorded ++ [(probeKey net rawIP, protocol)] else s.recorded }

def step (net : Netip) (s : ProbeRun) : ProbeAction → ProbeRun
  | .tick elapsed => { s with clock := s.clock + elapsed }
  | .callRecord rawIP protocol => { s with calls := s.calls ++ [.record rawIP protocol s.clock] }
  | .callFlushDue => { s with calls := s.calls ++ [.flushDue s.clock] }
  | .callClose => { s with log := s.log.close, calls := s.calls ++ [.closing] }
  | .resume call =>
    match s.calls[call]? with
    | some (.record rawIP protocol now) => s.enterRecord net call rawIP protocol now
    | some (.flushDue now) =>
      { s with log := s.log.flushDue now, calls := s.calls.set call .flushed }
    | some .closing => { s with calls := s.calls.set call (.flushAll s.clock) }
    | some (.flushAll now) =>
      { s with log := s.log.flushAll now, calls := s.calls.set call .closed }
    | _ => s

/-- The log is consistent, holds what was recorded, and stays shut and empty once closed. -/
structure Inv (window maxEntries : ℤ) (s : ProbeRun) : Prop where
  sound : s.log.Sound
  settings : s.log.window = window ∧ s.log.maxEntries = maxEntries
  tally : ∀ m : Measure, s.log.tally m = (s.recorded.map fun r ↦ m.session r.1 r.2).sum
  shut : (∃ call ∈ s.calls, call.closes = true) → s.log.closed = true
  empty : .closed ∈ s.calls → s.log.table.vals = []

variable {net : Netip} {window maxEntries : ℤ} {s : ProbeRun}

variable {call : ProbeCall}

theorem start_inv (hcapacity : 0 < maxEntries) : (start window maxEntries).Inv window maxEntries where
  sound := ⟨IndexedList.empty_wf, hcapacity.le⟩
  settings := ⟨rfl, rfl⟩
  tally _ := rfl
  shut := by simp [start]
  empty := by simp [start]

/-- A step that leaves the log alone and moves a call to a state that has not closed the log, or
only from one that had. -/
theorem Inv.moves (h : s.Inv window maxEntries) {calls : List ProbeCall}
    (hcloses : (∃ call ∈ calls, call.closes = true) → ∃ call ∈ s.calls, call.closes = true)
    (hclosed : .closed ∈ calls → .closed ∈ s.calls) (clock : ℕ) :
    ({ s with clock := clock, calls := calls } : ProbeRun).Inv window maxEntries where
  sound := h.sound
  settings := h.settings
  tally := h.tally
  shut hexists := h.shut (hcloses hexists)
  empty hmem := h.empty (hclosed hmem)

theorem closes_append (hopen : call.closes = false)
    (hexists : ∃ other ∈ s.calls ++ [call], other.closes = true) :
    ∃ other ∈ s.calls, other.closes = true := by
  rcases hexists with ⟨other, hmem, hother⟩
  rcases mem_append.mp hmem with hold | hnew
  · exact ⟨other, hold, hother⟩
  · rw [mem_singleton.mp hnew, hopen] at hother
    cases hother

theorem closes_set {i : ℕ} (hcall : call.closes = true → ∃ other ∈ s.calls, other.closes = true)
    (hexists : ∃ other ∈ s.calls.set i call, other.closes = true) :
    ∃ other ∈ s.calls, other.closes = true := by
  rcases hexists with ⟨other, hmem, hother⟩
  rcases mem_or_eq_of_mem_set hmem with hold | rfl
  · exact ⟨other, hold, hother⟩
  · exact hcall hother

theorem closed_append (hne : call ≠ .closed) (hmem : .closed ∈ s.calls ++ [call]) :
    .closed ∈ s.calls := by
  rcases mem_append.mp hmem with hold | hnew
  · exact hold
  · exact absurd (mem_singleton.mp hnew).symm hne

theorem closed_set {i : ℕ} (hne : call ≠ .closed) (hmem : .closed ∈ s.calls.set i call) :
    .closed ∈ s.calls := by
  rcases mem_or_eq_of_mem_set hmem with hold | hnew
  · exact hold
  · exact absurd hnew.symm hne

theorem Inv.enterRecord (h : s.Inv window maxEntries) (hcapacity : 0 < maxEntries) (i : ℕ)
    (rawIP protocol : String) (now : ℕ) :
    (s.enterRecord net i rawIP protocol now).Inv window maxEntries := by
  have hrecord := h.sound.record now (h.settings.2 ▸ hcapacity) net rawIP protocol
  rcases hrecord with ⟨hkept, hsound, hframe, htally, _⟩
  simp only [frame, Prod.mk.injEq] at hframe
  refine ⟨hsound, ⟨hframe.1.trans h.settings.1, hframe.2.1.trans h.settings.2⟩, ?_, ?_, ?_⟩
  · intro m
    simp only [ProbeRun.enterRecord, htally, h.tally, hkept]
    cases s.log.closed with
    | true | false => simp
  · intro hexists
    have hclosed := h.shut (closes_set (fun hcall ↦ by cases hcall) hexists)
    exact hframe.2.2.trans hclosed
  · intro hmem
    have hold : .closed ∈ s.calls := closed_set (by simp) hmem
    have hclosed := h.shut ⟨_, hold, rfl⟩
    have hsame : (s.log.record net rawIP protocol now).2 = s.log := by
      simp [record, hclosed]
    simp only [ProbeRun.enterRecord, hsame]
    exact h.empty hold

/-- A critical section that writes entries out. -/
theorem Inv.written (h : s.Inv window maxEntries) {log : ProbeLog} (hwrites : s.log.Writes log)
    {calls : List ProbeCall}
    (hcloses : (∃ call ∈ calls, call.closes = true) → ∃ call ∈ s.calls, call.closes = true)
    (hempty : .closed ∈ calls → log.table.vals = []) :
    ({ s with log := log, calls := calls } : ProbeRun).Inv window maxEntries := by
  have hframe := hwrites.frame
  simp only [frame, Prod.mk.injEq] at hframe
  refine ⟨⟨hwrites.wf, ?_⟩, ⟨hframe.1.trans h.settings.1, hframe.2.1.trans h.settings.2⟩, ?_, ?_,
    hempty⟩
  · rw [hframe.2.1]
    exact Int.le_trans (Int.ofNat_le.mpr hwrites.len) h.sound.bounded
  · intro m
    exact (hwrites.tally m).trans (h.tally m)
  · intro hexists
    exact hframe.2.2.trans (h.shut (hcloses hexists))

theorem Inv.step (h : s.Inv window maxEntries) (hcapacity : 0 < maxEntries) (a : ProbeAction) :
    (s.step net a).Inv window maxEntries := by
  cases a with
  | tick elapsed => exact h.moves id id (s.clock + elapsed)
  | callRecord rawIP protocol =>
    exact h.moves (closes_append rfl) (closed_append (by simp)) _
  | callFlushDue => exact h.moves (closes_append rfl) (closed_append (by simp)) _
  | callClose =>
    refine ⟨⟨h.sound.wf, h.sound.bounded⟩, h.settings, h.tally, fun _ ↦ rfl, fun hmem ↦ ?_⟩
    exact h.empty (closed_append (by simp) hmem)
  | resume i =>
    simp only [ProbeRun.step]
    split
    · exact h.enterRecord hcapacity i ..
    · next now hcall =>
      have hwrites := writes_flushLoop now h.sound.wf (s.log.due now)
        s.log.table.nodes.length
      refine h.written hwrites (closes_set fun hnew ↦ by cases hnew) fun hmem ↦ ?_
      exact hwrites.empty (h.empty (closed_set (by simp) hmem))
    · next hcall =>
      have hold : .closing ∈ s.calls := mem_of_getElem? hcall
      exact h.moves (closes_set fun _ ↦ ⟨_, hold, rfl⟩) (closed_set (by simp)) _
    · next now hcall =>
      have hold : .flushAll now ∈ s.calls := mem_of_getElem? hcall
      have hwrites := writes_flushLoop now h.sound.wf (fun _ ↦ true)
        s.log.table.nodes.length
      exact h.written hwrites (closes_set fun _ ↦ ⟨_, hold, rfl⟩)
        fun _ ↦ flushAll_empty now h.sound.wf
    · exact h

/-! ## After the end -/

/-- A step of a run in which some `closeAndFlush` has returned. -/
theorem Inv.step_closed (net : Netip) (h : s.Inv window maxEntries) (hclosed : .closed ∈ s.calls)
    (a : ProbeAction) : .closed ∈ (s.step net a).calls ∧ (s.step net a).recorded = s.recorded := by
  have hshut := h.shut ⟨_, hclosed, rfl⟩
  -- A call that has returned keeps its place.
  have hset {i : ℕ} {call call' : ProbeCall} (hcall : s.calls[i]? = some call')
      (hne : call' ≠ .closed) : .closed ∈ s.calls.set i call := by
    rcases mem_iff_getElem?.mp hclosed with ⟨j, hj⟩
    apply mem_iff_getElem?.mpr
    refine ⟨j, ?_⟩
    have hij : i ≠ j := by
      intro heq
      rw [heq, hj, Option.some.injEq] at hcall
      exact hne hcall.symm
    rw [getElem?_set_ne hij, hj]
  cases a with
  | tick elapsed => exact ⟨hclosed, rfl⟩
  | callRecord | callFlushDue | callClose => exact ⟨mem_append_left _ hclosed, rfl⟩
  | resume i =>
    simp only [ProbeRun.step]
    split
    · next rawIP protocol now hcall =>
      have hrefused : s.log.record net rawIP protocol now = (false, s.log) := by
        simp [record, hshut]
      simp only [ProbeRun.enterRecord, hrefused]
      exact ⟨hset hcall (by simp), rfl⟩
    · next hcall => exact ⟨hset hcall (by simp), rfl⟩
    · next hcall => exact ⟨hset hcall (by simp), rfl⟩
    · next hcall => exact ⟨hset hcall (by simp), rfl⟩
    · exact ⟨hclosed, rfl⟩

/-! ## The order of the entries -/

/-- A `Record` call that is about to enter has not read the clock before an entry of the log was
started. -/
def inOrder (s : ProbeRun) : ProbeAction → Bool
  | .resume call =>
    match s.calls[call]? with
    | some (.record _ _ now) => s.log.table.vals.all fun e ↦ decide (e.start ≤ now)
    | _ => true
  | _ => true

/-- The entries are ordered by the start of their windows. -/
def Ordered (s : ProbeRun) : Prop := (s.log.table.vals.map ProbeEntry.start).Pairwise (· ≤ ·)

theorem Ordered.step (hordered : s.Ordered) (h : s.Inv window maxEntries) (hcapacity : 0 < maxEntries)
    {a : ProbeAction} (hguard : s.inOrder a = true) : (s.step net a).Ordered := by
  cases a with
  | resume i =>
    simp only [ProbeRun.step]
    split
    · next rawIP protocol now hcall =>
      have hlate : ∀ e ∈ s.log.table.vals, e.start ≤ now := by
        simpa [inOrder, hcall] using hguard
      have hstarts := (h.sound.record now (h.settings.2 ▸ hcapacity) net rawIP protocol).2.2.2.2
      apply List.Pairwise.sublist hstarts
      apply pairwise_append.mpr
      refine ⟨hordered, pairwise_singleton _ _, ?_⟩
      intro earlier hearlier later hlater
      rcases mem_map.mp hearlier with ⟨e, he, rfl⟩
      rw [mem_singleton.mp hlater]
      exact hlate e he
    · next now hcall =>
      exact List.Pairwise.sublist (writes_flushLoop _ h.sound.wf ..).starts hordered
    · exact hordered
    · next now hcall =>
      exact List.Pairwise.sublist (writes_flushLoop _ h.sound.wf ..).starts hordered
    · exact hordered
  | _ => exact hordered

end ProbeRun

/-! ## Runs -/

def probesAfter (net : Netip) (window maxEntries : ℤ) (actions : List ProbeAction) : ProbeRun :=
  run (ProbeRun.step net) (.start window maxEntries) actions

section

variable {net : Netip} {window maxEntries : ℤ}

theorem probesAfter_inv (hcapacity : 0 < maxEntries) (actions : List ProbeAction) :
    (probesAfter net window maxEntries actions).Inv window maxEntries :=
  run_invariant_untimed (ProbeRun.Inv window maxEntries) (fun _ a h ↦ h.step hcapacity a) actions
    (ProbeRun.start_inv hcapacity)

/-- Once a `closeAndFlush` has returned, nothing is recorded any more. -/
theorem probesAfter_closed (hcapacity : 0 < maxEntries) {actions : List ProbeAction}
    (hclosed : .closed ∈ (probesAfter net window maxEntries actions).calls)
    (rest : List ProbeAction) :
    (probesAfter net window maxEntries (actions ++ rest)).recorded =
      (probesAfter net window maxEntries actions).recorded := by
  let s := probesAfter net window maxEntries actions
  have hrest : (run (ProbeRun.step net) s rest).Inv window maxEntries ∧
      .closed ∈ (run (ProbeRun.step net) s rest).calls ∧
      (run (ProbeRun.step net) s rest).recorded = s.recorded := by
    refine run_invariant_untimed
      (fun t : ProbeRun ↦ t.Inv window maxEntries ∧ .closed ∈ t.calls ∧ t.recorded = s.recorded) ?_ rest
      ⟨probesAfter_inv hcapacity _, hclosed, rfl⟩
    intro t a ht
    have hstep := ht.1.step_closed net ht.2.1 a
    exact ⟨ht.1.step hcapacity a, hstep.1, hstep.2.trans ht.2.2⟩
  rw [probesAfter, run_append]
  exact hrest.2.2

theorem probesAfter_ordered (hcapacity : 0 < maxEntries) {actions : List ProbeAction}
    (halong : Along (ProbeRun.step net) (fun s a ↦ s.inOrder a = true) (.start window maxEntries)
      actions) : (probesAfter net window maxEntries actions).Ordered := by
  have hboth := run_invariant_along (fun s ↦ ProbeRun.Inv window maxEntries s ∧ s.Ordered)
    (fun s a hguard hs ↦ ⟨hs.1.step hcapacity a, hs.2.step hs.1 hcapacity hguard⟩) halong
    ⟨ProbeRun.start_inv hcapacity, List.Pairwise.nil⟩
  exact hboth.2

end

theorem sum_map_ite_zero {α : Type*} (l : List α) (p : α → Prop) [DecidablePred p] (f : α → ℕ) :
    (l.map fun x ↦ if p x then f x else 0).sum = ((l.filter fun x ↦ p x).map f).sum := by
  rw [sum_map_ite, map_const', sum_replicate_nat, Nat.mul_zero, Nat.add_zero]

theorem sum_map_ite_one {α : Type*} (l : List α) (p : α → Prop) [DecidablePred p] :
    (l.map fun x ↦ if p x then 1 else 0).sum = l.countP fun x ↦ p x := by
  rw [sum_map_ite_zero, map_const', sum_replicate_nat, Nat.mul_one,
    countP_eq_length_filter]

/-- The recorded sessions are those in the lines and in the entries, for every source and protocol;
a log that was closed and flushed stays empty and records nothing; the capacity is kept; and, as long
as records enter in the order of their clock readings, `flushDue` leaves no entry that is due. -/
theorem probe_log_conserves (net : Netip) (window maxEntries : ℤ) (hcapacity : 0 < maxEntries)
    (actions : List ProbeAction) :
    let s := probesAfter net window maxEntries actions
    (s.recorded.length =
      (s.log.summaries.map ProbeSummary.sessions).sum +
        (s.log.table.vals.map ProbeEntry.sessions).sum) ∧
    (∀ ip, s.recorded.countP (fun r ↦ r.1 = ip) =
      ((s.log.summaries.filter fun l ↦ l.ip = ip).map ProbeSummary.sessions).sum +
        ((s.log.table.vals.filter fun e ↦ e.ip = ip).map ProbeEntry.sessions).sum) ∧
    (∀ ip protocol, s.recorded.count (ip, protocol) =
      ((s.log.summaries.filter fun l ↦ l.ip = ip).map fun l ↦ (l.protos.lookup protocol).getD 0).sum +
        ((s.log.table.vals.filter fun e ↦ e.ip = ip).map fun e ↦
          (e.protos.lookup protocol).getD 0).sum) ∧
    (.closed ∈ s.calls → s.log.table.vals = [] ∧
      ∀ rest, (probesAfter net window maxEntries (actions ++ rest)).recorded = s.recorded) ∧
    (s.log.table.len : ℤ) ≤ maxEntries ∧
    (Along (ProbeRun.step net) (fun s a ↦ s.inOrder a = true) (.start window maxEntries) actions →
      ∀ call now, s.calls[call]? = some (.flushDue now) →
        ∀ e ∈ (s.step net (.resume call)).log.table.vals, since now e.start < window) := by
  intro s
  have hinv : s.Inv window maxEntries := probesAfter_inv hcapacity actions
  refine ⟨?_, ?_, ?_, ?_, ?_, ?_⟩
  · have htally := hinv.tally (.sessions fun _ ↦ true)
    simpa [tally, IndexedList.total, Measure.sessions] using htally.symm
  · intro ip
    have htally := hinv.tally (.sessions fun source ↦ decide (source = ip))
    simp only [tally, IndexedList.total, Measure.sessions, decide_eq_true_eq] at htally
    rw [sum_map_ite_zero, sum_map_ite_zero, sum_map_ite_one] at htally
    exact htally.symm
  · intro ip protocol
    have htally := hinv.tally (.protocol ip protocol)
    simp only [tally, IndexedList.total, Measure.protocol] at htally
    rw [sum_map_ite_zero, sum_map_ite_zero, sum_map_ite_one] at htally
    refine Eq.trans ?_ htally.symm
    apply countP_congr
    intro r _
    simp
  · intro hclosed
    exact ⟨hinv.empty hclosed, probesAfter_closed hcapacity hclosed⟩
  · have hbounded := hinv.sound.bounded
    rwa [hinv.settings.2] at hbounded
  · intro halong call now hcall
    have hordered := probesAfter_ordered hcapacity halong
    have hcomplete := flushDue_complete now hinv.sound.wf hordered
    rw [hinv.settings.1] at hcomplete
    simp only [ProbeRun.step, hcall]
    exact hcomplete

/-- Two sources: the second one reads the clock later and enters first, so that it stands in front of
the first one when the window of the first one has passed. -/
def overtaken : List ProbeAction :=
  [.tick 1, .callRecord "a" "ssh", .tick 1, .callRecord "b" "ssh", .resume 1, .resume 0, .tick 4,
    .callFlushDue]

/-- The flush at time 6 leaves the entry that was started at time 1, with a window of 5. -/
theorem flushDue_leaves_elapsed :
    (probesAfter .binary 5 10 overtaken).calls[2]? = some (.flushDue 6) ∧
      ∃ e ∈ ((probesAfter .binary 5 10 overtaken).step .binary (.resume 2)).log.table.vals,
        5 ≤ since 6 e.start := by
  refine ⟨by decide, ?_⟩
  have hleft : ((probesAfter .binary 5 10 overtaken).step .binary (.resume 2)).log.table.vals.any
      (fun e ↦ decide (5 ≤ since 6 e.start)) = true := by decide
  simpa using hleft

/-- The same calls without the overtaking. -/
def queued : List ProbeAction :=
  [.tick 1, .callRecord "a" "ssh", .tick 1, .callRecord "b" "ssh", .resume 0, .resume 1, .tick 4,
    .callFlushDue]

theorem probe_log_conserves_queued :
    (probesAfter .binary 5 10 queued).recorded.length = 2 ∧
      ∀ e ∈ ((probesAfter .binary 5 10 queued).step .binary (.resume 2)).log.table.vals,
        since 6 e.start < 5 := by
  have hlaw := probe_log_conserves .binary 5 10 (by decide) queued
  exact ⟨by decide, hlaw.2.2.2.2.2 (by decide) 2 6 (by decide)⟩

end RanHoneypot.Alert
