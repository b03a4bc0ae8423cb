import RanHoneypot.Alert.WorkerTrace

/-!
# The work left after Close

After `Close` the worker still drains the channel, but it does not try for ever: at most two of the
flush attempts that begin after `Close` fail, however many alerts are queued. The argument counts what
can still go wrong. A failure after `Close` is followed by a hold that `Close` interrupts, which makes
the worker abandon its normal attempts; after that it has one final attempt, which may bring the
normal attempts back, but only once. So every failure uses up one of two things, the attempts that are
not abandoned yet or the final attempt that was not tried yet, and neither comes back for free.
-/

namespace RanHoneypot.Alert

open TimedRun List Worker LogEntry Pipeline

/-- The kind of the flush attempt in progress, `true` for the final one. -/
def Worker.attempting : Worker → Option Bool
  | posting _ final _ _ => some final
  | loggingIn _ final _ => some final
  | _ => none

/-- The worker undoes a batch and will hold after it. -/
def Worker.holdDue : Worker → Bool
  | failing _ hold _ => hold
  | reverting _ _ hold _ => hold
  | releasing _ _ hold _ => hold
  | _ => false

def Worker.isHolding : Worker → Bool
  | holding _ => true
  | _ => false

def Action.isHoldTimer : Action → Bool
  | holdTimer => true
  | _ => false

/-- The step is neither one of the worker nor `Close`. -/
def Action.quiet : Action → Bool
  | call _ => true
  | thread _ _ => true
  | shunned _ _ => true
  | rejected _ _ => true
  | sweep _ => true
  | flush _ => true
  | cleanup _ => true
  | _ => false

namespace Traced

/-- How many attempts that began after `Close` have failed. -/
def lateFailures (t : Traced) : ℕ := t.attempts.countP Attempt.failedLate

/-- The final attempt was made and failed. -/
def finalFailed (t : Traced) : Bool := t.attempts.any fun attempt ↦ attempt.final && !attempt.ok

/-- The worker has abandoned its normal attempts, or will when the hold that is due or in progress
sees that the sink is closed. -/
def doomed (t : Traced) : Bool :=
  t.pipeline.abandon || t.pipeline.worker.holdDue && t.pipeline.sink.closed ||
    t.pipeline.worker.isHolding && t.late

/-- A hold that began after `Close` is not ended by its timer. -/
def HoldSeesClose (t : Traced) (a : Action) : Prop :=
  a.isHoldTimer = true → t.pipeline.worker.isHolding = true → t.late = false

instance (t : Traced) (a : Action) : Decidable (t.HoldSeesClose a) :=
  inferInstanceAs (Decidable (_ → _ → _))

/-- Nothing will be posted any more. -/
structure Spent (t : Traced) : Prop where
  doomed : t.doomed = true
  tried : t.pipeline.finalTried = true
  idle : t.pipeline.worker.attempting = none

/-- What bounds the failures. The worker is doomed or can still be, the final attempt is open or was
used, and a final attempt in progress may fail too: each of the three is worth one failure. -/
structure Winding (t : Traced) : Prop where
  budget : t.lateFailures + (!t.doomed).toNat + (!t.pipeline.finalTried).toNat +
    (t.pipeline.worker.attempting == some true).toNat ≤ 2
  late : t.late = true → t.pipeline.sink.closed = true
  abandon : t.pipeline.abandon = true → t.pipeline.sink.closed = true
  normal : t.pipeline.worker.attempting = some false → t.pipeline.abandon = false
  last : t.pipeline.worker.attempting = some true →
    t.pipeline.abandon = true ∧ t.pipeline.finalTried = true
  failed : t.finalFailed = true → t.Spent

/-- The same between two rounds, when only the two flags decide how the worker goes on. -/
structure Ready (t : Traced) : Prop where
  budget : t.lateFailures + (!t.pipeline.abandon).toNat + (!t.pipeline.finalTried).toNat ≤ 2
  late : t.late = true → t.pipeline.sink.closed = true
  abandon : t.pipeline.abandon = true → t.pipeline.sink.closed = true
  failed : t.finalFailed = true → t.pipeline.abandon = true ∧ t.pipeline.finalTried = true

variable {t t' : Traced}

theorem lateFailures_attempted (batch : List AlertMsg) (final ok : Bool) :
    (t.attempted batch final ok).lateFailures = t.lateFailures + (t.late && !ok).toNat := by
  simp only [lateFailures, attempted, countP_append]
  cases t.late <;> cases ok <;> rfl

theorem finalFailed_attempted (batch : List AlertMsg) (final ok : Bool) :
    (t.attempted batch final ok).finalFailed = (t.finalFailed || (final && !ok)) := by
  simp [finalFailed, attempted]

/-! ## Attempts and rounds -/

section

variable (worker : Worker)

@[simp] theorem goesOn_lateFailures : (t.goesOn worker).lateFailures = t.lateFailures := rfl

@[simp] theorem goesOn_finalFailed : (t.goesOn worker).finalFailed = t.finalFailed := rfl

@[simp] theorem goesOn_finalTried :
    (t.goesOn worker).pipeline.finalTried = t.pipeline.finalTried := rfl

@[simp] theorem goesOn_worker : (t.goesOn worker).pipeline.worker = worker := rfl

theorem goesOn_doomed : (t.goesOn worker).doomed =
    (t.pipeline.abandon || worker.holdDue && t.pipeline.sink.closed ||
      worker.isHolding && t.late) := rfl

end

variable (net : Netip) {final : Bool}

/-- The worker waits, or has ended. -/
theorem Ready.goesOn (h : t.Ready) {worker : Worker} (hattempt : worker.attempting = none)
    (hdue : worker.holdDue = false) (hholding : worker.isHolding = false) :
    (t.goesOn worker).Winding :=
  { h with
    budget := by
      rw [goesOn_doomed]
      simpa [hattempt, hdue, hholding] using h.budget
    normal := by simp [hattempt]
    last := by simp [hattempt]
    failed := by
      intro hfailed
      have hflags := h.failed hfailed
      exact ⟨by simp [goesOn_doomed, hflags.1], hflags.2, hattempt⟩ }

/-- While an attempt is in progress no hold is due, so only the flag says that it was abandoned. -/
theorem doomed_of_attempting (hattempt : t.pipeline.worker.attempting = some final) :
    t.doomed = t.pipeline.abandon := by
  have hfree : t.pipeline.worker.holdDue = false ∧ t.pipeline.worker.isHolding = false := by
    cases hworker : t.pipeline.worker with
    | posting | loggingIn => exact ⟨rfl, rfl⟩
    | _ =>
      rw [hworker] at hattempt
      exact absurd hattempt (by simp [attempting])
  simp [doomed, hfree.1, hfree.2]

theorem Winding.not_finalFailed (h : t.Winding)
    (hattempt : t.pipeline.worker.attempting = some final) : t.finalFailed = false := by
  by_contra hne
  have hspent := h.failed (eq_true_of_ne_false hne)
  cases hspent.idle.symm.trans hattempt

section

variable (h : t.Winding) (hattempt : t.pipeline.worker.attempting = some final)

include h hattempt

/-- The attempt in progress goes on, with the login or with the second post. -/
theorem Winding.attemptGoesOn {worker : Worker} (hworker : worker.attempting = some final) :
    (t.goesOn worker).Winding :=
  { h with
    budget := by
      have hattempt' : (t.goesOn _).pipeline.worker.attempting = some final := hworker
      have hbudget := h.budget
      rw [doomed_of_attempting hattempt, hattempt] at hbudget
      rw [doomed_of_attempting hattempt', hattempt']
      exact hbudget
    normal := fun hnormal ↦ h.normal (hattempt.trans (hworker.symm.trans hnormal))
    last := fun hlast ↦ h.last (hattempt.trans (hworker.symm.trans hlast))
    failed := fun hfailed ↦ absurd ((h.not_finalFailed hattempt).symm.trans hfailed) (by simp) }

theorem Winding.abandon_eq : t.pipeline.abandon = final := by
  cases final with
  | false => exact h.normal hattempt
  | true => exact (h.last hattempt).1

theorem Winding.budget_attempt : t.lateFailures + 1 + (!t.pipeline.finalTried).toNat ≤ 2 := by
  have hbudget := h.budget
  rw [doomed_of_attempting hattempt, h.abandon_eq hattempt, hattempt] at hbudget
  cases final with
  | false => exact hbudget
  | true =>
    rw [(h.last hattempt).2] at hbudget ⊢
    exact hbudget

/-- The attempt in progress fails: the worker undoes the batch. After a normal attempt it holds, and
after the final one it posts nothing more. -/
theorem Winding.attemptFails (batch : List AlertMsg) (k : Resume) :
    ((t.attempted batch final false).goesOn (.failing batch (!final) k)).Winding := by
  have habandon := h.abandon_eq hattempt
  have hdoomed : ((t.attempted batch final false).goesOn (.failing batch (!final) k)).doomed =
      t.pipeline.sink.closed := by
    rw [goesOn_doomed]
    cases final with
    | false => simp [attempted, habandon, holdDue, isHolding]
    | true => simp [attempted, habandon, h.abandon habandon]
  exact
    { h with
      budget := by
        have hcount : (t.late && !false).toNat + (!t.pipeline.sink.closed).toNat ≤ 1 := by
          cases hclosed : t.pipeline.sink.closed with
          | true => cases t.late <;> simp
          | false =>
            have hearly : t.late = false := by
              by_contra hne
              exact absurd (h.late (eq_true_of_ne_false hne)) (by simp [hclosed])
            simp [hearly]
        rw [hdoomed, goesOn_lateFailures, lateFailures_attempted]
        calc t.lateFailures + (t.late && !false).toNat + (!t.pipeline.sink.closed).toNat +
              (!t.pipeline.finalTried).toNat + 0
            ≤ t.lateFailures + 1 + (!t.pipeline.finalTried).toNat := by omega
          _ ≤ 2 := h.budget_attempt hattempt
      normal := by simp [attempting]
      last := by simp [attempting]
      failed := by
        rw [goesOn_finalFailed, finalFailed_attempted, h.not_finalFailed hattempt]
        intro hfailed
        have hfinal : final = true := by simpa using hfailed
        subst hfinal
        exact ⟨hdoomed.trans (h.abandon habandon), (h.last hattempt).2, rfl⟩ }

end

/-- An attempt begins, or fails at once because an alert of the batch was not marshaled. -/
theorem Winding.flushWithin {batch : List AlertMsg} {k : Resume}
    (h : ({ t with late := t.pipeline.sink.closed }.goesOn
      (.posting batch final false k)).Winding) : (t.flushWithin batch final k).Winding := by
  unfold Traced.flushWithin
  split
  · exact h
  · exact h.attemptFails rfl batch k

theorem Ready.flushNormal (h : t.Ready) (habandon : t.pipeline.abandon = false)
    (batch : List AlertMsg) (k : Resume) : (t.flushWithin batch false k).Winding := by
  apply Winding.flushWithin
  exact
    { h with
      budget := by
        have hbudget := h.budget
        simp only [goesOn_doomed, habandon, holdDue] at hbudget ⊢
        exact hbudget
      late := id
      normal := fun _ ↦ habandon
      last := by simp [attempting]
      failed := fun hfailed ↦ absurd (h.failed hfailed).1 (by simp [habandon]) }

theorem Ready.flushFinal (h : t.Ready) (habandon : t.pipeline.abandon = true)
    (htried : t.pipeline.finalTried = false) (batch : List AlertMsg) (k : Resume) :
    (t.setFinalTried.flushWithin batch true k).Winding := by
  have hbudget : t.lateFailures ≤ 1 := by simpa [habandon, htried] using h.budget
  apply Winding.flushWithin
  exact
    { h with
      budget := by
        simp only [goesOn_doomed, setFinalTried, habandon]
        exact Nat.add_le_add_right hbudget 1
      late := id
      normal := by simp [attempting]
      last := fun _ ↦ ⟨habandon, rfl⟩
      failed := fun hfailed ↦ absurd (h.failed hfailed).2 (by simp [htried]) }

theorem Ready.sendBatch (h : t.Ready) (batch : List AlertMsg) (k : Resume) :
    (t.sendBatch batch k).Winding := by
  unfold Traced.sendBatch
  split
  · next habandon =>
    split
    · next htried => exact h.flushFinal habandon (by simpa using htried) _ k
    · exact Ready.goesOn (t := { t with discarded := t.discarded ++ [batch] }) { h with } rfl rfl rfl
  · next habandon => exact h.flushNormal (by simpa using habandon) _ k

/-- What the rest of a round has to keep: from `Before` it comes to `After`, whether the worker goes
on without an attempt, hands over an empty batch or sends one. -/
structure Rounds (Before After : Traced → Prop) : Prop where
  goesOn {t : Traced} {worker : Worker} : Before t → worker.attempting = none →
    worker.holdDue = false → worker.isHolding = false → After (t.goesOn worker)
  handOver {t : Traced} : Before t → Before (t.handOver [])
  sendBatch {t : Traced} {batch : List AlertMsg} : Before t → batch ≠ [] → ∀ k,
    After ((t.handOver batch).sendBatch batch k)

namespace Rounds

variable {Before After : Traced → Prop} (hrounds : Rounds Before After) (h : Before t)

include hrounds h

variable (batch : List AlertMsg)

theorem append (bytes : ℕ) (msg : AlertMsg) : After (t.append batch bytes msg) := by
  unfold Traced.append
  dsimp only
  split
  · exact hrounds.sendBatch h (by simp) _
  · exact hrounds.goesOn h rfl rfl rfl

theorem resume (k : Resume) : After (t.resume k) := by
  cases k with
  | append msg => exact hrounds.append h [] 0 _
  | next | finish => exact hrounds.goesOn h rfl rfl rfl

theorem send (k : Resume) : After (t.send batch k) := by
  unfold Traced.send
  split
  · next hempty =>
    rw [hempty]
    exact hrounds.resume (hrounds.handOver h) k
  · next hbatch => exact hrounds.sendBatch h hbatch k

theorem received (bytes : ℕ) (msg : AlertMsg) : After (t.received batch bytes msg) := by
  unfold Traced.received
  split
  · exact hrounds.send h ..
  · split
    · exact hrounds.goesOn h rfl rfl rfl
    · split
      · exact hrounds.send h ..
      · exact hrounds.append h ..

end Rounds

variable {worker : Worker} {a : Action}

theorem ready_rounds : Rounds Ready Winding where
  goesOn h := h.goesOn
  handOver h := { h with }
  sendBatch {t batch} h _ k := Ready.sendBatch (t := t.handOver batch) { h with } batch k

/-- A worker that neither flushes nor holds nor is about to hold is ready. -/
theorem Winding.ready (h : t.Winding) (hworker : t.pipeline.worker = worker)
    (hattempt : worker.attempting = none := by rfl) (hdue : worker.holdDue = false := by rfl)
    (hholding : (worker.isHolding && t.late) = false := by rfl) : t.Ready := by
  have hdoomed : t.doomed = t.pipeline.abandon := by simp [doomed, hworker, hdue, hholding]
  have hbudget := h.budget
  rw [hdoomed, hworker, hattempt] at hbudget
  refine ⟨hbudget, h.late, h.abandon, ?_⟩
  intro hfailed
  have hspent := h.failed hfailed
  exact ⟨hdoomed ▸ hspent.doomed, hspent.tried⟩

/-- `t'` differs from `t` in nothing that the shutdown depends on. -/
structure Steady (t t' : Traced) : Prop where
  attempting : t'.pipeline.worker.attempting = t.pipeline.worker.attempting := by rfl
  holdDue : t'.pipeline.worker.holdDue = t.pipeline.worker.holdDue := by rfl
  isHolding : t'.pipeline.worker.isHolding = t.pipeline.worker.isHolding := by rfl
  abandon : t'.pipeline.abandon = t.pipeline.abandon := by rfl
  tried : t'.pipeline.finalTried = t.pipeline.finalTried := by rfl
  closed : t'.pipeline.sink.closed = t.pipeline.sink.closed := by rfl
  late : t'.late = t.late := by rfl
  attempts : t'.attempts = t.attempts := by rfl
  handed : t'.handed = t.handed := by rfl
  discarded : t'.discarded = t.discarded := by rfl
  pushes : t'.pipeline.log.filter pushes = t.pipeline.log.filter pushes := by rfl

theorem Steady.doomed (h : t.Steady t') : t'.doomed = t.doomed := by
  simp only [Traced.doomed, h.abandon, h.holdDue, h.isHolding, h.closed, h.late]

theorem Steady.spent (h : t.Steady t') (hspent : t.Spent) : t'.Spent where
  doomed := by rw [h.doomed, hspent.doomed]
  tried := by rw [h.tried, hspent.tried]
  idle := by rw [h.attempting, hspent.idle]

theorem Steady.winding (hsteady : t.Steady t') (h : t.Winding) : t'.Winding where
  budget := by
    rw [lateFailures, hsteady.attempts, hsteady.doomed, hsteady.tried, hsteady.attempting]
    exact h.budget
  late := by
    rw [hsteady.late, hsteady.closed]
    exact h.late
  abandon := by
    rw [hsteady.abandon, hsteady.closed]
    exact h.abandon
  normal := by
    rw [hsteady.attempting, hsteady.abandon]
    exact h.normal
  last := by
    rw [hsteady.attempting, hsteady.abandon, hsteady.tried]
    exact h.last
  failed := by
    rw [finalFailed, hsteady.attempts]
    intro hfailed
    exact hsteady.spent (h.failed hfailed)

/-! ## Steps that the shutdown does not depend on -/

theorem filter_pushes_concat {log entries : List LogEntry}
    (hentries : entries.filter pushes = []) :
    (log ++ entries).filter pushes = log.filter pushes := by
  rw [filter_append, hentries, append_nil]

/-- A `Submit` call leaves the worker, its flags and what was pushed alone. -/
theorem steady_submitStep (t : Traced) (call now : ℕ) (phase : Phase) :
    t.Steady { t with pipeline := t.pipeline.submitStep net call now phase } := by
  have hframe := submitStep_frame net t.pipeline call now phase
  rcases hframe.log with ⟨entries, hlog, hentries⟩
  exact
    { attempting := by rw [hframe.worker]
      holdDue := by rw [hframe.worker]
      isHolding := by rw [hframe.worker]
      abandon := hframe.abandon
      tried := hframe.finalTried
      closed := hframe.closed
      pushes := by
        rw [hlog]
        exact filter_pushes_concat hentries }

theorem steady_thread (t : Traced) (call now : ℕ) : t.Steady (t.thread net call now) := by
  unfold Traced.thread
  simp only [Pipeline.step]
  cases hphase : t.pipeline.threads[call]? with
  | none => exact {}
  | some phase =>
    have hsteady := steady_submitStep net t call now phase
    cases phase with
    | sending msg =>
      dsimp only
      split <;> exact { hsteady with }
    | _ => exact hsteady

theorem steady_step (t : Traced) (hquiet : a.quiet = true) : t.Steady (t.step net a) := by
  cases a with
  | thread call now => exact steady_thread _ t ..
  | call ev => exact { pushes := filter_pushes_concat rfl }
  | shunned | rejected | sweep | flush | cleanup => exact {}
  | _ => cases hquiet

/-- The steps of `failBatch` between two alerts. -/
theorem steady_fail {now : ℕ} (hdone : ∀ hold k, t.pipeline.worker ≠ .failing [] hold k) :
    t.Steady { t with pipeline := t.pipeline.fail now } := by
  unfold Pipeline.fail
  split
  · next hold k hworker => exact absurd hworker (hdone hold k)
  · next hworker =>
    refine ⟨?_, ?_, ?_, rfl, rfl, rfl, rfl, rfl, rfl, rfl, filter_pushes_concat rfl⟩ <;>
      rw [hworker] <;> rfl
  · next hworker =>
    refine ⟨?_, ?_, ?_, rfl, rfl, rfl, rfl, rfl, rfl, rfl, filter_pushes_concat rfl⟩ <;>
      rw [hworker] <;> rfl
  · next hworker =>
    split
    · refine ⟨?_, ?_, ?_, rfl, rfl, rfl, rfl, rfl, rfl, rfl, filter_pushes_concat rfl⟩ <;>
        rw [hworker] <;> rfl
    · refine ⟨?_, ?_, ?_, rfl, rfl, rfl, rfl, rfl, rfl, rfl, rfl⟩ <;> rw [hworker] <;> rfl
  · exact {}

/-! ## The bound -/

theorem Winding.receive (h : t.Winding) (marshaled : Option ℕ) : (t.receive marshaled).Winding := by
  unfold Traced.receive
  split
  · next batch bytes hworker =>
    have hready := h.ready hworker
    split
    · split
      · exact ready_rounds.send hready ..
      · exact h
    · next msg rest _ =>
      have htaken : (t.take msg marshaled rest).Ready := { hready with }
      exact ready_rounds.received htaken ..
  · exact h

theorem Winding.tick (h : t.Winding) : t.tick.Winding := by
  unfold Traced.tick
  split
  · next batch bytes hworker =>
    split
    · exact ready_rounds.send (h.ready hworker) ..
    · exact h
  · exact h

section

variable (h : t.Winding) (hattempt : t.pipeline.worker.attempting = some final)

include h hattempt

/-- The attempt in progress succeeds. The final one brings the normal attempts back. -/
theorem Winding.accepted (batch : List AlertMsg) (k : Resume) :
    (t.accepted batch final k).Winding := by
  refine ready_rounds.resume ?_ k
  have hcount : (t.attempted batch final true).lateFailures = t.lateFailures := by
    rw [lateFailures_attempted, Bool.not_true, Bool.and_false]
    rfl
  have hfinal : (t.attempted batch final true).finalFailed = false := by
    rw [finalFailed_attempted, h.not_finalFailed hattempt, Bool.not_true, Bool.and_false]
    rfl
  have hflag : (if final then false else t.pipeline.abandon) = false := by
    cases final with
    | false => exact h.abandon_eq hattempt
    | true => rfl
  rw [hflag]
  exact
    { budget := by
        have hbudget := h.budget_attempt hattempt
        rw [← hcount] at hbudget
        exact hbudget
      late := h.late
      abandon := nofun
      failed := fun hfailed ↦ absurd (hfinal.symm.trans hfailed) (by simp) }

end

theorem Winding.write (h : t.Winding) (entries : List LogEntry) : (t.write entries).Winding :=
  { h with failed := fun hfailed ↦ { h.failed hfailed with } }

theorem Winding.reply (h : t.Winding) (status : Option ℤ) : (t.reply status).Winding := by
  unfold Traced.reply
  split
  · next batch final again k hworker =>
    have hattempt : t.pipeline.worker.attempting = some final := by
      rw [hworker]
      rfl
    have hposted := h.write [.posted batch]
    split
    · exact hposted.attemptGoesOn hattempt rfl
    · split
      · exact hposted.accepted hattempt _ k
      · exact hposted.attemptFails hattempt _ k
  · exact h

theorem Winding.login (h : t.Winding) (ok : Bool) : (t.login ok).Winding := by
  unfold Traced.login
  split
  · next batch final k hworker =>
    have hattempt : t.pipeline.worker.attempting = some final := by
      rw [hworker]
      rfl
    split
    · exact h.attemptGoesOn hattempt rfl
    · exact h.attemptFails hattempt _ k
  · exact h

/-- A hold begins. Whether it will see that the sink is closed is decided now. -/
theorem doomed_hold {k : Resume} (hdue : t.pipeline.worker.holdDue = true)
    (hholding : t.pipeline.worker.isHolding = false) :
    ({ t with late := t.pipeline.sink.closed }.goesOn (.holding k)).doomed = t.doomed := by
  rw [goesOn_doomed, doomed, hdue, hholding]
  simp [holdDue, isHolding]

theorem Winding.fail (h : t.Winding) (now : ℕ) : (t.fail now).Winding := by
  unfold Traced.fail
  split
  · next hold k hworker =>
    have hidle : t.pipeline.worker.attempting = none := by
      rw [hworker]
      rfl
    split
    · next hdue =>
      have hdoomed : ({ t with late := t.pipeline.sink.closed }.goesOn (.holding k)).doomed =
          t.doomed := by
        apply doomed_hold
        · rw [hworker]
          exact hdue
        · rw [hworker]
          rfl
      exact
        { h with
          budget := by
            have hbudget := h.budget
            rw [hidle] at hbudget
            rw [hdoomed]
            exact hbudget
          late := id
          normal := by simp [attempting]
          last := by simp [attempting]
          failed := fun hfailed ↦
            ⟨hdoomed.trans (h.failed hfailed).doomed, (h.failed hfailed).tried, rfl⟩ }
    · next hdue => exact ready_rounds.resume (h.ready hworker rfl (Bool.eq_false_iff.mpr hdue)) k
  · next hdone => exact (steady_fail hdone).winding h

theorem Winding.holdTimer (h : t.Winding) (hguard : t.HoldSeesClose .holdTimer) :
    t.holdTimer.Winding := by
  unfold Traced.holdTimer
  split
  · next k hworker =>
    have hlate : t.late = false := hguard rfl (by rw [hworker]; rfl)
    exact ready_rounds.resume (h.ready hworker rfl rfl hlate) k
  · exact h

theorem Winding.holdStop (h : t.Winding) : t.holdStop.Winding := by
  unfold Traced.holdStop
  split
  · next k hworker =>
    split
    · next hclosed =>
      refine ready_rounds.resume ?_ k
      exact
        { h with
          budget := by
            calc t.lateFailures + 0 + (!t.pipeline.finalTried).toNat
                ≤ t.lateFailures + (!t.doomed).toNat + (!t.pipeline.finalTried).toNat := by omega
              _ ≤ 2 := Nat.le_trans (Nat.le_add_right ..) h.budget
          abandon := fun _ ↦ hclosed
          failed := fun hfailed ↦ ⟨rfl, (h.failed hfailed).tried⟩ }
    · exact h
  · exact h

/-- `Close` can only bring the end of the attempts nearer. -/
theorem doomed_close (hdoomed : t.doomed = true) :
    ({ t with pipeline := t.pipeline.close } : Traced).doomed = true := by
  unfold close
  split
  · exact hdoomed
  · simp only [doomed, Bool.or_eq_true, Bool.and_eq_true] at hdoomed ⊢
    rcases hdoomed with (habandon | hdue) | hholding
    · exact .inl (.inl habandon)
    · exact .inl (.inr ⟨hdue.1, trivial⟩)
    · exact .inr hholding

theorem close_flags (p : Pipeline) : p.close.worker = p.worker ∧ p.close.abandon = p.abandon ∧
    p.close.finalTried = p.finalTried ∧ p.close.log = p.log ∧
    (p.sink.closed = true → p.close.sink.closed = true) := by
  unfold close
  split
  · exact ⟨rfl, rfl, rfl, rfl, id⟩
  · exact ⟨rfl, rfl, rfl, rfl, fun _ ↦ rfl⟩

theorem Spent.close (h : t.Spent) : ({ t with pipeline := t.pipeline.close } : Traced).Spent := by
  have hflags := close_flags t.pipeline
  exact ⟨doomed_close h.doomed, hflags.2.2.1.trans h.tried,
    (congrArg _ hflags.1).trans h.idle⟩

theorem Winding.close (h : t.Winding) :
    ({ t with pipeline := t.pipeline.close } : Traced).Winding := by
  have hflags := close_flags t.pipeline
  exact
    { budget := by
        have hdoomed : (!({ t with pipeline := t.pipeline.close } : Traced).doomed).toNat ≤
            (!t.doomed).toNat := by
          cases hbefore : t.doomed with
          | true =>
            rw [doomed_close hbefore]
          | false => exact Bool.toNat_le _
        have hbudget := h.budget
        simp only [hflags.1, hflags.2.2.1]
        have hcount : ({ t with pipeline := t.pipeline.close } : Traced).lateFailures =
          t.lateFailures := rfl
        omega
      late := fun hlate ↦ hflags.2.2.2.2 (h.late hlate)
      abandon := fun habandon ↦ hflags.2.2.2.2 (h.abandon (hflags.2.1.symm.trans habandon))
      normal := by
        simp only [hflags.1, hflags.2.1]
        exact h.normal
      last := by
        simp only [hflags.1, hflags.2.1, hflags.2.2.1]
        exact h.last
      failed := fun hfailed ↦ (h.failed hfailed).close }

theorem Winding.start (cfg : CrowdSecConfig) : (Traced.start cfg).Winding where
  budget := Nat.le_refl 2
  late := nofun
  abandon := nofun
  normal := fun _ ↦ rfl
  last := by
    intro hlast
    exact absurd hlast (by simp [Traced.start, Pipeline.start, attempting])
  failed := nofun

theorem Winding.step (h : t.Winding) (net : Netip) (hguard : t.HoldSeesClose a) :
    (t.step net a).Winding := by
  cases a with
  | receive marshaled => exact h.receive _
  | tick => exact h.tick
  | reply status => exact h.reply _
  | login ok => exact h.login ok
  | fail now => exact h.fail _
  | holdTimer => exact h.holdTimer hguard
  | holdStop => exact h.holdStop
  | close => exact h.close
  | _ => exact (steady_step _ t rfl).winding h

/-! ## After the last failure -/

/-- From `t` to `t'` the worker posted nothing: it began no attempt and failed what it was handed. -/
structure GivesUp (t t' : Traced) : Prop where
  spent : t'.Spent
  attempts : t'.attempts = t.attempts
  handed : ∃ batches, t'.handed = t.handed ++ batches ∧
    t'.discarded = t.discarded ++ batches.filter fun batch ↦ !batch.isEmpty
  pushes : t'.pipeline.log.filter pushes = t.pipeline.log.filter pushes

theorem GivesUp.refl (h : t.Spent) : t.GivesUp t :=
  ⟨h, rfl, ⟨[], by simp⟩, rfl⟩

theorem GivesUp.trans {s : Traced} (hfirst : s.GivesUp t) (hsecond : t.GivesUp t') :
    s.GivesUp t' where
  spent := hsecond.spent
  attempts := hsecond.attempts.trans hfirst.attempts
  handed := by
    rcases hfirst.handed with ⟨first, hhanded, hdiscarded⟩
    rcases hsecond.handed with ⟨second, hhanded', hdiscarded'⟩
    refine ⟨first ++ second, ?_, ?_⟩
    · rw [hhanded', hhanded, append_assoc]
    · rw [hdiscarded', hdiscarded, filter_append, append_assoc]
  pushes := hsecond.pushes.trans hfirst.pushes

theorem Steady.givesUp (hsteady : t.Steady t') (h : t.Spent) : t.GivesUp t' :=
  { hsteady with
    spent := hsteady.spent h
    handed := ⟨[], by simp [hsteady.handed, hsteady.discarded]⟩ }

theorem givesUp_sendBatch (habandon : t.pipeline.abandon = true) (htried : t.pipeline.finalTried = true)
    {batch : List AlertMsg} (hbatch : batch ≠ []) (k : Resume) :
    t.GivesUp ((t.handOver batch).sendBatch batch k) := by
  have hdiscards : (t.handOver batch).sendBatch batch k =
      { t.handOver batch with discarded := t.discarded ++ [batch] }.goesOn
        (.failing batch false k) := by
    have habandon' : (t.handOver batch).pipeline.abandon = true := habandon
    rw [sendBatch, if_pos habandon', if_neg (by simp [handOver, htried])]
    rfl
  rw [hdiscards]
  exact
    { spent := ⟨by simp [goesOn_doomed, handOver, habandon], htried, rfl⟩
      attempts := rfl
      handed := ⟨[batch], rfl, by simp [goesOn, hbatch]⟩
      pushes := rfl }

theorem givesUp_rounds (s : Traced) :
    Rounds (fun t ↦ s.GivesUp t ∧ t.pipeline.abandon = true) s.GivesUp where
  goesOn h hidle _ _ := h.1.trans
    { spent := ⟨by simp [goesOn_doomed, h.2], h.1.spent.tried, hidle⟩
      attempts := rfl
      handed := ⟨[], by simp [goesOn]⟩
      pushes := rfl }
  handOver h := by
    refine ⟨h.1.trans ?_, h.2⟩
    exact ⟨{ h.1.spent with }, rfl, ⟨[[]], rfl, (append_nil _).symm⟩, rfl⟩
  sendBatch h hbatch k := h.1.trans (givesUp_sendBatch h.2 h.1.spent.tried hbatch k)

section

variable (h : t.Spent)

include h

/-- Where no hold is due or in progress, only the flag can say that the worker is doomed. -/
theorem Spent.gaveUp (hworker : t.pipeline.worker = worker)
    (hdue : worker.holdDue = false := by rfl)
    (hholding : (worker.isHolding && t.late) = false := by rfl) :
    t.GivesUp t ∧ t.pipeline.abandon = true := by
  have hdoomed := h.doomed
  rw [Traced.doomed, hworker, hdue, hholding] at hdoomed
  exact ⟨.refl h, by simpa using hdoomed⟩

theorem Spent.receive (marshaled : Option ℕ) : t.GivesUp (t.receive marshaled) := by
  unfold Traced.receive
  split
  · next batch bytes hworker =>
    have hgave := h.gaveUp hworker
    split
    · split
      · exact (givesUp_rounds t).send hgave ..
      · exact .refl h
    · next msg rest _ =>
      have htaken : t.GivesUp (t.take msg marshaled rest) := Steady.givesUp {} h
      exact (givesUp_rounds t).received ⟨htaken, hgave.2⟩ ..
  · exact .refl h

theorem Spent.tick : t.GivesUp t.tick := by
  unfold Traced.tick
  split
  · next batch bytes hworker =>
    split
    · exact (givesUp_rounds t).send (h.gaveUp hworker) ..
    · exact .refl h
  · exact .refl h

theorem Spent.reply (status : Option ℤ) : t.GivesUp (t.reply status) := by
  unfold Traced.reply
  split
  · next batch final again k hworker =>
    have hidle := h.idle
    rw [hworker] at hidle
    exact absurd hidle (by simp [attempting])
  · exact .refl h

theorem Spent.login (ok : Bool) : t.GivesUp (t.login ok) := by
  unfold Traced.login
  split
  · next batch final k hworker =>
    have hidle := h.idle
    rw [hworker] at hidle
    exact absurd hidle (by simp [attempting])
  · exact .refl h

theorem Spent.fail (now : ℕ) : t.GivesUp (t.fail now) := by
  unfold Traced.fail
  split
  · next hold k hworker =>
    cases hold with
    | true =>
      have hdoomed : ({ t with late := t.pipeline.sink.closed }.goesOn (.holding k)).doomed =
          t.doomed := doomed_hold (by rw [hworker]; rfl) (by rw [hworker]; rfl)
      exact ⟨⟨hdoomed.trans h.doomed, h.tried, rfl⟩, rfl, ⟨[], by simp [goesOn]⟩, rfl⟩
    | false => exact (givesUp_rounds t).resume (h.gaveUp hworker) k
  · next hdone => exact (steady_fail hdone).givesUp h

theorem Spent.step (net : Netip) (hguard : t.HoldSeesClose a) : t.GivesUp (t.step net a) := by
  cases a with
  | receive marshaled => exact h.receive _
  | tick => exact h.tick
  | reply status => exact h.reply _
  | login ok => exact h.login ok
  | fail now => exact h.fail _
  | holdTimer =>
    simp only [Traced.step, Traced.holdTimer]
    split
    · next k hworker =>
      have hlate : t.late = false := hguard rfl (by rw [hworker]; rfl)
      exact (givesUp_rounds t).resume (h.gaveUp hworker rfl hlate) k
    · exact .refl h
  | holdStop =>
    simp only [Traced.step, Traced.holdStop]
    split
    · next k hworker =>
      split
      · have hset : t.GivesUp (t.setAbandon true) := { GivesUp.refl h with spent := ⟨rfl, h.tried, h.idle⟩ }
        exact (givesUp_rounds t).resume ⟨hset, rfl⟩ k
      · exact .refl h
    · exact .refl h
  | close =>
    have hflags := close_flags t.pipeline
    exact
      { spent := h.close
        attempts := rfl
        handed := ⟨[], by simp [Traced.step]⟩
        pushes := congrArg (List.filter _) hflags.2.2.2.1 }
  | _ => exact (steady_step _ t rfl).givesUp h

end

/-- With two failures after `Close` the budget is used up. -/
theorem Winding.spent (h : t.Winding) (hover : t.lateFailures = 2 ∨ t.finalFailed = true) :
    t.Spent := by
  rcases hover with htwo | hfailed
  · have hbudget := h.budget
    have hdoomed : (!t.doomed).toNat = 0 := by omega
    have htried : (!t.pipeline.finalTried).toNat = 0 := by omega
    have hfinal : (t.pipeline.worker.attempting == some true).toNat = 0 := by omega
    have hdoomed' : t.doomed = true := by simpa using hdoomed
    refine ⟨hdoomed', by simpa using htried, ?_⟩
    cases hattempt : t.pipeline.worker.attempting with
    | none => rfl
    | some final =>
      cases final with
      | true =>
        rw [hattempt] at hfinal
        exact absurd hfinal (by decide)
      | false =>
        have habandon := h.normal hattempt
        rw [doomed_of_attempting hattempt, habandon] at hdoomed'
        cases hdoomed'
  · exact h.failed hfailed

end Traced

section

variable (net : Netip) (cfg : CrowdSecConfig)

theorem tracedAfter_winding {actions : List Action}
    (hholds : Along (Traced.step net) Traced.HoldSeesClose (.start cfg) actions) :
    (tracedAfter net cfg actions).Winding :=
  run_invariant_along Traced.Winding (fun _ _ hguard h ↦ h.step net hguard) hholds (.start cfg)

theorem tracedAfter_givesUp {earlier later : List Action}
    (hholds : Along (Traced.step net) Traced.HoldSeesClose (.start cfg) (earlier ++ later))
    (hspent : (tracedAfter net cfg earlier).Spent) :
    (tracedAfter net cfg earlier).GivesUp (tracedAfter net cfg (earlier ++ later)) := by
  rw [tracedAfter, tracedAfter, run_append]
  apply run_invariant_along _ _ (along_append.mp hholds).2 (.refl hspent)
  intro t a hguard hsofar
  exact hsofar.trans (hsofar.spent.step _ hguard)

end

/-- Without a new push no call is counted as sent any more. -/
theorem tally_sent_eq {p p' : Pipeline}
    (hpushes : p'.log.filter pushes = p.log.filter pushes) (call : ℕ) :
    p'.tally call .sent = p.tally call .sent := by
  have hcount : ∀ log : List LogEntry, log.count (.counted call .sent) =
      (log.filter pushes).count (.counted call .sent) := by
    intro log
    rw [count_filter]
    rfl
  rw [tally, tally, hcount, hcount p.log, hpushes]

/-- At most two attempts that begin after `Close` fail. After the second failure, or after that of
the final attempt, the worker begins no attempt and posts nothing: every batch handed to `send` is
failed instead, and when the worker has ended, so is every queued alert that had not been sent. -/
theorem shutdown_failures_bounded (net : Netip) (cfg : CrowdSecConfig) (actions : List Action)
    (hholds : Along (Traced.step net) Traced.HoldSeesClose (.start cfg) actions) :
    (tracedAfter net cfg actions).lateFailures ≤ 2 ∧
      ∀ earlier later, actions = earlier ++ later →
        let s := tracedAfter net cfg earlier
        let t := tracedAfter net cfg actions
        s.lateFailures = 2 ∨ s.finalFailed = true →
          t.attempts = s.attempts ∧ t.pipeline.worker.attempting = none ∧
          (∃ batches, t.handed = s.handed ++ batches ∧
            t.discarded = s.discarded ++ batches.filter fun batch ↦ !batch.isEmpty) ∧
          t.pipeline.log.filter pushes = s.pipeline.log.filter pushes ∧
          (t.pipeline.worker = .ended → ∀ call, t.pipeline.tally call .queued = 1 →
            s.pipeline.tally call .sent = 0 → t.pipeline.tally call .failed = 1) := by
  have hwinding := tracedAfter_winding net cfg hholds
  constructor
  · have hbudget := hwinding.budget
    omega
  · intro earlier later hsplit s t hover
    have hholds' := hsplit ▸ hholds
    have hspent : s.Spent :=
      (tracedAfter_winding _ _ (along_append.mp hholds').1).spent hover
    have hgives : s.GivesUp t := by
      have hgives' := tracedAfter_givesUp net cfg hholds' hspent
      rwa [← hsplit] at hgives'
    refine ⟨hgives.attempts, hgives.spent.idle, hgives.handed, hgives.pushes, ?_⟩
    intro hended call hqueued hunsent
    have hsound : t.pipeline.Sound := tracedAfter_pipeline net cfg actions ▸
      pipelineAfter_sound net cfg actions
    have htotal := (hsound.accounted call).queued hended
    have hsent := tally_sent_eq hgives.pushes call
    omega

/-- Three alerts are queued when the sink is closed, and the LAPI fails from then on. -/
def failingDrain : List Action :=
  let attack : Event :=
    { cls := .attack,
      info :=
        { sourceIP := Netip.binary.string (.v4 0x08080808#32), protocol := "ssh", transport := .tcp,
          destPort := 22, authAttempts := 0, commands := 0, payloadBytes := 0, alertedClass := none }
      meta' := ∅ }
  ([.call attack, .call attack, .call attack] : List Action) ++
    ([0, 1, 2].flatMap fun call ↦ List.replicate 6 (.thread call 10) : List Action) ++
    ([.close] : List Action) ++
    ([.receive (some 100), .reply none, .fail 20, .fail 20, .fail 20, .fail 20, .holdStop] : List Action) ++
    ([.receive (some 100), .reply (some 500), .fail 30, .fail 30, .fail 30, .fail 30] : List Action)

def lastAlert : List Action :=
  [.receive (some 100), .fail 40, .fail 40, .fail 40, .fail 40, .receive none]

def unbatched : CrowdSecConfig where
  banOn := [.attack]
  cooldown := 0
  shun := false
  repeatAfter := 0
  repeatCooldown := 0
  offenderReset := 1000
  batchInterval := 0
  batchSize := 1
  maxTracked := 10

theorem shutdown_failures_bounded_drain :
    (tracedAfter .binary unbatched failingDrain).lateFailures = 2 ∧
      (tracedAfter .binary unbatched (failingDrain ++ lastAlert)).pipeline.tally 2 .failed = 1 :=
  ⟨by decide +kernel,
    ((shutdown_failures_bounded .binary unbatched (failingDrain ++ lastAlert) (by decide +kernel)).2
      failingDrain lastAlert rfl (.inl (by decide +kernel))).2.2.2.2 (by decide +kernel) 2
      (by decide +kernel) (by decide +kernel)⟩

end RanHoneypot.Alert
