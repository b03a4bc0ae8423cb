import RanHoneypot.Alert.Pipeline

/-!
# What a step of the pipeline leaves alone

Only `Submit` itself and `Close`, which waits for it, look at the `Submit` calls in progress. Every
other action does the same whatever these calls are, and leaves them alone. The worker in turn does
little to the sink: it takes alerts off the channel and undoes failed ones.
-/

namespace RanHoneypot.Alert

/-! ## Submit calls in progress -/

/-- The actions that belong to no `Submit` call and wait for none. -/
def Action.apart : Action → Bool
  | call _ => false
  | thread _ _ => false
  | close => false
  | _ => true

namespace Pipeline

/-- The pipeline with other `Submit` calls in progress. -/
def withThreads (p : Pipeline) (threads : List Phase) : Pipeline := { p with threads := threads }

section

variable (p : Pipeline) (threads : List Phase) (batch : List AlertMsg) (msg : AlertMsg) (bytes : ℕ)
  (k : Resume)

theorem ite_withThreads {threads : List Phase} {c : Prop} [Decidable c] {yes no yes' no' : Pipeline}
    (hyes : yes' = yes.withThreads threads) (hno : no' = no.withThreads threads) :
    (if c then yes' else no') = (if c then yes else no).withThreads threads := by
  rw [hyes, hno]
  split <;> rfl

theorem flushWithin_withThreads (final : Bool) :
    (p.withThreads threads).flushWithin batch final k =
      (p.flushWithin batch final k).withThreads threads :=
  ite_withThreads rfl rfl

theorem sendBatch_withThreads : (p.withThreads threads).sendBatch batch k =
    (p.sendBatch batch k).withThreads threads := by
  refine ite_withThreads (ite_withThreads ?_ rfl) (flushWithin_withThreads p _ _ k _)
  exact flushWithin_withThreads { p with finalTried := true } threads batch k true

theorem append_withThreads : (p.withThreads threads).append batch bytes msg =
    (p.append batch bytes msg).withThreads threads :=
  ite_withThreads (sendBatch_withThreads p ..) rfl

theorem resume_withThreads : (p.withThreads threads).resume k = (p.resume k).withThreads threads := by
  cases k with
  | next batch bytes => rfl
  | append msg => exact append_withThreads p _ [] _ 0
  | finish => rfl

theorem send_withThreads : (p.withThreads threads).send batch k =
    (p.send batch k).withThreads threads :=
  ite_withThreads (resume_withThreads p threads k) (sendBatch_withThreads p threads batch k)

theorem received_withThreads : (p.withThreads threads).received batch bytes msg =
    (p.received batch bytes msg).withThreads threads := by
  refine ite_withThreads (send_withThreads p ..) ?_
  cases msg.raw with
  | none => rfl
  | some size =>
    exact ite_withThreads (send_withThreads p ..)
      (append_withThreads p ..)

theorem accepted_withThreads (final : Bool) : (p.withThreads threads).accepted batch final k =
    (p.accepted batch final k).withThreads threads := by
  exact resume_withThreads
    { p.write (batch.map fun msg : AlertMsg ↦ .counted msg.call .sent) with
      abandon := if final then false else p.abandon } threads k

end

variable (p : Pipeline) (threads : List Phase)

theorem receive_withThreads (size : Option ℕ) : (p.withThreads threads).receive size =
    (p.receive size).withThreads threads := by
  unfold receive
  simp only [show (p.withThreads threads).worker = p.worker from rfl,
    show (p.withThreads threads).sink = p.sink from rfl]
  cases p.worker with
  | receiving batch bytes =>
    cases p.sink.ch with
    | nil => exact ite_withThreads (send_withThreads p ..) rfl
    | cons msg rest =>
      exact received_withThreads { p with sink := { p.sink with ch := rest } } threads batch
        (msg.encode _) bytes
  | _ => rfl

theorem tick_withThreads : (p.withThreads threads).tick = p.tick.withThreads threads := by
  unfold tick
  simp only [show (p.withThreads threads).worker = p.worker from rfl]
  cases p.worker with
  | receiving batch bytes =>
    exact ite_withThreads (send_withThreads p ..) rfl
  | _ => rfl

theorem reply_withThreads (status : Option ℤ) : (p.withThreads threads).reply status =
    (p.reply status).withThreads threads := by
  unfold reply
  simp only [show (p.withThreads threads).worker = p.worker from rfl]
  cases p.worker with
  | posting batch final again k =>
    exact ite_withThreads rfl
      (ite_withThreads (accepted_withThreads (p.write _) _ _ k _) rfl)
  | _ => rfl

theorem login_withThreads (ok : Bool) : (p.withThreads threads).login ok =
    (p.login ok).withThreads threads := by
  unfold login
  simp only [show (p.withThreads threads).worker = p.worker from rfl]
  cases p.worker with
  | loggingIn batch final k => exact ite_withThreads rfl rfl
  | _ => rfl

theorem fail_withThreads (now : ℕ) : (p.withThreads threads).fail now =
    (p.fail now).withThreads threads := by
  unfold fail
  simp only [show (p.withThreads threads).worker = p.worker from rfl]
  cases p.worker with
  | failing rest hold k =>
    cases rest with
    | nil => exact ite_withThreads rfl (resume_withThreads p _ k)
    | cons msg rest => rfl
  | releasing msg rest hold k => exact ite_withThreads rfl rfl
  | _ => rfl

theorem holdTimer_withThreads : (p.withThreads threads).holdTimer =
    p.holdTimer.withThreads threads := by
  unfold holdTimer
  simp only [show (p.withThreads threads).worker = p.worker from rfl]
  cases p.worker with
  | holding k => exact resume_withThreads p _ k
  | _ => rfl

theorem holdStop_withThreads : (p.withThreads threads).holdStop =
    p.holdStop.withThreads threads := by
  unfold holdStop
  simp only [show (p.withThreads threads).worker = p.worker from rfl]
  cases p.worker with
  | holding k =>
    exact ite_withThreads (resume_withThreads { p with abandon := true } threads k) rfl
  | _ => rfl

theorem step_withThreads (net : Netip) {a : Action} (hapart : a.apart = true) :
    (p.withThreads threads).step net a = (p.step net a).withThreads threads := by
  cases a with
  | call | thread | close => cases hapart
  | receive size => exact receive_withThreads p ..
  | tick => exact tick_withThreads p _
  | reply status => exact reply_withThreads p ..
  | login ok => exact login_withThreads p _ ok
  | fail now => exact fail_withThreads p ..
  | holdTimer => exact holdTimer_withThreads p threads
  | holdStop => exact holdStop_withThreads p threads
  | _ => rfl

theorem threads_step (net : Netip) {a : Action} (hapart : a.apart = true) :
    (p.step net a).threads = p.threads := by
  have hsame : p.step net a = (p.step _ a).withThreads p.threads :=
    step_withThreads p p.threads net hapart
  rw [hsame]
  rfl

end Pipeline

/-! ## The worker and the sink -/

/-- The entries of the log that record a post or an alert accepted by the LAPI. -/
def LogEntry.pushes : LogEntry → Bool
  | posted _ => true
  | counted _ stage => stage = .sent
  | _ => false

def Resume.finishes : Resume → Bool
  | finish => true
  | _ => false

/-- The worker has seen the end of the channel. -/
def Worker.draining : Worker → Bool
  | receiving _ _ => false
  | posting _ _ _ k => k.finishes
  | loggingIn _ _ k => k.finishes
  | failing _ _ k => k.finishes
  | reverting _ _ _ k => k.finishes
  | releasing _ _ _ k => k.finishes
  | holding k => k.finishes
  | ended => true

namespace Pipeline

/-- `p'` is `p` with the worker somewhere else, and draining only if `draining` says so. -/
structure Steers (p p' : Pipeline) (draining : Bool) : Prop where
  sink : p'.sink = p.sink
  worker : p'.worker.draining = draining

section

variable (p : Pipeline) (batch : List AlertMsg) (msg : AlertMsg) (bytes : ℕ) (k : Resume)

theorem steers_flushWithin (final : Bool) : p.Steers (p.flushWithin batch final k) k.finishes := by
  unfold flushWithin
  split <;> exact ⟨rfl, rfl⟩

theorem steers_sendBatch : p.Steers (p.sendBatch batch k) k.finishes := by
  unfold sendBatch
  split
  · split
    · have hflush := steers_flushWithin { p with finalTried := true } batch k true
      exact ⟨hflush.sink, hflush.worker⟩
    · exact ⟨rfl, rfl⟩
  · exact steers_flushWithin p _ k _

theorem steers_append : p.Steers (p.append batch bytes msg) false := by
  unfold append
  dsimp only
  split
  · exact steers_sendBatch p ..
  · exact ⟨rfl, rfl⟩

theorem steers_resume : p.Steers (p.resume k) k.finishes := by
  cases k with
  | next batch bytes => exact ⟨rfl, rfl⟩
  | append msg => exact steers_append p [] _ 0
  | finish => exact ⟨rfl, rfl⟩

theorem steers_send : p.Steers (p.send batch k) k.finishes := by
  unfold send
  split
  · exact steers_resume p k
  · exact steers_sendBatch p _ k

theorem steers_received : p.Steers (p.received batch bytes msg) false := by
  unfold received
  split
  · exact steers_send p ..
  · split
    · exact ⟨rfl, rfl⟩
    · split
      · exact steers_send p ..
      · exact steers_append p ..

end

/-- What the step of a `Submit` call leaves alone. Only a call that sends touches the channel. -/
structure SubmitFrame (p : Pipeline) (phase : Phase) (p' : Pipeline) : Prop where
  worker : p'.worker = p.worker := by rfl
  abandon : p'.abandon = p.abandon := by rfl
  finalTried : p'.finalTried = p.finalTried := by rfl
  closed : p'.sink.closed = p.sink.closed := by rfl
  batchSize : p'.sink.batchSize = p.sink.batchSize := by rfl
  batchInterval : p'.sink.batchInterval = p.sink.batchInterval := by rfl
  ch : (∀ msg, phase ≠ .sending msg) → p'.sink.ch = p.sink.ch := by exact fun _ ↦ rfl
  log : ∃ entries, p'.log = p.log ++ entries ∧ entries.filter LogEntry.pushes = [] := by
    exact ⟨[], (List.append_nil _).symm, rfl⟩

theorem submitStep_frame (net : Netip) (p : Pipeline) (call now : ℕ) (phase : Phase) :
    p.SubmitFrame phase (p.submitStep net call now phase) := by
  cases phase with
  | sending msg =>
    simp only [submitStep]
    split <;> exact { ch := fun hphase ↦ absurd rfl (hphase msg) }
  | parsing ev =>
    simp only [submitStep]
    split
    · exact { log := ⟨_, rfl, rfl⟩ }
    · exact {}
  | locking ev ip =>
    simp only [submitStep]
    split
    · exact { log := ⟨_, rfl, rfl⟩ }
    · split
      · exact { log := ⟨_, rfl, rfl⟩ }
      · exact {}
  | allowing ev ip =>
    simp only [submitStep]
    split
    · exact { log := ⟨_, rfl, rfl⟩ }
    · exact {}
  | accepting | counting | releasing => exact { log := ⟨_, rfl, rfl⟩ }
  | reverting msg => exact { log := ⟨_, List.append_assoc .., rfl⟩ }
  | returned outcome => exact {}

/-- What a step can do to the sink, if it is not the step of a `Submit` call. -/
inductive SinkMove (net : Netip) (a : CrowdSecAlerter) : CrowdSecAlerter → Prop
  | queue (ch : List AlertMsg) : SinkMove net a { a with ch := ch }
  | close : SinkMove net a { a with closed := true }
  | release (key : String) (slot : ℕ) : SinkMove net a (a.release key slot)
  | revert (mark : AcceptMark) (now : ℕ) : SinkMove net a (a.revert mark now)
  | shunned (ip : String) (now : ℕ) : SinkMove net a (a.shunned net ip now).2
  | rejected (ip protocol : String) : SinkMove net a (a.shunRejected net ip protocol)
  | sweep (now : ℕ) : SinkMove net a (a.sweep now)
  | flush (now : ℕ) : SinkMove net a (a.flush now)
  | cleanup (now : ℕ) : SinkMove net a (a.cleanup now)

variable {net : Netip} {p : Pipeline}

theorem SinkMove.of_eq {a a' : CrowdSecAlerter} (h : a' = a) : SinkMove net a a' := by
  rw [h]
  exact .queue a.ch

/-- The worker only sees the end of the channel when the sink is closed and the channel empty. -/
def Drains (p : Pipeline) : Prop := p.worker.draining = true → p.sink.closed = true ∧ p.sink.ch = []

/-- What a step does, if it is not the step of a `Submit` call. -/
structure Moved (net : Netip) (p p' : Pipeline) : Prop where
  sink : SinkMove net p.sink p'.sink
  drains : p.Drains → p'.Drains

variable {p' : Pipeline}

theorem Moved.refl : p.Moved net p := ⟨.of_eq rfl, id⟩

/-- The worker goes on as before: it drains only if it did. -/
theorem Steers.moved {worker : Worker} {draining : Bool} (h : p.Steers p' draining)
    (hworker : p.worker = worker)
    (hdraining : draining = true → worker.draining = true := by exact id) : p.Moved net p' where
  sink := .of_eq h.sink
  drains hd hafter := by
    rw [h.sink]
    apply hd
    rw [hworker]
    exact hdraining (h.worker ▸ hafter)

/-- A step that leaves the channel and the closed flag alone. -/
theorem Moved.same (hsink : SinkMove net p.sink p'.sink)
    (hworker : p'.worker.draining = p.worker.draining := by rfl)
    (hclosed : p'.sink.closed = p.sink.closed := by rfl)
    (hch : p'.sink.ch = p.sink.ch := by rfl) : p.Moved net p' where
  sink := hsink
  drains hd hafter := by
    rw [hclosed, hch]
    exact hd (hworker ▸ hafter)

theorem moved_receive (size : Option ℕ) : p.Moved net (p.receive size) := by
  unfold receive
  split
  · next batch bytes _ =>
    split
    · next hempty =>
      split
      · next hclosed =>
        have hsteers := steers_send p batch .finish
        exact ⟨.of_eq hsteers.sink, fun _ _ ↦ hsteers.sink ▸ ⟨hclosed, hempty⟩⟩
      · exact .refl
    · next msg rest _ =>
      have hsteers := steers_received { p with sink := { p.sink with ch := rest } } batch
        (msg.encode size) bytes
      refine ⟨?_, fun _ hafter ↦ ?_⟩
      · rw [hsteers.sink]
        exact .queue rest
      · rw [hsteers.worker] at hafter
        cases hafter
  · exact .refl

theorem moved_reply (status : Option ℤ) : p.Moved net (p.reply status) := by
  unfold reply
  split
  · next batch final again k hworker =>
    split
    · exact Steers.moved ⟨rfl, rfl⟩ hworker
    · split
      · have hresume := fun q : Pipeline ↦ steers_resume q k
        exact Steers.moved ⟨(hresume _).sink, (hresume _).worker⟩ hworker
      · exact Steers.moved ⟨rfl, rfl⟩ hworker
  · exact .refl

theorem moved_fail (now : ℕ) : p.Moved net (p.fail now) := by
  unfold fail
  split
  · next hold k hworker =>
    split
    · exact Steers.moved ⟨rfl, rfl⟩ hworker
    · exact (steers_resume p k).moved hworker
  · next hworker => exact .same (.of_eq rfl) (by rw [hworker]; rfl)
  · next msg rest hold k hworker => exact .same (.revert msg.mark now) (by rw [hworker]; rfl)
  · next msg rest hold k hworker =>
    split
    · exact .same (.release msg.cooldownKey msg.slot) (by rw [hworker]; rfl)
    · exact .same (.of_eq rfl) (by rw [hworker]; rfl)
  · exact .refl

theorem moved_step (net : Netip) (p : Pipeline) {a : Action}
    (hthread : ∀ call now, a ≠ .thread call now) : p.Moved net (p.step net a) := by
  cases a with
  | call ev => exact .same (.of_eq rfl)
  | thread call now => exact absurd rfl (hthread call now)
  | receive size => exact moved_receive _
  | tick =>
    simp only [step, tick]
    split
    · next batch bytes hworker =>
      split
      · exact (steers_send p ..).moved hworker nofun
      · exact .refl
    · exact .refl
  | reply status => exact moved_reply _
  | login ok =>
    simp only [step, login]
    split
    · next hworker => split <;> exact Steers.moved ⟨rfl, rfl⟩ hworker
    · exact .refl
  | fail now => exact moved_fail _
  | holdTimer =>
    simp only [step, holdTimer]
    split
    · next k hworker => exact (steers_resume p k).moved hworker
    · exact .refl
  | holdStop =>
    simp only [step, holdStop]
    split
    · next k hworker =>
      split
      · have hsteers := steers_resume { p with abandon := true } k
        exact Steers.moved ⟨hsteers.sink, hsteers.worker⟩ hworker
      · exact .refl
    · exact .refl
  | close =>
    simp only [step, close]
    split
    · exact .refl
    · exact ⟨.close, fun hd hafter ↦ ⟨rfl, (hd hafter).2⟩⟩
  | shunned ip now => exact .same (.shunned ip now)
  | rejected ip protocol => exact .same (.rejected ip protocol)
  | sweep now => exact .same (.sweep now)
  | flush now => exact .same (.flush now)
  | cleanup now => exact .same (.cleanup now)

end Pipeline

end RanHoneypot.Alert
