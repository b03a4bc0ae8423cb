import RanHoneypot.Alert.WorkerTrace

/-!
# The batches of the worker

Every batch that the worker hands to `send` holds at most `batchSize` alerts and at most
`maxBatchBytes` encoded bytes, a single alert excepted, and the batches follow the queue: one after
the other they are the encodable alerts in the order in which they were queued.

Between two rounds of its loop the worker has two variables, the batch it collects and the size of it.
They also survive in the `Resume` with which it leaves `send` or `failBatch`, so the argument is about
the batches handed over and this continuation only. `Flow` relates both to the alerts taken so far,
and has one lemma for each way to go on: collecting, a full batch, an early flush, a tick, the end.
-/

namespace RanHoneypot.Alert

open TimedRun List Pipeline

/-- What the worker goes on with when it is done with what it is doing. -/
def Worker.plan : Worker → Resume
  | receiving batch bytes => .next batch bytes
  | posting _ _ _ k => k
  | loggingIn _ _ k => k
  | failing _ _ k => k
  | reverting _ _ _ k => k
  | releasing _ _ _ k => k
  | holding k => k
  | ended => .finish

def AlertMsg.encodedBytes (msg : AlertMsg) : ℕ := msg.raw.getD 0

def batchBytes (batch : List AlertMsg) : ℕ := (batch.map AlertMsg.encodedBytes).sum

theorem batchBytes_concat (batch : List AlertMsg) (msg : AlertMsg) :
    batchBytes (batch ++ [msg]) = batchBytes batch + msg.encodedBytes := by
  simp [batchBytes]

/-- The bounds of a batch. -/
structure Fits (size : ℤ) (batch : List AlertMsg) : Prop where
  length : (batch.length : ℤ) ≤ size
  bytes : batchBytes batch ≤ maxBatchBytes ∨ batch.length = 1

/-- What holds of the loop variables in a continuation. An alert waits to be appended only after an
early flush, which takes a batch with room for one more alert and hence a batch size above one. -/
def Resume.Collects (size interval : ℤ) : Resume → Prop
  | next batch bytes => (batch.length : ℤ) < size ∧ bytes = batchBytes batch ∧ Fits size batch ∧
      (interval = 0 → batch = [])
  | append _ => 1 < size ∧ interval ≠ 0
  | finish => True

/-- The batches handed over and the alerts still held are the alerts that were kept, in order. -/
structure Flow (size interval : ℤ) (handed : List (List AlertMsg)) (plan : Resume)
    (kept : List AlertMsg) : Prop where
  fits : ∀ batch ∈ handed, Fits size batch
  complete : handed.flatten ++ plan.held = kept
  collects : plan.Collects size interval

section

variable {size interval : ℤ} {handed : List (List AlertMsg)} {batch kept : List AlertMsg} {bytes : ℕ}
  {msg : AlertMsg}

theorem Fits.nil (hsize : 1 ≤ size) : Fits size [] where
  length := by
    simp only [length_nil]
    omega
  bytes := .inl (Nat.zero_le _)

theorem Fits.single (hsize : 1 ≤ size) : Fits size [msg] where
  length := by simpa using hsize
  bytes := .inr rfl

theorem collects_nil (hsize : 1 ≤ size) : (Resume.next [] 0).Collects size interval :=
  ⟨by simp only [length_nil, Nat.cast_zero]; omega, rfl, .nil hsize, fun _ ↦ rfl⟩

theorem fits_handOver (hfits : ∀ batch ∈ handed, Fits size batch) (hbatch : Fits size batch) :
    ∀ other ∈ handed ++ [batch], Fits size other := by
  intro other hother
  rcases mem_append.mp hother with hold | hnew
  · exact hfits other hold
  · rw [mem_singleton.mp hnew]
    exact hbatch

/-- A batch with an alert more still fits if there was no reason to flush early. -/
theorem Fits.concat (hroom : (batch.length : ℤ) < size)
    (hearly : ¬ (batch ≠ [] ∧ maxBatchBytes < batchBytes batch + msg.encodedBytes)) :
    Fits size (batch ++ [msg]) where
  length := by
    simp only [length_append, length_singleton, Nat.cast_add]
    omega
  bytes := by
    by_cases hempty : batch = []
    · right
      rw [hempty]
      rfl
    · left
      rw [batchBytes_concat]
      exact not_lt.mp fun hlarge ↦ hearly ⟨hempty, hlarge⟩

namespace Flow

theorem start (hsize : 1 ≤ size) : Flow size interval [] (.next [] 0) [] where
  fits := by simp
  complete := rfl
  collects := collects_nil hsize

section

variable (h : Flow size interval handed (.next batch bytes) kept)

include h

/-- The collected batch is handed over and a new one begins. -/
theorem hand (hsize : 1 ≤ size) :
    Flow size interval (handed ++ [batch]) (.next [] 0) kept where
  fits := fits_handOver h.fits h.collects.2.2.1
  complete := by
    rw [← h.complete]
    simp [Resume.held]
  collects := collects_nil hsize

theorem finish :
    Flow size interval (handed ++ [batch]) .finish kept where
  fits := fits_handOver h.fits h.collects.2.2.1
  complete := by
    rw [← h.complete]
    simp [Resume.held]
  collects := trivial

/-- The batch is flushed early and `msg` waits to begin the next one. -/
theorem early (hinterval : interval ≠ 0) (hbatch : batch ≠ []) :
    Flow size interval (handed ++ [batch]) (.append msg) (kept ++ [msg]) where
  fits := fits_handOver h.fits h.collects.2.2.1
  complete := by
    rw [← h.complete]
    simp [Resume.held]
  collects := by
    have hlength := length_pos_of_ne_nil hbatch
    have hroom := h.collects.1
    exact ⟨by omega, hinterval⟩

/-- The alert joins the batch. -/
theorem collect (hinterval : interval ≠ 0)
    (hearly : ¬ (batch ≠ [] ∧ maxBatchBytes < bytes + msg.encodedBytes))
    (hroom : ¬ size ≤ ((batch ++ [msg]).length : ℤ)) :
    Flow size interval handed (.next (batch ++ [msg]) (bytes + msg.encodedBytes))
      (kept ++ [msg]) where
  fits := h.fits
  complete := by
    rw [← h.complete]
    simp [Resume.held]
  collects := by
    have hbytes := h.collects.2.1
    refine ⟨Int.not_le.mp hroom, ?_, ?_, fun hzero ↦ absurd hzero hinterval⟩
    · rw [batchBytes_concat, hbytes]
    · apply Fits.concat h.collects.1
      rwa [← hbytes]

/-- The alert fills the batch, which is handed over. -/
theorem full (hsize : 1 ≤ size) (hearly : ¬ (batch ≠ [] ∧ maxBatchBytes < bytes + msg.encodedBytes)) :
    Flow size interval (handed ++ [batch ++ [msg]]) (.next [] 0) (kept ++ [msg]) where
  fits := by
    apply fits_handOver h.fits
    apply Fits.concat h.collects.1
    rwa [← h.collects.2.1]
  complete := by
    rw [← h.complete]
    simp [Resume.held]
  collects := collects_nil hsize

/-- Without an interval every alert is a batch of its own. -/
theorem alone (hsize : 1 ≤ size) (hinterval : interval = 0) :
    Flow size interval (handed ++ [[msg]]) (.next batch bytes) (kept ++ [msg]) :=
  { h with
    fits := fits_handOver h.fits (.single hsize)
    complete := by
      have hempty := h.collects.2.2.2 hinterval
      rw [← h.complete, hempty]
      simp [Resume.held] }

end

/-- After the early flush the waiting alert begins the next batch. -/
theorem begin (h : Flow size interval handed (.append msg) kept) :
    Flow size interval handed (.next [msg] msg.encodedBytes) kept :=
  { h with
    collects := by
      have hsize : 1 < size := h.collects.1
      refine ⟨?_, ?_, .single hsize.le, fun hzero ↦ absurd hzero h.collects.2⟩
      · simpa using hsize
      · simp [batchBytes] }

end Flow

end

/-! ## The worker -/

/-- `t'` is `t` after it handed over `batches` and is set to go on with `plan`. -/
structure Traced.Hands (t t' : Traced) (batches : List (List AlertMsg)) (plan : Resume) : Prop where
  queued : t'.queued = t.queued
  taken : t'.taken = t.taken
  sink : t'.pipeline.sink = t.pipeline.sink
  handed : t'.handed = t.handed ++ batches
  plan : t'.pipeline.worker.plan = plan

namespace Traced

section

variable (t : Traced) (batch : List AlertMsg) (msg : AlertMsg) (bytes : ℕ) (k : Resume)

theorem hands_goesOn (worker : Worker) : t.Hands (t.goesOn worker) [] worker.plan :=
  ⟨rfl, rfl, rfl, (append_nil _).symm, rfl⟩

theorem hands_flushWithin (final : Bool) : t.Hands (t.flushWithin batch final k) [] k := by
  unfold flushWithin
  split <;> exact ⟨rfl, rfl, rfl, (append_nil _).symm, rfl⟩

theorem hands_sendBatch : t.Hands (t.sendBatch batch k) [] k := by
  unfold sendBatch
  split
  · split
    · have hflush := hands_flushWithin t.setFinalTried batch k true
      exact ⟨hflush.queued, hflush.taken, hflush.sink, hflush.handed, hflush.plan⟩
    · exact ⟨rfl, rfl, rfl, (append_nil _).symm, rfl⟩
  · exact hands_flushWithin t batch k false

theorem hands_handOver_sendBatch : t.Hands ((t.handOver batch).sendBatch batch k) [batch] k := by
  have hsend := hands_sendBatch (t.handOver batch) batch k
  refine ⟨hsend.queued, hsend.taken, hsend.sink, ?_, hsend.plan⟩
  rw [hsend.handed, append_nil]
  rfl

theorem hands_send (hbatch : batch ≠ []) : t.Hands (t.send batch k) [batch] k := by
  rw [send, if_neg hbatch]
  exact hands_handOver_sendBatch t batch k

theorem hands_send_finish : t.Hands (t.send batch .finish) [batch] .finish := by
  by_cases hbatch : batch = []
  · rw [send, if_pos hbatch]
    exact ⟨rfl, rfl, rfl, rfl, rfl⟩
  · exact hands_send t batch .finish hbatch

theorem hands_append_full (hfull : t.pipeline.sink.batchSize ≤ ((batch ++ [msg]).length : ℤ)) :
    t.Hands (t.append batch bytes msg) [batch ++ [msg]] (.next [] 0) := by
  rw [append, if_pos hfull]
  exact hands_handOver_sendBatch t (batch ++ [msg]) (.next [] 0)

theorem hands_append (hroom : ¬ t.pipeline.sink.batchSize ≤ ((batch ++ [msg]).length : ℤ)) :
    t.Hands (t.append batch bytes msg) []
      (.next (batch ++ [msg]) (bytes + msg.encodedBytes)) := by
  rw [append, if_neg hroom]
  exact hands_goesOn t (.receiving (batch ++ [msg]) (bytes + msg.encodedBytes))

end

/-- The alerts taken off the channel, as far as they could be marshaled. -/
def encoded (t : Traced) : List AlertMsg := t.taken.map fun entry ↦ entry.1.encode entry.2

/-- The taken alerts that have to appear in a batch. Without an interval the worker does not marshal
an alert before it hands it to `send`. -/
def kept (t : Traced) (interval : ℤ) : List AlertMsg :=
  t.encoded.filter fun msg ↦ interval = 0 || msg.raw.isSome

/-- The limits of the worker, and what is on the channel: the queued alerts that were not taken. -/
structure Limited (size interval : ℤ) (t : Traced) : Prop where
  sized : t.pipeline.sink.batchSize = size
  paced : t.pipeline.sink.batchInterval = interval
  queue : t.queued = t.taken.map Prod.fst ++ t.pipeline.sink.ch

structure Batched (size interval : ℤ) (t : Traced) : Prop extends t.Limited size interval where
  flow : Flow size interval t.handed t.pipeline.worker.plan (t.kept interval)

variable {size interval : ℤ} {t t' : Traced} {batches : List (List AlertMsg)} {plan : Resume}

/-- The rule for a step of the worker: what it hands over has to fit, and to keep the flow. -/
theorem Limited.hands (h : t.Limited size interval) (hhands : t.Hands t' batches plan)
    (hflow : Flow size interval (t.handed ++ batches) plan (t.kept interval)) :
    t'.Batched size interval where
  sized := by rw [hhands.sink, h.sized]
  paced := by rw [hhands.sink, h.paced]
  queue := by rw [hhands.queued, hhands.taken, hhands.sink, h.queue]
  flow := by
    rw [hhands.handed, hhands.plan, kept, encoded, hhands.taken]
    exact hflow

theorem Limited.take (h : t.Limited size interval) {msg : AlertMsg} {marshaled : Option ℕ}
    {rest : List AlertMsg} (hch : t.pipeline.sink.ch = msg :: rest) :
    (t.take msg marshaled rest).Limited size interval :=
  { h with
    queue := by
      have hqueue : t.queued = t.taken.map Prod.fst ++ msg :: rest := hch ▸ h.queue
      simp [Traced.take, hqueue] }

/-- A step that only touches the tables, the log or the progress inside `failBatch`. -/
theorem Batched.same (h : t.Batched size interval)
    (hplan : t'.pipeline.worker.plan = t.pipeline.worker.plan := by rfl)
    (hsize : t'.pipeline.sink.batchSize = t.pipeline.sink.batchSize := by rfl)
    (hinterval : t'.pipeline.sink.batchInterval = t.pipeline.sink.batchInterval := by rfl)
    (hch : t'.pipeline.sink.ch = t.pipeline.sink.ch := by rfl)
    (hqueued : t'.queued = t.queued := by rfl) (htaken : t'.taken = t.taken := by rfl)
    (hhanded : t'.handed = t.handed := by rfl) : t'.Batched size interval where
  sized := by rw [hsize, h.sized]
  paced := by rw [hinterval, h.paced]
  queue := by rw [hqueued, htaken, hch, h.queue]
  flow := by
    rw [hhanded, hplan, kept, encoded, htaken]
    exact h.flow

theorem kept_take (t : Traced) (msg : AlertMsg) (marshaled : Option ℕ) (rest : List AlertMsg)
    (hkeep : interval = 0 ∨ (msg.encode marshaled).raw.isSome = true) :
    (t.take msg marshaled rest).kept interval = t.kept interval ++ [msg.encode marshaled] := by
  have hkeep' : (decide (interval = 0) || (msg.encode marshaled).raw.isSome) = true := by
    simpa using hkeep
  simp [kept, encoded, Traced.take, hkeep']

theorem kept_take_unencodable (t : Traced) (msg : AlertMsg) (marshaled : Option ℕ)
    (rest : List AlertMsg) (hinterval : interval ≠ 0) (hraw : (msg.encode marshaled).raw = none) :
    (t.take msg marshaled rest).kept interval = t.kept interval := by
  simp [kept, encoded, Traced.take, hinterval, hraw]

/-- The end of a round in which the worker received an alert that it can encode. -/
theorem Limited.append (h : t.Limited size interval) (hsize : 1 ≤ size) (hinterval : interval ≠ 0)
    {batch kept : List AlertMsg} {bytes : ℕ} {msg : AlertMsg}
    (hflow : Flow size interval t.handed (.next batch bytes) kept)
    (hearly : ¬ (batch ≠ [] ∧ maxBatchBytes < bytes + msg.encodedBytes))
    (hkept : t.kept interval = kept ++ [msg]) : (t.append batch bytes msg).Batched size interval := by
  by_cases hfull : t.pipeline.sink.batchSize ≤ ((batch ++ [msg]).length : ℤ)
  · apply h.hands (hands_append_full t batch msg bytes hfull)
    rw [hkept]
    exact hflow.full hsize hearly
  · apply h.hands (hands_append t batch msg bytes hfull)
    rw [hkept, append_nil]
    rw [h.sized] at hfull
    exact hflow.collect hinterval hearly hfull

section

variable (h : t.Batched size interval)

include h

theorem Batched.received (hsize : 1 ≤ size) {batch : List AlertMsg} {bytes : ℕ}
    (hworker : t.pipeline.worker = .receiving batch bytes) {msg : AlertMsg} {rest : List AlertMsg}
    (hch : t.pipeline.sink.ch = msg :: rest) (marshaled : Option ℕ) :
    ((t.take msg marshaled rest).received batch bytes (msg.encode marshaled)).Batched
      size interval := by
  have hlimited : (t.take _ marshaled _).Limited size interval := h.toLimited.take hch
  have hflow : Flow size interval t.handed (.next batch bytes) (t.kept interval) := by
    simpa only [hworker, Worker.plan] using h.flow
  unfold Traced.received
  by_cases hzero : interval = 0
  · -- every alert is sent on its own, and marshaled there
    rw [if_pos (hlimited.paced.trans hzero)]
    apply hlimited.hands (hands_send _ _ _ (by simp))
    rw [kept_take t _ _ _ (.inl hzero)]
    exact hflow.alone hsize hzero
  · rw [if_neg (fun hpaced ↦ hzero (hlimited.paced.symm.trans hpaced))]
    cases hraw : (msg.encode _).raw with
    | none =>
      apply hlimited.hands (hands_goesOn ..)
      rw [kept_take_unencodable t _ _ _ hzero hraw, append_nil]
      exact hflow
    | some bytesOfMsg =>
      have hbytes : (msg.encode marshaled).encodedBytes = bytesOfMsg := by
        simp [AlertMsg.encodedBytes, hraw]
      have hkept : (t.take ..).kept interval =
          t.kept interval ++ [msg.encode _] :=
        kept_take t msg marshaled rest (.inr (by simp [hraw]))
      dsimp only
      split
      · next hearly =>
        apply hlimited.hands (hands_send _ _ _ hearly.1)
        rw [hkept]
        exact hflow.early hzero hearly.1
      · next hearly =>
        rw [← hbytes] at hearly
        exact hlimited.append hsize hzero hflow hearly hkept

theorem Batched.receive (hsize : 1 ≤ size) (marshaled : Option ℕ) :
    (t.receive marshaled).Batched size interval := by
  unfold Traced.receive
  cases hworker : t.pipeline.worker with
  | receiving batch bytes =>
    cases hch : t.pipeline.sink.ch with
    | nil =>
      dsimp only
      split
      · apply h.toLimited.hands (hands_send_finish t batch)
        have hflow := h.flow
        rw [hworker] at hflow
        exact hflow.finish
      · exact h
    | cons msg rest => exact h.received hsize hworker hch _
  | _ => exact h

theorem Batched.tick (hsize : 1 ≤ size) : t.tick.Batched size interval := by
  unfold Traced.tick
  cases hworker : t.pipeline.worker with
  | receiving batch bytes =>
    dsimp only
    split
    · next hticks =>
      apply h.toLimited.hands (hands_send t batch (.next [] 0) hticks.2)
      have hflow := h.flow
      rw [hworker] at hflow
      exact hflow.hand hsize
    · exact h
  | _ => exact h

/-- The worker is done with `send` or `failBatch`. -/
theorem Batched.resume {k : Resume} (hplan : t.pipeline.worker.plan = k) :
    (t.resume k).Batched size interval := by
  have hflow : Flow size interval t.handed k (t.kept _) := hplan ▸ h.flow
  cases k with
  | next batch bytes =>
    apply h.toLimited.hands (hands_goesOn t _)
    rw [append_nil]
    exact hflow
  | append msg =>
    have hroom : ¬ t.pipeline.sink.batchSize ≤ (([] ++ [msg] : List AlertMsg).length : ℤ) := by
      have hsize : 1 < size := hflow.collects.1
      rw [h.sized]
      simpa using hsize
    apply h.toLimited.hands (hands_append t [] msg 0 hroom)
    rw [append_nil, Nat.zero_add]
    exact hflow.begin
  | finish =>
    apply h.toLimited.hands (hands_goesOn t _)
    rw [append_nil]
    exact hflow

theorem Batched.reply (status : Option ℤ) : (t.reply status).Batched size interval := by
  unfold Traced.reply
  cases hworker : t.pipeline.worker with
  | posting batch final again k =>
    have hplan : k = t.pipeline.worker.plan := by rw [hworker]; rfl
    dsimp only
    split
    · exact h.same hplan
    · split
      · refine Batched.resume ?_ hplan.symm
        exact h.same
      · exact h.same hplan
  | _ => exact h

theorem Batched.login (ok : Bool) : (t.login ok).Batched size interval := by
  unfold Traced.login
  cases hworker : t.pipeline.worker with
  | loggingIn batch final k =>
    have hplan : k = t.pipeline.worker.plan := by rw [hworker]; rfl
    dsimp only
    split <;> exact h.same hplan
  | _ => exact h

end

/-- Inside `failBatch` the loop variables do not change. -/
theorem plan_fail {p : Pipeline} (now : ℕ) (hdone : ∀ hold k, p.worker ≠ .failing [] hold k) :
    (p.fail now).worker.plan = p.worker.plan ∧ (p.fail now).sink.ch = p.sink.ch ∧
      (p.fail now).sink.batchSize = p.sink.batchSize ∧
      (p.fail now).sink.batchInterval = p.sink.batchInterval := by
  unfold Pipeline.fail
  split
  · next hold k hworker => exact absurd hworker (hdone hold k)
  · next hworker => exact ⟨by rw [hworker]; rfl, rfl, rfl, rfl⟩
  · next hworker => exact ⟨by rw [hworker]; rfl, rfl, rfl, rfl⟩
  · next hworker =>
    rw [hworker]
    split <;> exact ⟨rfl, rfl, rfl, rfl⟩
  · exact ⟨rfl, rfl, rfl, rfl⟩

theorem Batched.fail (h : t.Batched size interval) (now : ℕ) :
    (t.fail now).Batched size interval := by
  unfold Traced.fail
  split
  · next hold k hworker =>
    split
    · exact h.same (by rw [hworker]; rfl)
    · exact h.resume (by rw [hworker]; rfl)
  · next hdone =>
    have hfail := plan_fail (p := t.pipeline) now hdone
    exact h.same hfail.1 hfail.2.2.1 hfail.2.2.2 hfail.2.1

theorem Batched.thread (h : t.Batched size interval) (net : Netip) (call now : ℕ) :
    (t.thread net call now).Batched size interval := by
  unfold Traced.thread
  dsimp only [Pipeline.step]
  cases hphase : t.pipeline.threads[call]? with
  | none => exact h
  | some phase =>
    have hframe := submitStep_frame net t.pipeline call now phase
    have hplan := congrArg Worker.plan hframe.worker
    cases phase with
    | sending msg =>
      dsimp only [Pipeline.submitStep]
      cases t.pipeline.sink.hasRoom with
      | true =>
        exact
          { h with
            queue := by
              simp only [if_true, Pipeline.setPhase]
              rw [h.queue, append_assoc] }
      | false => exact h.same
    | _ =>
      exact h.same hplan hframe.batchSize hframe.batchInterval
        (hframe.ch nofun)

/-- One step of any goroutine. -/
theorem Batched.step (h : t.Batched size interval) (hsize : 1 ≤ size) (net : Netip) (a : Action) :
    (t.step net a).Batched size interval := by
  cases a with
  | thread call now => exact h.thread ..
  | receive marshaled => exact h.receive hsize _
  | tick => exact h.tick hsize
  | reply status => exact h.reply _
  | login ok => exact h.login ok
  | fail now => exact h.fail _
  | holdTimer =>
    simp only [Traced.step, Traced.holdTimer]
    split
    · next k hworker => exact h.resume (by rw [hworker]; rfl)
    · exact h
  | holdStop =>
    simp only [Traced.step, Traced.holdStop]
    split
    · next k hworker =>
      split
      · refine Batched.resume ?_ (by simp only [setAbandon, hworker]; rfl)
        exact h.same
      · exact h
    · exact h
  | close =>
    simp only [Traced.step, Pipeline.step, Pipeline.close]
    split <;> exact h.same
  | _ => exact h.same

/-- The limits that `newCrowdSec` sets. -/
theorem Batched.start (cfg : CrowdSecConfig) (hsize : 1 ≤ (newCrowdSec cfg).batchSize) :
    (Traced.start cfg).Batched (newCrowdSec cfg).batchSize cfg.batchInterval where
  sized := rfl
  paced := rfl
  queue := rfl
  flow := Flow.start hsize

end Traced

theorem one_le_batchSize {cfg : CrowdSecConfig} (hsize : 1 ≤ cfg.batchSize) :
    1 ≤ (newCrowdSec cfg).batchSize := by
  simp only [newCrowdSec]
  split
  · exact Int.le_refl 1
  · exact hsize

theorem tracedAfter_batched (net : Netip) {cfg : CrowdSecConfig} (hsize : 1 ≤ cfg.batchSize)
    (actions : List Action) :
    (tracedAfter net cfg actions).Batched (newCrowdSec cfg).batchSize cfg.batchInterval := by
  have hsize' := one_le_batchSize hsize
  exact run_invariant_untimed _ (fun _ a h ↦ h.step hsize' net a) _ (.start cfg hsize')

namespace Traced

/-- The encodable alerts among those taken off the channel. -/
def encodable (t : Traced) : List AlertMsg := t.encoded.filter (·.raw.isSome)

theorem kept_eq_encodable {t : Traced} {interval : ℤ}
    (hmarshal : interval = 0 → ∀ entry ∈ t.taken, entry.2.isSome = true) :
    t.kept interval = t.encodable := by
  apply filter_congr
  intro msg hmsg
  by_cases hzero : interval = 0
  · rcases mem_map.mp hmsg with ⟨entry, hentry, rfl⟩
    have hraw : (entry.1.encode entry.2).raw.isSome = true := by
      unfold AlertMsg.encode
      split
      · assumption
      · exact hmarshal hzero entry hentry
    rw [hraw, Bool.or_true]
  · simp [hzero]

end Traced

/-- Every batch handed to `send` keeps the two bounds, and the batches are the encodable alerts in
the order of the queue, up to those the worker still holds. Once the worker has ended it holds none
and has taken every queued alert. Without an interval the worker leaves the marshaling to `send`;
`hmarshal` is what `encoding/json` documents for a structure of texts, numbers and lists of them. -/
theorem batches_bounded_and_in_order (net : Netip) (cfg : CrowdSecConfig) (actions : List Action)
    (hsize : 1 ≤ cfg.batchSize)
    (hmarshal : cfg.batchInterval = 0 →
      ∀ entry ∈ (tracedAfter net cfg actions).taken, entry.2.isSome = true) :
    let t := tracedAfter net cfg actions
    (∀ batch ∈ t.handed, (batch.length : ℤ) ≤ (newCrowdSec cfg).batchSize ∧
        (batchBytes batch ≤ maxBatchBytes ∨ batch.length = 1)) ∧
      t.handed.flatten ++ t.pipeline.worker.plan.held = t.encodable ∧
      t.queued = t.taken.map Prod.fst ++ t.pipeline.sink.ch ∧
      (t.pipeline.worker = .ended →
        t.handed.flatten = t.encodable ∧ t.taken.map Prod.fst = t.queued) := by
  intro t
  have hbatched : t.Batched (newCrowdSec _).batchSize cfg.batchInterval :=
    tracedAfter_batched net hsize actions
  have hcomplete : t.handed.flatten ++ t.pipeline.worker.plan.held = t.encodable := by
    rw [hbatched.flow.complete]
    exact Traced.kept_eq_encodable hmarshal
  refine ⟨?_, hcomplete, hbatched.queue, ?_⟩
  · intro batch hbatch
    have hfits := hbatched.flow.fits batch hbatch
    exact ⟨hfits.length, hfits.bytes⟩
  · intro hended
    have hdrained : t.pipeline.sink.ch = [] := by
      have hsound : t.pipeline.Sound := tracedAfter_pipeline net cfg actions ▸
        pipelineAfter_sound net cfg actions
      exact (hsound.drains (by rw [hended]; rfl)).2
    constructor
    · rw [hended] at hcomplete
      exact (append_nil _).symm.trans hcomplete
    · rw [hbatched.queue, hdrained, append_nil]

/-- A run with an early flush, a full batch and the end of the channel. -/
def flushedEarly : List Action :=
  let attack : Event :=
    { cls := .attack,
      info :=
        { sourceIP := Netip.binary.string (.v4 0x08080808#32), protocol := "ssh", transport := .tcp,
          destPort := 22, authAttempts := 0, commands := 0, payloadBytes := 0, alertedClass := none }
      meta' := ∅ }
  [.call attack, .call attack, .call attack] ++
    [0, 1, 2].flatMap (fun call ↦ List.replicate 6 (.thread call 10)) ++
    [.receive (some 400000), .receive (some 200000), .reply (some 201), .receive (some 100),
      .reply (some 201), .close, .receive none]

def pairedBatches : CrowdSecConfig where
  banOn := [.attack]
  cooldown := 0
  shun := false
  repeatAfter := 0
  repeatCooldown := 0
  offenderReset := 1000
  batchInterval := 5
  batchSize := 2
  maxTracked := 10

theorem batches_bounded_and_in_order_early :
    (tracedAfter .binary pairedBatches flushedEarly).handed.map List.length = [1, 2, 0] ∧
      (tracedAfter .binary pairedBatches flushedEarly).handed.flatten =
        (tracedAfter .binary pairedBatches flushedEarly).encodable :=
  ⟨by decide +kernel, ((batches_bounded_and_in_order .binary pairedBatches flushedEarly (by decide)
    (fun hzero ↦ absurd hzero (by decide))).2.2.2 (by decide +kernel)).1⟩

end RanHoneypot.Alert
