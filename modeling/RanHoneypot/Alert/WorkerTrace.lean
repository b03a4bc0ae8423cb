import RanHoneypot.Alert.SubmitOutcomes

/-!
# The history of the batch worker

The pipeline does not keep what its worker has done: which alerts it took off the channel, which
batches it handed to `send`, and how its flush attempts ended. `Traced` is the pipeline with these
lists next to it. Its functions follow those of the worker one by one and write to the lists where the
source calls `send`, `flushWithin` or `failBatch`. `pipeline_step` says that they are otherwise the
functions of the pipeline: the history never changes what the worker does.
-/

namespace RanHoneypot.Alert

open TimedRun

/-- A flush attempt that is over. `late` says that it began after `Close`. -/
structure Attempt where
  batch : List AlertMsg
  final : Bool
  late : Bool
  ok : Bool
deriving DecidableEq

def Attempt.failedLate (attempt : Attempt) : Bool := attempt.late && !attempt.ok

/-- The pipeline with the history of its worker. `queued` are the alerts put on the channel, `taken`
those received from it with the result of marshaling them, and `discarded` the batches that `send`
failed without an attempt. `late` says whether the attempt or the hold in progress, if there is one,
began after `Close`. -/
structure Traced where
  pipeline : Pipeline
  queued : List AlertMsg
  taken : List (AlertMsg × Option ℕ)
  handed : List (List AlertMsg)
  discarded : List (List AlertMsg)
  attempts : List Attempt
  late : Bool

namespace Traced

def start (cfg : CrowdSecConfig) : Traced where
  pipeline := .start cfg
  queued := []
  taken := []
  handed := []
  discarded := []
  attempts := []
  late := false

/-- The worker goes on with `worker`. -/
def goesOn (t : Traced) (worker : Worker) : Traced :=
  { t with pipeline := { t.pipeline with worker := worker } }

/-- The attempt in progress is over. -/
def attempted (t : Traced) (batch : List AlertMsg) (final ok : Bool) : Traced :=
  { t with attempts := t.attempts ++ [⟨batch, final, t.late, ok⟩] }

def flushWithin (t : Traced) (batch : List AlertMsg) (final : Bool) (k : Resume) : Traced :=
  let begun := { t with late := t.pipeline.sink.closed }
  if batch.all (·.raw.isSome) then begun.goesOn (.posting batch final false k)
  else (begun.attempted batch final false).goesOn (.failing batch (!final) k)

def handOver (t : Traced) (batch : List AlertMsg) : Traced :=
  { t with handed := t.handed ++ [batch] }

def setFinalTried (t : Traced) : Traced :=
  { t with pipeline := { t.pipeline with finalTried := true } }

def setAbandon (t : Traced) (abandon : Bool) : Traced :=
  { t with pipeline := { t.pipeline with abandon := abandon } }

/-- `send` of a batch that is not empty, after it was handed over. -/
def sendBatch (t : Traced) (batch : List AlertMsg) (k : Resume) : Traced :=
  if t.pipeline.abandon then
    if !t.pipeline.finalTried then t.setFinalTried.flushWithin batch true k
    else { t with discarded := t.discarded ++ [batch] }.goesOn (.failing batch false k)
  else t.flushWithin batch false k

def append (t : Traced) (batch : List AlertMsg) (bytes : ℕ) (msg : AlertMsg) : Traced :=
  let batch' := batch ++ [msg]
  if t.pipeline.sink.batchSize ≤ (batch'.length : ℤ) then
    (t.handOver batch').sendBatch batch' (.next [] 0)
  else t.goesOn (.receiving batch' (bytes + msg.raw.getD 0))

def resume (t : Traced) : Resume → Traced
  | .next batch bytes => t.goesOn (.receiving batch bytes)
  | .append msg => t.append [] 0 msg
  | .finish => t.goesOn .ended

def send (t : Traced) (batch : List AlertMsg) (k : Resume) : Traced :=
  if batch = [] then (t.handOver batch).resume k else (t.handOver batch).sendBatch batch k

def received (t : Traced) (batch : List AlertMsg) (bytes : ℕ) (msg : AlertMsg) : Traced :=
  if t.pipeline.sink.batchInterval = 0 then t.send [msg] (.next batch bytes)
  else
    match msg.raw with
    | none => t.goesOn (.failing [msg] false (.next batch bytes))
    | some size =>
      if batch ≠ [] ∧ maxBatchBytes < bytes + size then t.send batch (.append msg)
      else t.append batch bytes msg

/-- The first alert of the channel is received. -/
def take (t : Traced) (msg : AlertMsg) (size : Option ℕ) (rest : List AlertMsg) : Traced :=
  { t with
    pipeline := { t.pipeline with sink := { t.pipeline.sink with ch := rest } }
    taken := t.taken ++ [(msg, size)] }

def receive (t : Traced) (size : Option ℕ) : Traced :=
  match t.pipeline.worker with
  | .receiving batch bytes =>
    match t.pipeline.sink.ch with
    | [] => if t.pipeline.sink.closed then t.send batch .finish else t
    | msg :: rest => (t.take msg size rest).received batch bytes (msg.encode size)
  | _ => t

def tick (t : Traced) : Traced :=
  match t.pipeline.worker with
  | .receiving batch _ =>
    if t.pipeline.sink.batchInterval ≠ 0 ∧ batch ≠ [] then t.send batch (.next [] 0) else t
  | _ => t

def write (t : Traced) (entries : List LogEntry) : Traced :=
  { t with pipeline := t.pipeline.write entries }

def accepted (t : Traced) (batch : List AlertMsg) (final : Bool) (k : Resume) : Traced :=
  let counted := (t.attempted batch final true).write (batch.map fun msg ↦ .counted msg.call .sent)
  (counted.setAbandon (if final then false else t.pipeline.abandon)).resume k

def reply (t : Traced) (status : Option ℤ) : Traced :=
  match t.pipeline.worker with
  | .posting batch final again k =>
    let posted := t.write [.posted batch]
    if status = some 401 ∧ !again then posted.goesOn (.loggingIn batch final k)
    else if status.any fun s ↦ 200 ≤ s ∧ s < 300 then posted.accepted batch final k
    else (posted.attempted batch final false).goesOn (.failing batch (!final) k)
  | _ => t

def login (t : Traced) (ok : Bool) : Traced :=
  match t.pipeline.worker with
  | .loggingIn batch final k =>
    if ok then t.goesOn (.posting batch final true k)
    else (t.attempted batch final false).goesOn (.failing batch (!final) k)
  | _ => t

def fail (t : Traced) (now : ℕ) : Traced :=
  match t.pipeline.worker with
  | .failing [] hold k =>
    if hold then { t with late := t.pipeline.sink.closed }.goesOn (.holding k) else t.resume k
  | _ => { t with pipeline := t.pipeline.fail now }

def holdTimer (t : Traced) : Traced :=
  match t.pipeline.worker with
  | .holding k => t.resume k
  | _ => t

def holdStop (t : Traced) : Traced :=
  match t.pipeline.worker with
  | .holding k => if t.pipeline.sink.closed then (t.setAbandon true).resume k else t
  | _ => t

/-- The step of a `Submit` call. The alert is queued if the channel has room for it. -/
def thread (net : Netip) (t : Traced) (call now : ℕ) : Traced :=
  let next := { t with pipeline := t.pipeline.step net (.thread call now) }
  match t.pipeline.threads[call]? with
  | some (.sending msg) =>
    if t.pipeline.sink.hasRoom then { next with queued := t.queued ++ [msg] } else next
  | _ => next

def step (net : Netip) (t : Traced) : Action → Traced
  | .thread call now => t.thread net call now
  | .receive size => t.receive size
  | .tick => t.tick
  | .reply status => t.reply status
  | .login ok => t.login ok
  | .fail now => t.fail now
  | .holdTimer => t.holdTimer
  | .holdStop => t.holdStop
  | a => { t with pipeline := t.pipeline.step net a }

/-! ## The history changes nothing -/

section

variable (t : Traced) (batch : List AlertMsg) (msg : AlertMsg) (bytes : ℕ) (k : Resume)

theorem pipeline_flushWithin (final : Bool) :
    (t.flushWithin batch final k).pipeline = t.pipeline.flushWithin batch final k := by
  unfold flushWithin Pipeline.flushWithin
  split <;> rfl

theorem pipeline_sendBatch : (t.sendBatch batch k).pipeline = t.pipeline.sendBatch batch k := by
  unfold sendBatch Pipeline.sendBatch
  split
  · split
    · exact pipeline_flushWithin _ _ k _
    · rfl
  · exact pipeline_flushWithin t _ k _

theorem pipeline_append :
    (t.append batch bytes msg).pipeline = t.pipeline.append batch bytes msg := by
  unfold append Pipeline.append
  dsimp only
  split
  · exact pipeline_sendBatch (t.handOver _) _ _
  · rfl

theorem pipeline_resume : (t.resume k).pipeline = t.pipeline.resume k := by
  cases k with
  | next batch bytes => rfl
  | append msg => exact pipeline_append t [] _ 0
  | finish => rfl

theorem pipeline_send : (t.send batch k).pipeline = t.pipeline.send batch k := by
  unfold send Pipeline.send
  split
  · exact pipeline_resume (t.handOver _) k
  · exact pipeline_sendBatch (t.handOver _) _ k

theorem pipeline_received :
    (t.received batch bytes msg).pipeline = t.pipeline.received batch bytes msg := by
  unfold received Pipeline.received
  split
  · exact pipeline_send t ..
  · cases msg.raw with
    | none => rfl
    | some size =>
      dsimp only
      split
      · exact pipeline_send t ..
      · exact pipeline_append t ..

end

variable (t : Traced)

theorem pipeline_receive (size : Option ℕ) :
    (t.receive size).pipeline = t.pipeline.receive size := by
  unfold receive Pipeline.receive
  cases t.pipeline.worker with
  | receiving batch bytes =>
    cases t.pipeline.sink.ch with
    | nil =>
      dsimp only
      split
      · exact pipeline_send t ..
      · rfl
    | cons msg rest => exact pipeline_received ..
  | _ => rfl

theorem pipeline_tick : t.tick.pipeline = t.pipeline.tick := by
  unfold tick Pipeline.tick
  cases t.pipeline.worker with
  | receiving batch bytes =>
    dsimp only
    split
    · exact pipeline_send t ..
    · rfl
  | _ => rfl

theorem pipeline_reply (status : Option ℤ) :
    (t.reply status).pipeline = t.pipeline.reply status := by
  unfold reply Pipeline.reply
  cases t.pipeline.worker with
  | posting batch final again k =>
    dsimp only
    split
    · rfl
    · split
      · exact pipeline_resume _ k
      · rfl
  | _ => rfl

theorem pipeline_login (ok : Bool) : (t.login ok).pipeline = t.pipeline.login ok := by
  unfold login Pipeline.login
  cases t.pipeline.worker with
  | loggingIn batch final k =>
    dsimp only
    split <;> rfl
  | _ => rfl

theorem pipeline_fail (now : ℕ) : (t.fail now).pipeline = t.pipeline.fail now := by
  unfold fail
  split
  · next hold k hworker =>
    simp only [Pipeline.fail, hworker]
    cases hold with
    | true => rfl
    | false => exact pipeline_resume t k
  · rfl

theorem pipeline_holdTimer : t.holdTimer.pipeline = t.pipeline.holdTimer := by
  unfold holdTimer Pipeline.holdTimer
  cases t.pipeline.worker with
  | holding k => exact pipeline_resume t k
  | _ => rfl

theorem pipeline_holdStop : t.holdStop.pipeline = t.pipeline.holdStop := by
  unfold holdStop Pipeline.holdStop
  cases t.pipeline.worker with
  | holding k =>
    dsimp only
    split
    · exact pipeline_resume _ k
    · rfl
  | _ => rfl

theorem pipeline_thread (net : Netip) (t : Traced) (call now : ℕ) :
    (t.thread net call now).pipeline = t.pipeline.step net (.thread call now) := by
  unfold thread
  split
  · split <;> rfl
  · rfl

/-- Without its history the traced pipeline is the pipeline. -/
theorem pipeline_step (net : Netip) (t : Traced) (a : Action) :
    (t.step net a).pipeline = t.pipeline.step net a := by
  cases a with
  | thread call now => exact pipeline_thread _ t ..
  | receive size => exact pipeline_receive t _
  | tick => exact pipeline_tick t
  | reply status => exact pipeline_reply t _
  | login ok => exact pipeline_login t ok
  | fail now => exact pipeline_fail t _
  | holdTimer => exact pipeline_holdTimer t
  | holdStop => exact pipeline_holdStop t
  | _ => rfl

end Traced

/-- The pipeline and the history of its worker after a run. -/
def tracedAfter (net : Netip) (cfg : CrowdSecConfig) (actions : List Action) : Traced :=
  run (Traced.step net) (Traced.start cfg) actions

theorem tracedAfter_pipeline (net : Netip) (cfg : CrowdSecConfig) (actions : List Action) :
    (tracedAfter net cfg actions).pipeline = pipelineAfter net cfg actions := by
  have hmap := run_map Traced.pipeline id
    (fun t a ↦ (Traced.pipeline_step net t a).symm) (Traced.start cfg) actions
  rw [List.map_id] at hmap
  exact hmap.symm

end RanHoneypot.Alert
