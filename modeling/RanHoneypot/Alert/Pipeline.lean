import RanHoneypot.Alert.CrowdSec

/-!
# The alert pipeline

The goroutines of the CrowdSec sink as one machine: any number of `Submit` calls, the batch worker,
the clean-up loop, the callers of the shun gate and `Close`. A step of the machine runs one goroutine
up to its next access to something shared: a table, the channel, the close lock or the LAPI. The order
of the steps, the clock readings and the answers of the LAPI are chosen by the environment, so a run
is an arbitrary list of actions. An action that is not possible in a state leaves the state alone.

The counters of the source are kept as a log of single counts, tagged with the number of the `Submit`
call they are made for. The log also holds what the accounting is about: which alert a call recorded,
which slots were released, which records were reverted and which batches were posted.
-/

namespace RanHoneypot.Alert

open CrowdSecAlerter

/-- The estimated size at which a batch is flushed early. -/
def maxBatchBytes : ℕ := 512 * 1024

inductive LogEntry where
  | counted (call : ℕ) (stage : Stage)
  | recorded (msg : AlertMsg)
  | released (call : ℕ) (key : String) (slot : ℕ)
  | reverted (call : ℕ) (mark : AcceptMark)
  | posted (batch : List AlertMsg)
deriving DecidableEq

/-- How far a `Submit` call has come. From `allowing` to `reverting` it holds the close lock for
reading. -/
inductive Phase where
  | parsing (ev : Event)
  | locking (ev : Event) (ip : String)
  | allowing (ev : Event) (ip : String)
  | accepting (ev : Event) (ip : String) (allowance : Allowance)
  | sending (msg : AlertMsg)
  | counting
  | releasing (msg : AlertMsg)
  | reverting (msg : AlertMsg)
  | returned (outcome : Stage)
deriving DecidableEq

/-- Where the worker goes on when `send` or `failBatch` returns: with the next round of its loop,
with appending the alert that made it flush early, or with its end. -/
inductive Resume where
  | next (batch : List AlertMsg) (bytes : ℕ)
  | append (msg : AlertMsg)
  | finish
deriving DecidableEq

/-- What the batch worker is about to do. `final` marks the last attempt after an interrupted hold,
`again` the post after a new login, and `hold` the pause that follows a failed flush. -/
inductive Worker where
  | receiving (batch : List AlertMsg) (bytes : ℕ)
  | posting (batch : List AlertMsg) (final again : Bool) (k : Resume)
  | loggingIn (batch : List AlertMsg) (final : Bool) (k : Resume)
  | failing (rest : List AlertMsg) (hold : Bool) (k : Resume)
  | reverting (msg : AlertMsg) (rest : List AlertMsg) (hold : Bool) (k : Resume)
  | releasing (msg : AlertMsg) (rest : List AlertMsg) (hold : Bool) (k : Resume)
  | holding (k : Resume)
  | ended
deriving DecidableEq

structure Pipeline where
  sink : CrowdSecAlerter
  threads : List Phase
  worker : Worker
  abandon : Bool
  finalTried : Bool
  log : List LogEntry

inductive Action where
  /-- A goroutine calls `Submit`. -/
  | call (ev : Event)
  /-- The next step of a `Submit` call. -/
  | thread (call now : ℕ)
  /-- The worker receives from the channel. `size` is the result of marshaling what it receives. -/
  | receive (size : Option ℕ)
  | tick
  /-- The LAPI answers a post with a status, or the transport fails. -/
  | reply (status : Option ℤ)
  | login (ok : Bool)
  /-- The next step of `failBatch`. -/
  | fail (now : ℕ)
  | holdTimer
  | holdStop
  | close
  | shunned (ip : String) (now : ℕ)
  | rejected (ip protocol : String)
  | sweep (now : ℕ)
  | flush (now : ℕ)
  | cleanup (now : ℕ)

def Phase.holdsLock : Phase → Bool
  | parsing _ => false
  | locking _ _ => false
  | returned _ => false
  | _ => true

/-- `encode` of an alert, with the result of marshaling if it is not encoded yet. -/
def AlertMsg.encode (msg : AlertMsg) (size : Option ℕ) : AlertMsg :=
  if msg.raw.isSome then msg else { msg with raw := size }

namespace Pipeline

variable (p : Pipeline) (batch : List AlertMsg) (call : ℕ) (k : Resume)

def start (cfg : CrowdSecConfig) : Pipeline where
  sink := newCrowdSec cfg
  threads := []
  worker := .receiving [] 0
  abandon := false
  finalTried := false
  log := []

/-! ## Submit calls -/

def setPhase (phase : Phase) : Pipeline :=
  { p with threads := p.threads.set call phase }

def write (entries : List LogEntry) : Pipeline := { p with log := p.log ++ entries }

/-- The call returns after it was counted in its stage. -/
def returns (outcome : Stage) : Pipeline :=
  (p.setPhase call (.returned outcome)).write [.counted call outcome]

def callSubmit (ev : Event) : Pipeline :=
  { p with threads := p.threads ++ [Phase.parsing ev] }.write [.counted p.threads.length .received]

/-- The next step of `Submit`. -/
def submitStep (net : Netip) (p : Pipeline) (call now : ℕ) : Phase → Pipeline
  | .parsing ev =>
    match parseBannableIP net ev.info.sourceIP with
    | none => p.returns call .invalid
    | some addr => p.setPhase call (.locking ev (net.string addr))
  | .locking ev ip =>
    if p.sink.closed then p.returns call .closed
    else
      let ev' := downgrade p.sink.banOn ev
      if ev'.cls ∉ p.sink.banOn then p.returns call .filtered
      else p.setPhase call (.allowing ev' ip)
  | .allowing ev ip =>
    let (allowance, sink) := p.sink.allow net ip ev.cls now
    if !allowance.ok then { p with sink := sink }.returns call .cooldown
    else { p with sink := sink }.setPhase call (.accepting ev ip allowance)
  | .accepting ev ip allowance =>
    let (msg, sink) := p.sink.record net call ev ip allowance now
    ({ p with sink := sink }.setPhase call (.sending msg)).write [.recorded msg]
  | .sending msg =>
    if p.sink.hasRoom then
      { p with sink := { p.sink with ch := p.sink.ch ++ [msg] } }.setPhase call .counting
    else p.setPhase call (.releasing msg)
  | .counting => p.returns call .queued
  | .releasing msg =>
    ({ p with sink := p.sink.release msg.cooldownKey msg.slot }.setPhase call (.reverting msg)).write
      [.released call msg.cooldownKey msg.slot]
  | .reverting msg =>
    ({ p with sink := p.sink.revert msg.mark now }.write [.reverted call msg.mark]).returns call
      .dropped
  | .returned _ => p

/-! ## The batch worker -/

/-- `flushWithin` up to its first post. -/
def flushWithin (final : Bool) (k : Resume) : Pipeline :=
  if batch.all (·.raw.isSome) then { p with worker := .posting batch final false k }
  else { p with worker := .failing batch (!final) k }

/-- `send` of a batch that is not empty. -/
def sendBatch : Pipeline :=
  if p.abandon then
    if !p.finalTried then { p with finalTried := true }.flushWithin batch true k
    else { p with worker := .failing batch false k }
  else p.flushWithin batch false k

/-- The end of a round of the worker's loop: the alert joins the batch, which is sent if full. -/
def append (bytes : ℕ) (msg : AlertMsg) : Pipeline :=
  let batch' := batch ++ [msg]
  if p.sink.batchSize ≤ (batch'.length : ℤ) then p.sendBatch batch' (.next [] 0)
  else { p with worker := .receiving batch' (bytes + msg.raw.getD 0) }

def resume : Resume → Pipeline
  | .next batch bytes => { p with worker := .receiving batch bytes }
  | .append msg => p.append [] 0 msg
  | .finish => { p with worker := .ended }

def send : Pipeline :=
  if batch = [] then p.resume k else p.sendBatch batch k

/-- The worker has taken `msg` off the channel. Without an interval its batch stays empty. -/
def received (bytes : ℕ) (msg : AlertMsg) : Pipeline :=
  if p.sink.batchInterval = 0 then p.send [msg] (.next batch bytes)
  else
    match msg.raw with
    | none => { p with worker := .failing [msg] false (.next batch bytes) }
    | some size =>
      if batch ≠ [] ∧ maxBatchBytes < bytes + size then p.send batch (.append msg)
      else p.append batch bytes msg

def receive (size : Option ℕ) : Pipeline :=
  match p.worker with
  | .receiving batch bytes =>
    match p.sink.ch with
    | [] => if p.sink.closed then p.send batch .finish else p
    | msg :: rest =>
      { p with sink := { p.sink with ch := rest } }.received batch bytes (msg.encode size)
  | _ => p

def tick : Pipeline :=
  match p.worker with
  | .receiving batch _ =>
    if p.sink.batchInterval ≠ 0 ∧ batch ≠ [] then p.send batch (.next [] 0) else p
  | _ => p

/-- The rest of `flushWithin` after the LAPI has accepted the batch. -/
def accepted (final : Bool) (k : Resume) : Pipeline :=
  let counted := p.write (batch.map fun msg ↦ .counted msg.call .sent)
  { counted with abandon := if final then false else p.abandon }.resume k

def reply (status : Option ℤ) : Pipeline :=
  match p.worker with
  | .posting batch final again k =>
    let posted := p.write [.posted batch]
    if status = some 401 ∧ !again then { posted with worker := .loggingIn batch final k }
    else if status.any fun s ↦ 200 ≤ s ∧ s < 300 then posted.accepted batch final k
    else { posted with worker := .failing batch (!final) k }
  | _ => p

def login (ok : Bool) : Pipeline :=
  match p.worker with
  | .loggingIn batch final k =>
    if ok then { p with worker := .posting batch final true k }
    else { p with worker := .failing batch (!final) k }
  | _ => p

/-- The next step of `failBatch`, which undoes the alerts one after the other. -/
def fail (now : ℕ) : Pipeline :=
  match p.worker with
  | .failing [] hold k => if hold then { p with worker := .holding k } else p.resume k
  | .failing (msg :: rest) hold k =>
    { p with worker := .reverting msg rest hold k }.write [.counted msg.call .failed]
  | .reverting msg rest hold k =>
    { p with sink := p.sink.revert msg.mark now, worker := .releasing msg rest hold k }.write
      [.reverted msg.call msg.mark]
  | .releasing msg rest hold k =>
    let next := { p with worker := .failing rest hold k }
    if msg.cooldownKey ≠ "" then
      { next with sink := p.sink.release msg.cooldownKey msg.slot }.write
        [.released msg.call msg.cooldownKey msg.slot, .counted msg.call .released]
    else next
  | _ => p

def holdTimer : Pipeline :=
  match p.worker with
  | .holding k => p.resume k
  | _ => p

/-- The hold ends because the sink was closed. -/
def holdStop : Pipeline :=
  match p.worker with
  | .holding k => if p.sink.closed then { p with abandon := true }.resume k else p
  | _ => p

/-! ## The machine -/

/-- `Close` waits until no `Submit` call holds the lock. -/
def close : Pipeline :=
  if p.sink.closed || p.threads.any Phase.holdsLock then p
  else { p with sink := { p.sink with closed := true } }

def step (net : Netip) (p : Pipeline) : Action → Pipeline
  | .call ev => p.callSubmit ev
  | .thread call now =>
    match p.threads[call]? with
    | none => p
    | some phase => p.submitStep net call now phase
  | .receive size => p.receive size
  | .tick => p.tick
  | .reply status => p.reply status
  | .login ok => p.login ok
  | .fail now => p.fail now
  | .holdTimer => p.holdTimer
  | .holdStop => p.holdStop
  | .close => p.close
  | .shunned ip now => { p with sink := (p.sink.shunned net ip now).2 }
  | .rejected ip protocol => { p with sink := p.sink.shunRejected net ip protocol }
  | .sweep now => { p with sink := p.sink.sweep now }
  | .flush now => { p with sink := p.sink.flush now }
  | .cleanup now => { p with sink := p.sink.cleanup now }

end Pipeline

end RanHoneypot.Alert
