import Mathlib.Algebra.Order.Ring.Nat
import RanHoneypot.Data.Threads
import RanHoneypot.Data.TimedRun

/-!
# The multi-address listener

`MultiListener` merges the connections of several listeners: one accept loop per listener sends what
its listener returns to a buffered channel, from which `Accept` receives. The machine runs the accept
loops, any number of `Accept` and `Close` calls and the channel; a step runs one of them up to its next
access to something shared. The environment chooses who runs, what a listener returns and the branch of
a `select` where more than one is ready. A panic while accepting is recovered by `safely`, so it is one
of the ways in which `Accept` of a listener can end.
-/

namespace RanHoneypot.Trap

open TimedRun

/-- The bounds of the sleep after a failed or panicked `Accept`, in milliseconds. -/
def acceptPanicBackoffMin : ℕ := 10

def acceptPanicBackoffMax : ℕ := 1000

def nextBackoff (backoff : ℕ) : ℕ :=
  if acceptPanicBackoffMax < backoff * 2 then acceptPanicBackoffMax else backoff * 2

/-- The capacity of the channel. -/
def connChCap : ℕ := 64

/-- How `Accept` of an underlying listener ends. -/
inductive AcceptResult where
  | conn
  | nilConn
  /-- An error other than the one of a closed listener. -/
  | failed
  /-- `net.ErrClosed`. -/
  | closed
  | panicked
deriving DecidableEq

def acceptRetryable : AcceptResult → Bool
  | .closed => false
  | _ => true

inductive LoopPhase where
  /-- `Accept` of the listener runs. -/
  | accepting
  /-- The `select` of the back-off. -/
  | backingOff
  /-- The `select` that sends the connection. -/
  | sending (id : ℕ)
  /-- The connection is closed next, and then the loop returns. -/
  | dropping (id : ℕ)
  /-- The deferred `wg.Done`. -/
  | leaving
  | returned
deriving DecidableEq

/-- An accept loop. `listenerClosed` says that its listener was closed. -/
structure AcceptLoop where
  phase : LoopPhase := .accepting
  backoff : ℕ := acceptPanicBackoffMin
  listenerClosed : Bool := false
deriving DecidableEq

/-- An `Accept` call waits for the channel or has returned a connection or `net.ErrClosed`. -/
inductive ReceivePhase where
  | receiving
  | returned (conn : Option ℕ)
deriving DecidableEq

/-- The next statement of the function that `Close` passes to `closeOnce.Do`. -/
inductive ClosePhase where
  /-- `close(ml.done)`. -/
  | closingDone
  | closingListeners (next : ℕ)
  /-- `ml.wg.Wait()`. -/
  | waiting
  /-- `close(ml.connCh)`. -/
  | closingConnCh
  /-- The receive of the drain. -/
  | draining
  /-- The drain has received the connection, which is closed next. -/
  | dropping (id : ℕ)
deriving DecidableEq

/-- A `Close` call is inside `closeOnce.Do`, or has returned. -/
inductive CallPhase where
  | calling
  | returned
deriving DecidableEq

/-- The listener with its goroutines and the calls made so far. Connections are numbered in the order in
which the listeners return them. `accepted`, `closed` and `crashed` are not part of the source: they
count the connections, list those that were closed here and record a send on a closed channel or the
second close of one. -/
structure MultiListener where
  loops : List AcceptLoop
  connCh : List ℕ := []
  connChClosed : Bool := false
  done : Bool := false
  wg : ℤ
  closeOnce : Once ClosePhase := .unused
  accepts : List ReceivePhase := []
  closes : List CallPhase := []
  accepted : ℕ := 0
  closed : List ℕ := []
  crashed : Bool := false
deriving DecidableEq

inductive MultiListenerAction where
  /-- The next step of an accept loop. `result` is what its listener returns, and `preferDone` is the
  choice of a `select`. -/
  | turn (loop : ℕ) (result : AcceptResult) (preferDone : Bool)
  /-- `Accept` is called. -/
  | accept
  /-- The channel operation of an `Accept` call. -/
  | receive (call : ℕ)
  /-- `Close` is called. -/
  | close
  /-- The next step of a `Close` call. -/
  | closeStep (call : ℕ)
deriving DecidableEq

namespace MultiListener

variable (m : MultiListener) (i call : ℕ) (loop : AcceptLoop) (result : AcceptResult)
  (preferDone : Bool)

def newMultiListener (listeners : ℕ) : MultiListener where
  loops := List.replicate listeners {}
  wg := listeners

/-! ## The accept loops -/

def setLoop : MultiListener :=
  { m with loops := m.loops.set i loop }

/-- `Accept` of the listener has ended. -/
def listenerReturns : MultiListener :=
  match result with
  | .panicked => m.setLoop i { loop with phase := .backingOff }
  | .conn =>
    { m with accepted := m.accepted + 1 }.setLoop i
      { loop with phase := .sending m.accepted, backoff := acceptPanicBackoffMin }
  | .nilConn => m.setLoop i { loop with phase := .accepting, backoff := acceptPanicBackoffMin }
  | error =>
    if !acceptRetryable error then m.setLoop i { loop with phase := .leaving }
    else m.setLoop i { loop with phase := .backingOff }

/-- The `select` of the back-off. -/
def backOff : MultiListener :=
  if m.done ∧ preferDone then m.setLoop i { loop with phase := .leaving }
  else m.setLoop i { loop with phase := .accepting, backoff := nextBackoff loop.backoff }

/-- The `select` that sends a connection. A send on a closed channel is ready, and panics. -/
def send (id : ℕ) (preferDone : Bool) : MultiListener :=
  let sendReady := m.connChClosed ∨ m.connCh.length < connChCap
  if m.done ∧ (preferDone ∨ ¬sendReady) then m.setLoop i { loop with phase := .dropping id }
  else if m.connChClosed then { m with crashed := true }
  else if m.connCh.length < connChCap then
    { m with connCh := m.connCh ++ [id] }.setLoop i { loop with phase := .accepting }
  else m

def loopStep : MultiListener :=
  match loop.phase with
  | .accepting => m.listenerReturns i loop result
  | .backingOff => m.backOff i loop preferDone
  | .sending id => m.send i loop id preferDone
  | .dropping id =>
    { m with closed := m.closed ++ [id] }.setLoop i { loop with phase := .leaving }
  | .leaving => { m with wg := m.wg - 1 }.setLoop i { loop with phase := .returned }
  | .returned => m

def turn : MultiListener :=
  match m.loops[i]? with
  | none => m
  | some loop => m.loopStep i loop result preferDone

/-! ## Accept -/

def setAccept (phase : ReceivePhase) : MultiListener :=
  { m with accepts := m.accepts.set call phase }

def receive : MultiListener :=
  match m.accepts[call]? with
  | some .receiving =>
    match m.connCh with
    | id :: rest => { m with connCh := rest }.setAccept call (.returned (some id))
    | [] => if m.connChClosed then m.setAccept call (.returned none) else m
  | _ => m

/-! ## Close -/

def setClose (phase : ClosePhase) : MultiListener :=
  { m with closeOnce := .running call phase }

def closeListener : MultiListener :=
  match m.loops[i]? with
  | none => m
  | some loop => m.setLoop i { loop with listenerClosed := true }

/-- The next step of the function that `closeOnce` runs for `call`. -/
def closeBody : ClosePhase → MultiListener
  | .closingDone =>
    { m with done := true, crashed := m.crashed || m.done }.setClose call (.closingListeners 0)
  | .closingListeners next =>
    if next < m.loops.length then (m.closeListener next).setClose call (.closingListeners (next + 1))
    else m.setClose call .waiting
  | .waiting => if m.wg = 0 then m.setClose call .closingConnCh else m
  | .closingConnCh =>
    { m with connChClosed := true, crashed := m.crashed || m.connChClosed }.setClose call .draining
  | .draining =>
    match m.connCh with
    | id :: rest => { m with connCh := rest }.setClose call (.dropping id)
    | [] => { m with closeOnce := .finished }
  | .dropping id => { m with closed := m.closed ++ [id] }.setClose call .draining

/-- The next step of a `Close` call. -/
def closeStep : MultiListener :=
  match m.closes[call]? with
  | some .calling =>
    match m.closeOnce with
    | .unused => m.setClose call .closingDone
    | .running other phase => if other = call then m.closeBody call phase else m
    | .finished => { m with closes := m.closes.set call .returned }
  | _ => m

def step : MultiListenerAction → MultiListener
  | .turn i result preferDone => m.turn i result preferDone
  | .accept => { m with accepts := m.accepts ++ [.receiving] }
  | .receive call => m.receive call
  | .close => { m with closes := m.closes ++ [.calling] }
  | .closeStep call => m.closeStep call

end MultiListener

/-- The listener for `listeners` addresses after a run of its goroutines and calls. -/
def multiListenerAfter (listeners : ℕ) (actions : List MultiListenerAction) : MultiListener :=
  run MultiListener.step (.newMultiListener listeners) actions

end RanHoneypot.Trap
