import RanHoneypot.Trap.Limiter

/-!
# The TCP server

The accept and session skeleton of the raw TCP traps as one machine: the accept loop of `Start`, which
dispatches one connection after the other, the goroutines that serve the admitted connections, any
number of `Stop` calls and the context. A step runs one of them up to its next access to something
shared: the limiter, the mutex, the wait group or a connection. What `Accept` returns, whether a
source is shunned and when a handler ends are up to the environment. A handler that panics is
recovered by `safely` and ends like one that returns.

The limiter is shared with other traps, so a step takes it and returns it next to the server.
-/

namespace RanHoneypot.Trap

/-- The calls of the limiter made for one session: the hosts passed to an `Acquire` that was granted
and to `Release`. The source does not record them. -/
structure Slot where
  acquired : List String := []
  released : List String := []
deriving DecidableEq

def Slot.take (slot : Slot) (host : String) : Slot :=
  { slot with acquired := slot.acquired ++ [host] }

def Slot.giveBack (slot : Slot) (host : String) : Slot :=
  { slot with released := slot.released ++ [host] }

/-- How far a connection has come. It is dispatched up to `refused`, in the accept loop, and served
from `serving` on, in its own goroutine. -/
inductive ConnPhase where
  /-- `dispatch` looks at the context. -/
  | checking
  /-- `closeIfShunned`. -/
  | shunning
  /-- `limiter.Acquire`. -/
  | acquiring
  /-- The limiter refused the connection, which is closed next. -/
  | rejecting
  /-- The critical section of `dispatch`. -/
  | registering
  /-- The server is stopping: the slot is given back next. -/
  | refusing
  /-- The server is stopping: the connection is closed next. -/
  | refused
  /-- The handler runs. -/
  | serving
  /-- The deferred calls of `serve`, from the last to the first. -/
  | closing
  | releasing
  | unregistering
  | finishing
  /-- `serve` has returned. -/
  | served
  /-- `dispatch` has returned without serving the connection. -/
  | turnedAway
deriving DecidableEq

/-- An accepted connection. `handled` says that a handler was started for it. -/
structure TcpConn where
  host : String
  phase : ConnPhase := .checking
  closed : Bool := false
  handled : Bool := false
  slot : Slot := {}
deriving DecidableEq

inductive StartPhase where
  | idle
  | binding
  | accepting
  | dispatching (id : ℕ)
  | returned
deriving DecidableEq

/-- How far a `Stop` call has come. `closing` has the connections of its snapshot left to close, and
`woken` has seen the end of the wait group. -/
inductive StopPhase where
  | locking
  | closing (rest : List ℕ)
  | waiting
  | woken
  | returned (ok : Bool)
deriving DecidableEq

/-- A server with the connections it has accepted. `table` are the keys of the connection table,
`cancelled` says that the context of `Start` is done. -/
structure TcpServer where
  stopping : Bool := false
  cancelled : Bool := false
  table : List ℕ := []
  wg : ℤ := 0
  conns : List TcpConn := []
  start : StartPhase := .idle
  stops : List StopPhase := []
deriving DecidableEq

inductive TcpAction where
  /-- `Start` is called and `ListenMultiTCP` succeeds or fails. -/
  | listen (ok : Bool)
  /-- The critical section of `Start`. -/
  | bind
  /-- `Accept` returns a connection with this remote host. -/
  | accept (host : String)
  /-- `Accept` fails. The error of a closed listener and a context that is done end the loop. -/
  | acceptError (final : Bool)
  /-- The next step of a connection. -/
  | turn (id : ℕ) (shunned : Bool)
  /-- `Stop` is called. -/
  | stop
  /-- The next step of a `Stop` call. -/
  | stopStep (call : ℕ)
  /-- The context of a `Stop` call ends before the wait. -/
  | stopTimeout (call : ℕ)
  /-- The context of `Start` ends. -/
  | cancel
  /-- The function that the context of a connection runs when it is done. -/
  | afterFunc (id : ℕ)
deriving DecidableEq

/-- The connection is in `dispatch`. -/
def ConnPhase.dispatching : ConnPhase → Bool
  | checking | shunning | acquiring | rejecting | registering | refusing | refused => true
  | _ => false

namespace TcpServer

variable (s : TcpServer) (l : Limiter) (call id : ℕ) (c : TcpConn)

def setConn : TcpServer :=
  { s with conns := s.conns.set id c }

/-! ## Start -/

def listen (ok : Bool) : TcpServer :=
  match s.start with
  | .idle => { s with start := if ok then .binding else .returned }
  | _ => s

def bind : TcpServer :=
  match s.start with
  | .binding => { s with start := if s.stopping then .returned else .accepting }
  | _ => s

def accept (host : String) : TcpServer :=
  match s.start with
  | .accepting =>
    { s with conns := s.conns ++ [{ host := host }], start := .dispatching s.conns.length }
  | _ => s

def acceptError (final : Bool) : TcpServer :=
  match s.start with
  | .accepting => { s with start := if final then .returned else .accepting }
  | _ => s

/-! ## dispatch and serve -/

/-- The critical section of `dispatch`. -/
def register : TcpServer :=
  if s.stopping then s.setConn id { c with phase := .refusing }
  else { s with table := s.table ++ [id], wg := s.wg + 1 }.setConn id
    { c with phase := .serving, handled := true }

/-- The next step of a connection. -/
def connStep (shunned : Bool) : TcpServer × Limiter :=
  match c.phase with
  | .checking =>
    if s.cancelled then (s.setConn id { c with phase := .turnedAway, closed := true }, l)
    else (s.setConn id { c with phase := .shunning }, l)
  | .shunning =>
    if shunned then (s.setConn id { c with phase := .turnedAway, closed := true }, l)
    else (s.setConn id { c with phase := .acquiring }, l)
  | .acquiring =>
    let (ok, l') := l.acquire c.host
    if !ok then (s.setConn id { c with phase := .rejecting }, l')
    else (s.setConn id { c with phase := .registering, slot := c.slot.take c.host }, l')
  | .rejecting => (s.setConn id { c with phase := .turnedAway, closed := true }, l)
  | .registering => (s.register id c, l)
  | .refusing =>
    (s.setConn id { c with phase := .refused, slot := c.slot.giveBack c.host }, l.release c.host)
  | .refused => (s.setConn id { c with phase := .turnedAway, closed := true }, l)
  | .serving => (s.setConn id { c with phase := .closing }, l)
  | .closing => (s.setConn id { c with phase := .releasing, closed := true }, l)
  | .releasing =>
    (s.setConn id { c with phase := .unregistering, slot := c.slot.giveBack c.host },
      l.release c.host)
  | .unregistering =>
    ({ s with table := s.table.filter (· ≠ id) }.setConn id { c with phase := .finishing }, l)
  | .finishing => ({ s with wg := s.wg - 1 }.setConn id { c with phase := .served }, l)
  | .served => (s, l)
  | .turnedAway => (s, l)

/-- The accept loop goes on when `dispatch` has returned. -/
def resumeStart : TcpServer :=
  if s.start = .dispatching id ∧ (s.conns[id]?.all fun c ↦ !c.phase.dispatching) then
    { s with start := .accepting }
  else s

def turn (shunned : Bool) : TcpServer × Limiter :=
  match s.conns[id]? with
  | none => (s, l)
  | some c =>
    let (s', l') := s.connStep l id c shunned
    (s'.resumeStart id, l')

/-- The context of a connection closes it while it is served. -/
def afterFunc : TcpServer :=
  match s.conns[id]? with
  | none => s
  | some c => if s.cancelled ∧ c.phase = .serving then s.setConn id { c with closed := true } else s

/-! ## Stop -/

def setStop (phase : StopPhase) : TcpServer :=
  { s with stops := s.stops.set call phase }

def closeConn : TcpServer :=
  match s.conns[id]? with
  | none => s
  | some c => s.setConn id { c with closed := true }

/-- The next step of a `Stop` call. -/
def stopStep : TcpServer :=
  match s.stops[call]? with
  | some .locking => { s with stopping := true }.setStop call (.closing s.table)
  | some (.closing []) => s.setStop call .waiting
  | some (.closing (id :: rest)) => (s.closeConn id).setStop call (.closing rest)
  | some .waiting => if s.wg = 0 then s.setStop call .woken else s
  | some .woken => s.setStop call (.returned true)
  | _ => s

def stopTimeout : TcpServer :=
  match s.stops[call]? with
  | some .waiting => s.setStop call (.returned false)
  | some .woken => s.setStop call (.returned false)
  | _ => s

def step : TcpAction → TcpServer × Limiter
  | .listen ok => (s.listen ok, l)
  | .bind => (s.bind, l)
  | .accept host => (s.accept host, l)
  | .acceptError final => (s.acceptError final, l)
  | .turn id shunned => s.turn l id shunned
  | .stop => ({ s with stops := s.stops ++ [.locking] }, l)
  | .stopStep call => (s.stopStep call, l)
  | .stopTimeout call => (s.stopTimeout call, l)
  | .cancel => ({ s with cancelled := true }, l)
  | .afterFunc id => (s.afterFunc id, l)

end TcpServer

end RanHoneypot.Trap
