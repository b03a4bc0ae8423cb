import RanHoneypot.Config.ProxyTrust
import RanHoneypot.Trap.MultiListener

/-!
# The PROXY listener

`proxyListener` takes raw connections from the listener below it, reads their PROXY headers and hands
the connections to `Accept`. The machine runs its accept loop, one handshake goroutine for each
connection that got a place in the semaphore, and any number of `Accept` and `Close` calls. A step runs
one of them up to its next access to something shared. The environment chooses who runs, what the
listener below returns, how many bytes are read and whether they are a header, when the timer fires and
the branch of a `select` where more than one is ready.
-/

namespace RanHoneypot.Trap

open TimedRun

open Config (SocketAddr)

/-- The capacity of the semaphore. -/
def maxPendingHandshakes : ℕ := 1024

inductive DropReason where
  | untrustedPeer
  | handshakeLimit
  | noValidHeader
  | handoffTimeout
deriving DecidableEq

/-- How far a raw connection has come: in the accept loop up to `admitting`, in its handshake from
`registering` to `releasing`. -/
inductive RawPhase where
  /-- The accept loop asks whether the peer is trusted. -/
  | checking
  /-- The `select` on the semaphore. -/
  | admitting
  /-- The first critical section of `handshake`. -/
  | registering
  /-- The listener is closed: the connection is closed next. -/
  | refusing
  /-- The header is read. -/
  | reading
  /-- The second critical section, with or without a valid header. -/
  | unregistering (ok : Bool)
  /-- There was no valid header: the connection is dropped next. -/
  | rejecting
  /-- The `select` that hands the connection over. -/
  | offering
  /-- The listener was closed meanwhile: the connection is closed next. -/
  | abandoning
  /-- The deferred receive from the semaphore. -/
  | releasing
  | ended
deriving DecidableEq

/-- A raw connection. `read` counts the bytes read from it here, `handed` says that it was handed to an
`Accept` call, and `reason` is the one that was logged when it was dropped. -/
structure RawConn where
  peer : SocketAddr
  phase : RawPhase := .checking
  closed : Bool := false
  read : ℕ := 0
  handed : Bool := false
  reason : Option DropReason := none
deriving DecidableEq

inductive RawLoopPhase where
  | idle
  | accepting
  | backingOff
  | handling (id : ℕ)
  | returned
deriving DecidableEq

/-- The next statement of the function that `Close` passes to `closeOnce.Do`. -/
inductive ProxyClosePhase where
  | locking
  | closingDone
  /-- The pending connections that are still to be closed. -/
  | closingPending (rest : List ℕ)
  | unlocking
  | closingListener
deriving DecidableEq

/-- `mu` says that `Close` holds the mutex; the other critical sections are single steps. `dropped` is
the metric. -/
structure ProxyListener where
  conns : List RawConn := []
  loop : RawLoopPhase := .idle
  backoff : ℕ := acceptPanicBackoffMin
  done : Bool := false
  failed : Bool := false
  sem : ℕ := 0
  mu : Bool := false
  pending : List ℕ := []
  closeOnce : Once ProxyClosePhase := .unused
  accepts : List ReceivePhase := []
  closes : List CallPhase := []
  dropped : ℕ := 0
deriving DecidableEq

/-- The branch of the `select` that ends a handshake. One that is not ready gives way to the timer. -/
inductive HandOff where
  | ready (call : ℕ)
  | done
  | timer
deriving DecidableEq

inductive ProxyAction where
  /-- `Accept` is called. -/
  | accept
  /-- An `Accept` call finds that the accept loop has failed or the listener is closed. -/
  | acceptFails (call : ℕ)
  /-- The listener below returns a connection. -/
  | rawConn (peer : SocketAddr)
  /-- The listener below returns an error, which is final if it is `net.ErrClosed`. -/
  | rawError (final : Bool)
  /-- The `select` of the back-off. -/
  | backOff (preferDone : Bool)
  /-- Bytes of the header are read. -/
  | read (id bytes : ℕ)
  /-- The next step of a connection. `ok` says whether a valid header was found. -/
  | turn (id : ℕ) (ok : Bool) (choice : HandOff)
  /-- `Close` is called. -/
  | close
  /-- The next step of a `Close` call. -/
  | closeStep (call : ℕ)
deriving DecidableEq

namespace ProxyListener

variable (trusts : SocketAddr → Bool) (p : ProxyListener) (call id : ℕ) (c : RawConn)

def setConn : ProxyListener :=
  { p with conns := p.conns.set id c }

/-! ## Accept -/

/-- `Accept` starts the accept loop once and then waits. -/
def accept : ProxyListener :=
  { p with
    loop := if p.loop = .idle then .accepting else p.loop
    accepts := p.accepts ++ [.receiving] }

def acceptFails : ProxyListener :=
  match p.accepts[call]? with
  | some .receiving =>
    if p.failed ∨ p.done then { p with accepts := p.accepts.set call (.returned none) } else p
  | _ => p

/-! ## The accept loop -/

def rawConn (peer : SocketAddr) : ProxyListener :=
  match p.loop with
  | .accepting =>
    { p with
      conns := p.conns ++ [{ peer := peer }]
      loop := .handling p.conns.length
      backoff := acceptPanicBackoffMin }
  | _ => p

def rawError (final : Bool) : ProxyListener :=
  match p.loop with
  | .accepting =>
    if final then { p with failed := true, loop := .returned } else { p with loop := .backingOff }
  | _ => p

def backOff (preferDone : Bool) : ProxyListener :=
  match p.loop with
  | .backingOff =>
    if p.done ∧ preferDone then { p with failed := true, loop := .returned }
    else { p with loop := .accepting, backoff := nextBackoff p.backoff }
  | _ => p

/-! ## Connections -/

/-- Closes the connection and counts it. -/
def drop (reason : DropReason) (next : RawPhase) : ProxyListener :=
  { p with dropped := p.dropped + 1 }.setConn id
    { c with closed := true, reason := some reason, phase := next }

/-- The `select` that hands the connection to an `Accept` call. -/
def handOff : HandOff → ProxyListener
  | .ready call =>
    if p.accepts[call]? = some .receiving then
      { p with accepts := p.accepts.set call (.returned (some id)) }.setConn id
        { c with handed := true, phase := .releasing }
    else p.drop id c .handoffTimeout .releasing
  | .done =>
    if p.done then p.setConn id { c with phase := .abandoning }
    else p.drop id c .handoffTimeout .releasing
  | .timer => p.drop id c .handoffTimeout .releasing

/-- The next step of a connection. -/
def connStep (ok : Bool) (choice : HandOff) : ProxyListener :=
  match c.phase with
  | .checking =>
    if !trusts c.peer then { p with loop := .accepting }.drop id c .untrustedPeer .ended
    else p.setConn id { c with phase := .admitting }
  | .admitting =>
    if p.sem < maxPendingHandshakes then
      { p with sem := p.sem + 1, loop := .accepting }.setConn id { c with phase := .registering }
    else { p with loop := .accepting }.drop id c .handshakeLimit .ended
  | .registering =>
    if p.mu then p
    else if p.done then p.setConn id { c with phase := .refusing }
    else { p with pending := p.pending ++ [id] }.setConn id { c with phase := .reading }
  | .refusing => p.setConn id { c with closed := true, phase := .releasing }
  | .reading => p.setConn id { c with phase := .unregistering ok }
  | .unregistering ok =>
    if p.mu then p
    else
      { p with pending := p.pending.filter (· ≠ id) }.setConn id
        { c with phase := if !ok then .rejecting else .offering }
  | .rejecting => p.drop id c .noValidHeader .releasing
  | .offering => p.handOff id c choice
  | .abandoning => p.setConn id { c with closed := true, phase := .releasing }
  | .releasing => { p with sem := p.sem - 1 }.setConn id { c with phase := .ended }
  | .ended => p

def turn (ok : Bool) (choice : HandOff) : ProxyListener :=
  match p.conns[id]? with
  | none => p
  | some c => p.connStep trusts id c ok choice

def read (bytes : ℕ) : ProxyListener :=
  match p.conns[id]? with
  | none => p
  | some c =>
    if c.phase = .reading then p.setConn id { c with read := c.read + bytes } else p

/-! ## Close -/

def setClose (phase : ProxyClosePhase) : ProxyListener :=
  { p with closeOnce := .running call phase }

def closeConn : ProxyListener :=
  match p.conns[id]? with
  | none => p
  | some c => p.setConn id { c with closed := true }

/-- The next step of the function that `closeOnce` runs for `call`. -/
def closeBody : ProxyClosePhase → ProxyListener
  | .locking => if p.mu then p else { p with mu := true }.setClose call .closingDone
  | .closingDone => { p with done := true }.setClose call (.closingPending p.pending)
  | .closingPending (id :: rest) => (p.closeConn id).setClose call (.closingPending rest)
  | .closingPending [] => p.setClose call .unlocking
  | .unlocking => { p with mu := false }.setClose call .closingListener
  | .closingListener => { p with closeOnce := .finished }

/-- The next step of a `Close` call. -/
def closeStep : ProxyListener :=
  match p.closes[call]? with
  | some .calling =>
    match p.closeOnce with
    | .unused => p.setClose call .locking
    | .running other phase => if other = call then p.closeBody call phase else p
    | .finished => { p with closes := p.closes.set call .returned }
  | _ => p

def step : ProxyAction → ProxyListener
  | .accept => p.accept
  | .acceptFails call => p.acceptFails call
  | .rawConn peer => p.rawConn peer
  | .rawError final => p.rawError final
  | .backOff preferDone => p.backOff preferDone
  | .read id bytes => p.read id bytes
  | .turn id ok choice => p.turn trusts id ok choice
  | .close => { p with closes := p.closes ++ [.calling] }
  | .closeStep call => p.closeStep call

end ProxyListener

/-- A listener with a trust set after a run of its goroutines and calls. -/
def proxyListenerAfter (net : Netip) (trust : Option Config.ProxyTrust)
    (actions : List ProxyAction) : ProxyListener :=
  run (ProxyListener.step (Config.trusts net trust)) {} actions

end RanHoneypot.Trap
