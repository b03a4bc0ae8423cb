import RanHoneypot.Data.TimedRun
import RanHoneypot.Trap.TcpServer

/-!
# All traps and their limiter

The traps share one limiter, and use it in three ways. The raw TCP traps are servers of their own. The
HTTP traps take a slot when `net/http` reports a connection as new, and give it back when it reports it
as closed or hijacked; `net/http` is taken to make each of these reports once, in this order, after it
has asked for the context of the connection. The UDP traps take a slot for a packet, and two of the
HTTP traps take one for a request; both give it back when the handler has ended, also after a panic.

Stopping an HTTP or UDP trap only makes its connections and sockets end earlier. The machine lets them
end at any time, so it has no action for that.
-/

namespace RanHoneypot.Trap

open TimedRun

/-! ## Connections of the HTTP traps -/

/-- How far `net/http` is with a connection. In `creating` the slot is taken and the session not
stored yet, and in `releasing` the session is over and its slot still taken. -/
inductive HttpPhase where
  | accepted
  | new
  | creating
  | active
  | releasing (sourceIP : String)
  | finished
deriving DecidableEq

/-- A connection of an HTTP trap. `entry` is its entry in the map `conns` of the trap: the source
address of the session in it, if there is one. -/
structure HttpConn where
  host : String
  phase : HttpPhase := .accepted
  entry : Option (Option String) := none
  slot : Slot := {}
deriving DecidableEq

namespace HttpConn

variable (c : HttpConn)

def connContext : HttpConn := { c with entry := some none, phase := .new }

/-- `connState` for a new connection. -/
def connNew (l : Limiter) : HttpConn × Limiter :=
  match c.entry with
  | none => ({ c with phase := .active }, l)
  | some _ =>
    let (ok, l') := l.acquire c.host
    if !ok then ({ c with phase := .active }, l')
    else ({ c with phase := .creating, slot := c.slot.take c.host }, l')

/-- `connState` for a closed or hijacked connection, up to the call of `Release`. -/
def connClosed : HttpConn :=
  match c.entry with
  | none => { c with phase := .finished }
  | some none => { c with entry := none, phase := .finished }
  | some (some sourceIP) => { c with entry := none, phase := .releasing sourceIP }

def turn (l : Limiter) : HttpConn × Limiter :=
  match c.phase with
  | .accepted => (c.connContext, l)
  | .new => c.connNew l
  | .creating => ({ c with entry := some (some c.host), phase := .active }, l)
  | .active => (c.connClosed, l)
  | .releasing sourceIP =>
    ({ c with phase := .finished, slot := c.slot.giveBack sourceIP }, l.release sourceIP)
  | .finished => (c, l)

end HttpConn

/-! ## Packets and requests -/

inductive BriefPhase where
  /-- The packet rate of the source is looked up. -/
  | limiting
  | acquiring
  | handling
  | releasing
  | finished
deriving DecidableEq

/-- A UDP packet, or a request to one of the traps that admit single requests. -/
structure BriefSession where
  host : String
  phase : BriefPhase
  slot : Slot := {}
deriving DecidableEq

namespace BriefSession

def turn (b : BriefSession) (l : Limiter) (allowed : Bool) : BriefSession × Limiter :=
  match b.phase with
  | .limiting => ({ b with phase := if !allowed then .finished else .acquiring }, l)
  | .acquiring =>
    let (ok, l') := l.acquire b.host
    if !ok then ({ b with phase := .finished }, l')
    else ({ b with phase := .handling, slot := b.slot.take b.host }, l')
  | .handling => ({ b with phase := .releasing }, l)
  | .releasing => ({ b with phase := .finished, slot := b.slot.giveBack b.host }, l.release b.host)
  | .finished => (b, l)

end BriefSession

/-! ## The system -/

structure Traps where
  limiter : Limiter
  tcp : List TcpServer
  http : List HttpConn
  brief : List BriefSession

inductive TrapAction where
  | tcp (server : ℕ) (a : TcpAction)
  /-- An HTTP trap accepts a connection. -/
  | accept (host : String)
  | httpTurn (id : ℕ)
  /-- A UDP trap reads a packet. -/
  | packet (host : String)
  /-- A trap that admits single requests gets one. -/
  | request (host : String)
  | briefTurn (id : ℕ) (allowed : Bool)

namespace Traps

def start (maxGlobal maxPerIP : ℤ) (servers : ℕ) : Traps where
  limiter := newLimiter maxGlobal maxPerIP
  tcp := List.replicate servers {}
  http := []
  brief := []

def tcpStep (t : Traps) (server : ℕ) (a : TcpAction) : Traps :=
  match t.tcp[server]? with
  | none => t
  | some s =>
    let (s', l) := s.step t.limiter a
    { t with limiter := l, tcp := t.tcp.set server s' }

def httpTurn (t : Traps) (id : ℕ) : Traps :=
  match t.http[id]? with
  | none => t
  | some c =>
    let (c', l) := c.turn t.limiter
    { t with limiter := l, http := t.http.set id c' }

def briefTurn (t : Traps) (id : ℕ) (allowed : Bool) : Traps :=
  match t.brief[id]? with
  | none => t
  | some b =>
    let (b', l) := b.turn t.limiter allowed
    { t with limiter := l, brief := t.brief.set id b' }

def step (t : Traps) : TrapAction → Traps
  | .tcp server a => t.tcpStep server a
  | .accept host => { t with http := t.http ++ [{ host := host }] }
  | .httpTurn id => t.httpTurn id
  | .packet host => { t with brief := t.brief ++ [{ host := host, phase := .limiting }] }
  | .request host => { t with brief := t.brief ++ [{ host := host, phase := .acquiring }] }
  | .briefTurn id allowed => t.briefTurn id allowed

end Traps

/-- The traps after a run, from a start with any number of TCP servers. -/
def trapsAfter (maxGlobal maxPerIP : ℤ) (servers : ℕ) (actions : List TrapAction) : Traps :=
  run Traps.step (Traps.start maxGlobal maxPerIP servers) actions

end RanHoneypot.Trap
