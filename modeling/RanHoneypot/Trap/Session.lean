import Mathlib.Algebra.Order.BigOperators.Group.List
import RanHoneypot.Alert.Sensor

/-!
# Trap sessions

The part of `Session` in `trap.go` that the sensor depends on: the counters of what the client did,
the highest class the session was reported with, and the calls that the session makes to the sensor.
A session is used by one goroutine, but the sensor is shared. Each call is given the state the sensor
happens to be in.
-/

namespace RanHoneypot.Trap

open Alert Utf8

structure Session where
  protocol : String
  transport : Transport
  sourceIP : String
  destPort : ℤ
  /-- `UseSensor` was called. -/
  sensed : Bool
  authAttempts : ℤ
  commands : ℤ
  payloadBytes : ℤ
  alertedClass : Option Alert.Class
deriving DecidableEq

/-- A session with its sensor, if it has one. -/
def newSession (protocol : String) (transport : Transport) (sourceIP : String) (destPort : ℤ)
    (sensed : Bool) : Session where
  protocol := protocol
  transport := transport
  sourceIP := sourceIP
  destPort := destPort
  sensed := sensed
  authAttempts := 0
  commands := 0
  payloadBytes := 0
  alertedClass := none

/-- The cap of the payload counter and of each single addition to it. -/
def maxPayloadBytes : ℤ := 2 ^ 31 - 1

namespace Session

variable (net : Netip) (s : Session) (sensor : Sensor)

/-- The snapshot handed to the sensor. -/
def info : SessionInfo where
  sourceIP := s.sourceIP
  protocol := s.protocol
  transport := s.transport
  destPort := s.destPort
  authAttempts := s.authAttempts
  commands := s.commands
  payloadBytes := s.payloadBytes
  alertedClass := s.alertedClass

def logAuthAttempt : Session := { s with authAttempts := s.authAttempts + 1 }

def logCommand : Session := { s with commands := s.commands + 1 }

/-- Both the addition and the total saturate. -/
def logPayloadSize (size : ℤ) : Session :=
  let n := min (max size 1) maxPayloadBytes
  { s with
    payloadBytes := if s.payloadBytes > maxPayloadBytes - n then maxPayloadBytes
      else s.payloadBytes + n }

/-- `strings` are the string attributes of the payload. -/
def logPayload (strings : List Bytes) : Session :=
  s.logPayloadSize (strings.map fun text ↦ (text.length : ℤ)).sum

/-- Reports the activity so far. Returns the event that the sensor submits as well. -/
def alert (meta' : Meta) (now : ℕ) : Session × Option Event :=
  if !s.sensed then (s, none)
  else
    let ev := sensor.alertEvent net s.info meta' now
    ({ s with alertedClass := maxClass s.alertedClass (ev.map Event.cls) }, ev)

/-- Reports a logged command by its name, unless the session was reported as attack or higher. -/
def alertCommand (name : Bytes) (now : ℕ) : Session × Option Event :=
  if maxClass s.alertedClass (some .attack) = s.alertedClass then (s, none)
  else s.alert net sensor (AList.singleton (ofText "command") name) now

/-- Returns the event that the sensor submits at the end of the session. -/
def logDisconnect (now : ℕ) : Option Event :=
  if s.sensed ∧ s.transport = .tcp then sensor.sessionEndEvent net s.info now else none

end Session

inductive SessionOp where
  | logAuthAttempt
  | logCommand
  | logPayload (strings : List Bytes)
  | logPayloadSize (size : ℤ)
  | alert (meta' : Meta)
  | alertCommand (name : Bytes)
deriving DecidableEq

/-- One operation of a session, with the sensor it meets. -/
structure Turn where
  op : SessionOp
  sensor : Sensor
  now : ℕ

/-- A session and the events submitted for it. -/
structure SessionRun where
  session : Session
  submits : List Event

namespace SessionRun

def take (net : Netip) (s : Session) (t : Turn) : Session × Option Event :=
  match t.op with
  | .logAuthAttempt => (s.logAuthAttempt, none)
  | .logCommand => (s.logCommand, none)
  | .logPayload strings => (s.logPayload strings, none)
  | .logPayloadSize size => (s.logPayloadSize size, none)
  | .alert meta' => s.alert net t.sensor meta' t.now
  | .alertCommand name => s.alertCommand net t.sensor name t.now

def step (net : Netip) (r : SessionRun) (t : Turn) : SessionRun where
  session := (take net r.session t).1
  submits := r.submits ++ (take net r.session t).2.toList

/-- The session is closed. -/
def disconnect (net : Netip) (r : SessionRun) (sensor : Sensor) (now : ℕ) : SessionRun :=
  { r with submits := r.submits ++ (r.session.logDisconnect net sensor now).toList }

end SessionRun

/-- A whole session: its operations and the end that meets `sensor`. -/
def sessionAfter (net : Netip) (s : Session) (turns : List Turn) (sensor : Sensor) (now : ℕ) :
    SessionRun :=
  (TimedRun.run (SessionRun.step net) ⟨s, []⟩ turns).disconnect net sensor now

/-! ## The payload counter -/

namespace Session

/-- The values that one call of `LogPayloadSize` computes: the addend, the room that is compared with
the counter, and the new counter. -/
def payloadValues (s : Session) (size : ℤ) : List ℤ :=
  let n := min (max size 1) maxPayloadBytes
  [n, maxPayloadBytes - n, (s.logPayloadSize size).payloadBytes]

/-- The counter is within its range. -/
def Counts (s : Session) : Prop := 0 ≤ s.payloadBytes ∧ s.payloadBytes ≤ maxPayloadBytes

variable {s : Session}

theorem Counts.payloadBytes_eq (h : s.Counts) (size : ℤ) :
    (s.logPayloadSize size).payloadBytes = min maxPayloadBytes (s.payloadBytes + max size 1) := by
  unfold Counts at h
  simp only [logPayloadSize]
  split <;> omega

theorem Counts.step (h : s.Counts) (size : ℤ) : (s.logPayloadSize size).Counts := by
  have hnext := h.payloadBytes_eq size
  unfold Counts at h ⊢
  omega

/-- Saturation is absorbing, so the calls add up to one clamp of the exact sum. -/
theorem Counts.payloadBytes_run (h : s.Counts) (sizes : List ℤ) :
    (TimedRun.run logPayloadSize s sizes).payloadBytes =
      min maxPayloadBytes (s.payloadBytes + (sizes.map (max · 1)).sum) := by
  induction sizes generalizing s with
  | nil =>
    simp [h.2]
  | cons size rest ih =>
    have hrest : 0 ≤ (rest.map (max · 1)).sum := by
      apply List.sum_nonneg
      simp
    rw [TimedRun.run_cons, ih (h.step size), h.payloadBytes_eq, List.map_cons, List.sum_cons]
    omega

end Session

/-- The counter is the exact sum, clamped once, and every value on the way fits a 32-bit `int`. -/
theorem payload_bytes_saturate (protocol : String) (transport : Transport) (sourceIP : String)
    (destPort : ℤ) (sensed : Bool) (sizes : List ℤ) :
    let after := TimedRun.run Session.logPayloadSize
      (newSession protocol transport sourceIP destPort sensed)
    (after sizes).payloadBytes = min (2 ^ 31 - 1) (sizes.map (max · 1)).sum ∧
      ∀ front size rest, sizes = front ++ size :: rest →
        ∀ v ∈ (after front).payloadValues size, -2 ^ 31 ≤ v ∧ v < 2 ^ 31 := by
  intro after
  have hcap : maxPayloadBytes = 2 ^ 31 - 1 := rfl
  have hstart : (newSession protocol transport sourceIP destPort sensed).Counts := by
    simp [Session.Counts, newSession, hcap]
  refine ⟨?_, ?_⟩
  · rw [hstart.payloadBytes_run]
    exact congrArg (min _) (zero_add _)
  · intro front size rest _ v hv
    have hcounts : (after front).Counts :=
      TimedRun.run_invariant_untimed Session.Counts (fun _ size h ↦ h.step size) front hstart
    have hnext := hcounts.step size
    unfold Session.Counts at hnext
    simp only [Session.payloadValues, List.mem_cons, List.not_mem_nil, or_false] at hv
    rcases hv with rfl | rfl | rfl <;> omega

end RanHoneypot.Trap
