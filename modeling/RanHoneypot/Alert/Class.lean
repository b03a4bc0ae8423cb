import Mathlib.Data.List.AList
import RanHoneypot.Data.GoTime

/-!
# Session classes and events

The vocabulary of `alerter.go`: severity classes and their ranks, the session snapshot handed to
the sensor, its own class, and the classified event handed to a sink. A `Class` value of the source
is one of the three constants or the empty string; the empty string only occurs as "not reported
yet" and is `none` here.
-/

namespace RanHoneypot.Alert

/-- A Go string that may hold arbitrary bytes. -/
abbrev Bytes := List UInt8

/-- `map[string]string` of client controlled texts. -/
abbrev Meta := AList (fun _ : Bytes ↦ Bytes)

inductive Class where
  | probe
  | attack
  | scan
deriving DecidableEq, Repr

namespace Class

def rank : Class → ℕ
  | probe => 1
  | attack => 2
  | scan => 3

def toText : Class → String
  | probe => "probe"
  | attack => "attack"
  | scan => "scan"

/-- The position of the class in a `[3]int` of counters. -/
def index : Class → Fin 3
  | probe => 0
  | attack => 1
  | scan => 2

theorem index_injective : Function.Injective index := by
  intro left right h
  cases left <;> cases right <;> simp_all [index]

end Class

/-- Every valid class. -/
def classes : List Class := [.probe, .attack, .scan]

theorem mem_classes (c : Class) : c ∈ classes := by
  cases c <;> simp [classes]

/-- The rank of a class that may be the empty string, which ranks lowest. -/
def rankOf : Option Class → ℕ
  | none => 0
  | some c => c.rank

/-- The higher ranking of two classes. -/
def maxClass (a b : Option Class) : Option Class := if rankOf b > rankOf a then b else a

/-- The network transport of a session; the source's type is an open set of strings. -/
inductive Transport where
  | tcp
  | udp
  | other (name : String)
deriving DecidableEq, Repr

/-- A snapshot of one trap session as seen by the sensor. -/
structure SessionInfo where
  sourceIP : String
  protocol : String
  transport : Transport
  destPort : ℤ
  authAttempts : ℤ
  commands : ℤ
  payloadBytes : ℤ
  alertedClass : Option Class
deriving DecidableEq, Repr

/-- A classified session handed to a sink. -/
structure Event where
  cls : Class
  info : SessionInfo
  meta' : Meta
deriving DecidableEq

/-- The session's own class; scan is decided by the sensor. -/
def classify (info : SessionInfo) : Class :=
  if info.authAttempts > 0 ∨ info.commands > 0 ∨ info.payloadBytes > 0 then .attack else .probe

end RanHoneypot.Alert
