import RanHoneypot.Config.IgnoreList
import RanHoneypot.Data.TimedRun
import RanHoneypot.Alert.Pipeline
import RanHoneypot.Alert.ProbeLog
import RanHoneypot.Alert.Scan

/-!
# The sensor in front of the sink

The `Sensor` of `sensor.go` with a CrowdSec sink: it classifies sessions, detects scans, collects
probe summaries, applies the ignore list and passes events and shun queries on. As in `Pipeline`, one
step of the machine runs a goroutine up to its next access to shared state, and a run is an arbitrary
list of steps. A call of `Alert` or `SessionEnd` starts with one step that looks at the scan tracker
and enters `Submit`; its `Submit` goes on as a thread of the pipeline. A `SessionEnd` whose `Submit`
has returned ends with a `record` step.
-/

namespace RanHoneypot.Alert

open TimedRun

structure SensorConfig where
  maxTracked : ℤ
  summaryWindow : ℤ
  ignoreIPs : List Prefix

/-- What a call of the sensor reports to its caller. `verdict` is the answer of the scan tracker,
which the caller only sees as a class. -/
inductive Answer where
  | verdict (info : SessionInfo) (scanner : Bool)
  | alert (info : SessionInfo) (cls : Option Class)
  | sessionEnd (info : SessionInfo) (summarized : Bool)
  | shunned (ip : String) (refuse : Bool)
  | ignored (ip : String) (listed : Bool)
deriving DecidableEq

/-- A `SessionEnd` call that has classified its session. `thread` is its `Submit` call, if any. -/
structure Ending where
  info : SessionInfo
  thread : Option ℕ
  done : Bool := false
deriving DecidableEq

/-- The sensor and its sink. `answers` is the history of what its callers were told. -/
structure Sensor where
  scan : ScanTracker
  probes : ProbeLog
  ignore : List Prefix
  pipeline : Pipeline
  endings : List Ending
  answers : List Answer

inductive SensorOp where
  | alert (info : SessionInfo) (meta' : Meta) (now : ℕ)
  | sessionEnd (info : SessionInfo) (now : ℕ)
  /-- The rest of a `SessionEnd` call. -/
  | record (ending now : ℕ)
  | shunned (ip : String) (now : ℕ)
  | shunRejected (ip protocol : String)
  | ignored (ip : String)
  /-- The steps of the maintenance goroutine; its `Sweep` is an action of the sink. -/
  | flushDue (now : ℕ)
  | cleanup (now : ℕ)
  /-- The steps of `CloseContext`; `Flush` and `Close` are actions of the sink. -/
  | closeProbes
  | flushProbes (now : ℕ)
  /-- A step inside the sink. -/
  | sink (a : Action)

/-- The actions that the goroutines of the sink take on their own. -/
def Action.internal : Action → Bool
  | call _ => false
  | shunned _ _ => false
  | rejected _ _ => false
  | _ => true

def Phase.isReturned : Phase → Bool
  | returned _ => true
  | _ => false

/-- The `Submit` call of the ending, if it has one, has returned. -/
def Ending.submitted (e : Ending) (p : Pipeline) : Bool :=
  e.thread.all fun thread ↦ p.threads[thread]?.any Phase.isReturned

def newSensor (cfg : SensorConfig) (sinkCfg : CrowdSecConfig) : Sensor :=
  let maxTracked := if cfg.maxTracked ≤ 0 then defaultMaxTracked else cfg.maxTracked
  { scan := newScanTracker scanWindow scanProtocols maxTracked
    probes := newProbeLog cfg.summaryWindow maxTracked
    ignore := cfg.ignoreIPs
    pipeline := .start sinkCfg
    endings := []
    answers := [] }

namespace Sensor

variable (net : Netip) (s : Sensor) (info : SessionInfo) (now : ℕ)

variable (ip : String) (meta' : Meta)

def answer (a : Answer) : Sensor := { s with answers := s.answers ++ [a] }

def isIgnored : Bool :=
  Config.matchesPrefixes net s.ignore ip

/-- Records a TCP trap protocol use and reports whether the source is a scanner. -/
def touchScan : Bool × Sensor :=
  if info.transport ≠ .tcp ∨ s.isIgnored net info.sourceIP then (false, s)
  else
    match parseBannableIP net info.sourceIP with
    | none => (false, s)
    | some addr =>
      let (scanner, scan) := s.scan.touchPort (net.string addr) info.protocol info.destPort now
      (scanner, { s with scan := scan })

def classify : Class × Sensor :=
  let (scanner, touched) := s.touchScan net info now
  (if scanner then .scan else Alert.classify info, touched.answer (.verdict info scanner))

/-- Enters `Submit` of the sink. -/
def submit (ev : Event) : Sensor := { s with pipeline := s.pipeline.callSubmit ev }

def alert (now : ℕ) : Sensor :=
  if info.transport ≠ .tcp then s.answer (.alert info none)
  else if s.isIgnored net info.sourceIP then s.answer (.alert info none)
  else
    let (cls, touched) := s.classify net info now
    (touched.submit { cls := cls, info := info, meta' := meta' }).answer (.alert info (some cls))

/-- `SessionEnd` up to the entry of `Submit`, which it calls for an escalation that was not reported
yet. -/
def sessionEnd : Sensor :=
  if info.transport ≠ .tcp ∨ s.isIgnored net info.sourceIP then s.answer (.sessionEnd info false)
  else
    let (cls, touched) := s.classify net info now
    if rankOf info.alertedClass < cls.rank then
      let thread := touched.pipeline.threads.length
      let submitted := touched.submit { cls := cls, info := info, meta' := ∅ }
      { submitted with endings := submitted.endings ++ [{ info := info, thread := some thread }] }
    else { touched with endings := touched.endings ++ [{ info := info, thread := none }] }

/-- The event that `Alert` submits. Its class is what the call returns. -/
def alertEvent (now : ℕ) : Option Event :=
  if info.transport ≠ .tcp ∨ s.isIgnored net info.sourceIP then none
  else some { cls := (s.classify net info now).1, info := info, meta' := meta' }

/-- The event that `SessionEnd` submits. -/
def sessionEndEvent : Option Event :=
  (s.alertEvent net info ∅ now).filter fun ev ↦ rankOf info.alertedClass < ev.cls.rank

/-- The rest of `SessionEnd`: probe sessions are collected instead of logged one by one. -/
def recordEnding : Sensor :=
  if Alert.classify info = .probe ∧ 0 < s.probes.window then
    let (ok, probes) := s.probes.record net info.sourceIP info.protocol now
    { s with probes := probes }.answer (.sessionEnd info ok)
  else s.answer (.sessionEnd info false)

def record (ending now : ℕ) : Sensor :=
  match s.endings[ending]? with
  | none => s
  | some e =>
    if e.done || !e.submitted s.pipeline then s
    else
      { s with endings := s.endings.set ending { e with done := true } }.recordEnding net e.info now

/-- An ignored source is never shunned. -/
def shunned (now : ℕ) : Sensor :=
  if !s.pipeline.sink.shunEnabled || s.isIgnored net ip then s.answer (.shunned ip false)
  else
    let (refuse, _) := s.pipeline.sink.shunned net ip now
    { s with pipeline := s.pipeline.step net (.shunned ip now) }.answer (.shunned ip refuse)

def shunRejected (protocol : String) : Sensor :=
  { s with pipeline := s.pipeline.step net (.rejected ip protocol) }

def step : SensorOp → Sensor
  | .alert info meta' now => s.alert net info meta' now
  | .sessionEnd info now => s.sessionEnd net info now
  | .record ending now => s.record net ending now
  | .shunned ip now => s.shunned net ip now
  | .shunRejected ip protocol => s.shunRejected net ip protocol
  | .ignored ip => s.answer (.ignored ip (s.isIgnored net ip))
  | .flushDue now => if 0 < s.probes.window then { s with probes := s.probes.flushDue now } else s
  | .cleanup now => { s with scan := s.scan.cleanup now }
  | .closeProbes => { s with probes := s.probes.close }
  | .flushProbes now => { s with probes := s.probes.flushAll now }
  | .sink a => if a.internal then { s with pipeline := s.pipeline.step net a } else s

/-! ## Calls and events -/

/-- `touchScan` changes nothing but the scan tracker. -/
theorem touchScan_frame :
    (s.touchScan net info now).2.ignore = s.ignore ∧
      (s.touchScan net info now).2.pipeline = s.pipeline ∧
      (s.touchScan net info now).2.endings = s.endings := by
  unfold touchScan
  split
  · exact ⟨rfl, rfl, rfl⟩
  · split <;> exact ⟨rfl, rfl, rfl⟩

/-- `Alert` enters `Submit` with its event and answers with the class of it. -/
theorem alert_event (now : ℕ) :
    (s.alert net info meta' now).pipeline =
        ((s.alertEvent net info meta' now).map s.pipeline.callSubmit).getD s.pipeline ∧
      (s.alert net info meta' now).answers.getLast? =
        some (.alert info ((s.alertEvent net info meta' now).map Event.cls)) := by
  unfold alert alertEvent
  by_cases htcp : info.transport ≠ .tcp
  · rw [if_pos htcp, if_pos (.inl htcp)]
    exact ⟨rfl, List.getLast?_concat⟩
  · by_cases hlisted : s.isIgnored net info.sourceIP = true
    · rw [if_neg htcp, if_pos hlisted, if_pos (.inr hlisted)]
      exact ⟨rfl, List.getLast?_concat⟩
    · rw [if_neg htcp, if_neg hlisted, if_neg (not_or.mpr ⟨htcp, hlisted⟩)]
      refine ⟨?_, List.getLast?_concat⟩
      exact congrArg (Pipeline.callSubmit · _) (touchScan_frame _ s ..).2.1

theorem sessionEnd_event :
    (s.sessionEnd net info now).pipeline =
      ((s.sessionEndEvent net info now).map s.pipeline.callSubmit).getD s.pipeline := by
  unfold sessionEnd sessionEndEvent alertEvent
  by_cases hskip : info.transport ≠ .tcp ∨ s.isIgnored net info.sourceIP = true
  · rw [if_pos hskip, if_pos hskip]
    rfl
  · rw [if_neg hskip, if_neg hskip]
    by_cases hescalates : rankOf info.alertedClass < (s.classify net info now).1.rank
    · simp only [Option.filter_some, decide_eq_true hescalates, if_pos hescalates]
      exact congrArg (Pipeline.callSubmit · _) (touchScan_frame _ s ..).2.1
    · simp only [Option.filter_some, decide_eq_false hescalates, Bool.false_eq_true, if_neg hescalates]
      exact (touchScan_frame _ s ..).2.1

end Sensor

/-- The sensor after a run from its start. -/
def sensorAfter (net : Netip) (cfg : SensorConfig) (sinkCfg : CrowdSecConfig) (ops : List SensorOp) :
    Sensor :=
  run (Sensor.step net) (newSensor cfg sinkCfg) ops

end RanHoneypot.Alert
