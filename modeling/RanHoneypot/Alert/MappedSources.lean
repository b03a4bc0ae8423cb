import RanHoneypot.Alert.PipelineFrame
import RanHoneypot.Alert.Sensor

/-!
# IPv4-mapped sources

A source text enters the sensor in many places: the ignore list, the scan tracker, the probe log, the
shun gate and `Submit`. None of them tells an IPv4 text from its `::ffff:` form. `Respects` collects
what they read of a text. A map of texts that it holds for can be applied to a whole run: every step
commutes with it, so runs that agree after the map agree in everything but the texts.
-/

namespace RanHoneypot.Alert

open TimedRun List CrowdSecAlerter Addr

/-! ## What is read of a source text -/

/-- The map `f` of source texts changes nothing that anybody reads of them. -/
structure Respects (net : Netip) (f : String → String) : Prop where
  bannable : ∀ text, parseBannableIP net (f text) = parseBannableIP net text
  normalize : ∀ text, normalizeIP net (f text) = normalizeIP net text
  listed : ∀ prefixes text, Config.matchesPrefixes net prefixes (f text) =
    Config.matchesPrefixes net prefixes text
  probe : ∀ text, probeKey net (f text) = probeKey net text

/-- The canonical text of a source: its unmapped address, if it parses without a zone. -/
def canonical (net : Netip) (text : String) : String :=
  match net.parseAddr text with
  | none => text
  | some addr => if addr.zone = "" then net.string addr.unmap else text

theorem canonical_of_parse {net : Netip} {text : String} {addr : Addr}
    (hparse : net.parseAddr text = some addr) (hzone : addr.zone = "") :
    canonical net text = net.string addr.unmap := by
  simp [canonical, hparse, hzone]

/-- The canonical text reads as the unmapped address. -/
theorem parse_canonical {net : Netip} (hnet : net.RoundTrip) {text : String} {addr : Addr}
    (hparse : net.parseAddr text = some addr) (hzone : addr.zone = "") :
    net.parseAddr (canonical net text) = some addr.unmap := by
  rw [canonical_of_parse hparse hzone]
  exact hnet addr.unmap (zone_unmap hzone)

theorem canonical_respects {net : Netip} (hnet : net.RoundTrip) : Respects net (canonical net) := by
  -- A text without an address, or with a zone, is its own canonical text.
  have hcases (text : String) : canonical net text = text ∨
      ∃ addr, net.parseAddr text = some addr ∧ addr.zone = "" ∧
        net.parseAddr (canonical net text) = some addr.unmap := by
    cases hparse : net.parseAddr text with
    | none => exact .inl (by simp only [canonical, hparse])
    | some addr =>
      by_cases hzone : addr.zone = ""
      · exact .inr ⟨addr, rfl, hzone, parse_canonical hnet hparse hzone⟩
      · exact .inl (by simp [canonical, hparse, hzone])
  refine ⟨fun text ↦ ?_, fun text ↦ ?_, fun prefixes text ↦ ?_, fun text ↦ ?_⟩
  all_goals rcases hcases text with hsame | ⟨addr, hparse, hzone, hcanonical⟩
  · rw [hsame]
  · simp only [parseBannableIP, hparse, hcanonical, hzone, zone_unmap hzone, unmap_unmap]
  · rw [hsame]
  · simp only [normalizeIP, hparse, hcanonical, hzone, zone_unmap hzone, unmap_unmap]
  · rw [hsame]
  · rw [Config.matchesPrefixes_of_parse hparse, Config.matchesPrefixes_of_parse hcanonical,
      dropZone_of_zone hzone, dropZone_of_zone (zone_unmap hzone), unmap_unmap]
  · rw [hsame]
  · simp only [probeKey, hparse, hcanonical, unmap_unmap]

/-! ## Mapping the texts of a run -/

section

variable (f : String → String)

def SessionInfo.mapSource (info : SessionInfo) : SessionInfo :=
  { info with sourceIP := f info.sourceIP }

def Event.mapSource (ev : Event) : Event := { ev with info := ev.info.mapSource f }

def Phase.mapSource : Phase → Phase
  | parsing ev => parsing (ev.mapSource f)
  | locking ev ip => locking (ev.mapSource f) ip
  | allowing ev ip => allowing (ev.mapSource f) ip
  | accepting ev ip allowance => accepting (ev.mapSource f) ip allowance
  | phase => phase

def Action.mapSource : Action → Action
  | call ev => call (ev.mapSource f)
  | shunned ip now => shunned (f ip) now
  | rejected ip protocol => rejected (f ip) protocol
  | a => a

def Ending.mapSource (e : Ending) : Ending := { e with info := e.info.mapSource f }

def Answer.mapSource : Answer → Answer
  | verdict info scanner => verdict (info.mapSource f) scanner
  | alert info cls => alert (info.mapSource f) cls
  | sessionEnd info summarized => sessionEnd (info.mapSource f) summarized
  | shunned ip refuse => shunned (f ip) refuse
  | ignored ip listed => ignored (f ip) listed

def SensorOp.mapSource : SensorOp → SensorOp
  | alert info meta' now => alert (info.mapSource f) meta' now
  | sessionEnd info now => sessionEnd (info.mapSource f) now
  | shunned ip now => shunned (f ip) now
  | shunRejected ip protocol => shunRejected (f ip) protocol
  | ignored ip => ignored (f ip)
  | sink a => sink (a.mapSource f)
  | op => op

/-- The texts that calls in progress hold. Everything else in the pipeline has canonical texts. -/
def Pipeline.mapSource (p : Pipeline) : Pipeline := p.withThreads (p.threads.map (Phase.mapSource f))

def Sensor.mapSource (s : Sensor) : Sensor :=
  { s with
    pipeline := s.pipeline.mapSource f
    endings := s.endings.map (Ending.mapSource f)
    answers := s.answers.map (Answer.mapSource f) }

end

variable {net : Netip} {f : String → String}

namespace Pipeline

variable (p : Pipeline) (call : ℕ)

theorem mapSource_setPhase (after : Phase) :
    (p.mapSource f).setPhase call (after.mapSource f) = (p.setPhase call after).mapSource f := by
  simp [mapSource, withThreads, setPhase]

theorem mapSource_returns (outcome : Stage) :
    (p.mapSource f).returns call outcome = (p.returns call outcome).mapSource f := by
  simp [returns, write, mapSource, withThreads, setPhase, Phase.mapSource]

theorem mapSource_callSubmit (ev : Event) :
    (p.mapSource f).callSubmit (ev.mapSource f) = (p.callSubmit ev).mapSource f := by
  simp [callSubmit, write, mapSource, withThreads, Phase.mapSource]

theorem downgrade_mapSource (banOn : List Class) (ev : Event) :
    downgrade banOn (ev.mapSource f) =
      (downgrade banOn ev).mapSource f := by
  unfold downgrade
  split
  · rw [if_pos (by assumption)]
    rfl
  · rw [if_neg (by assumption)]

theorem ite_mapSource {c : Prop} [Decidable c] {yes no yes' no' : Pipeline}
    (hyes : yes' = yes.mapSource f) (hno : no' = no.mapSource f) :
    (if c then yes' else no') = (if c then yes else no).mapSource f := by
  rw [hyes, hno]
  split <;> rfl

theorem mapSource_submitStep (hf : Respects net f) (now : ℕ) (phase : Phase) :
    (p.mapSource f).submitStep net call now (phase.mapSource f) =
      (p.submitStep net call now phase).mapSource f := by
  cases phase with
  | parsing ev =>
    simp only [Phase.mapSource, submitStep]
    rw [show (ev.mapSource f).info.sourceIP = f ev.info.sourceIP from rfl, hf.bannable]
    cases parseBannableIP net ev.info.sourceIP with
    | none => exact mapSource_returns p ..
    | some addr => exact mapSource_setPhase p _ (.locking ev (net.string _))
  | locking ev ip =>
    refine ite_mapSource (mapSource_returns p ..) ?_
    rw [downgrade_mapSource]
    exact ite_mapSource (mapSource_returns p ..)
      (mapSource_setPhase p _ (.allowing (downgrade _ ev) ip))
  | allowing ev ip =>
    let taken := (p.sink.allow net ip ev.cls now).2
    exact ite_mapSource (mapSource_returns { p with sink := taken } call .cooldown)
      (mapSource_setPhase { p with sink := taken } call
        (.accepting ev ip (p.sink.allow _ ip ..).1))
  | accepting ev ip allowance =>
    let recorded := p.sink.record net call ev ip allowance now
    exact congrArg (write · [.recorded recorded.1])
      (mapSource_setPhase { p with sink := recorded.2 } call (.sending recorded.1))
  | sending msg =>
    exact ite_mapSource
      (mapSource_setPhase { p with sink := { p.sink with ch := p.sink.ch ++ [msg] } } call .counting)
      (mapSource_setPhase p _ (.releasing msg))
  | counting => exact mapSource_returns p ..
  | releasing msg =>
    exact congrArg (write · [.released call msg.cooldownKey msg.slot])
      (mapSource_setPhase { p with sink := p.sink.release msg.cooldownKey msg.slot } call
        (.reverting msg))
  | reverting msg =>
    exact mapSource_returns
      ({ p with sink := p.sink.revert msg.mark now }.write [.reverted call msg.mark]) _ _
  | returned outcome => rfl

theorem holdsLock_mapSource (phase : Phase) : (phase.mapSource f).holdsLock = phase.holdsLock := by
  cases phase <;> rfl

theorem mapSource_step (hf : Respects net f) (a : Action) :
    (p.mapSource f).step net (a.mapSource f) = (p.step net a).mapSource f := by
  have hapart (a : Action) (h : a.apart = true) :
      (p.mapSource f).step net a = (p.step net a).mapSource f := by
    rw [mapSource, step_withThreads p _ _ h, mapSource, threads_step p _ h]
  cases a with
  | call ev => exact mapSource_callSubmit p ev
  | thread call now =>
    have hget : (p.mapSource f).threads[call]? = p.threads[call]?.map (Phase.mapSource f) :=
      getElem?_map
    simp only [Action.mapSource, step, hget]
    cases p.threads[call]? with
    | none => rfl
    | some phase => exact mapSource_submitStep p _ hf ..
  | close =>
    have hlocks : (p.mapSource f).threads.any Phase.holdsLock = p.threads.any Phase.holdsLock := by
      rw [show (p.mapSource f).threads = p.threads.map (Phase.mapSource f) from rfl, any_map]
      congr 1
      exact funext holdsLock_mapSource
    simp only [step, close, hlocks]
    exact ite_mapSource rfl rfl
  | shunned ip now =>
    have hread : p.sink.shunned net (f ip) now = p.sink.shunned net ip now := by
      simp only [shunned, OffenderTable.shunned, hf.normalize]
    simp only [Action.mapSource, step]
    rw [show (p.mapSource f).sink = p.sink from rfl, hread]
    rfl
  | rejected ip protocol =>
    have hread : p.sink.shunRejected net (f ip) protocol = p.sink.shunRejected net ip protocol := by
      simp only [shunRejected, OffenderTable.rejected, hf.normalize]
    simp only [Action.mapSource, step]
    rw [show (p.mapSource f).sink = p.sink from rfl, hread]
    rfl
  | _ => exact hapart _ rfl

end Pipeline

namespace Sensor

variable (s : Sensor)

theorem mapSource_answer (a : Answer) :
    (s.mapSource f).answer (a.mapSource f) = (s.answer a).mapSource f := by
  simp [mapSource, answer]

theorem ite_mapSource {c : Prop} [Decidable c] {yes no yes' no' : Sensor}
    (hyes : yes' = yes.mapSource f) (hno : no' = no.mapSource f) :
    (if c then yes' else no') = (if c then yes else no).mapSource f := by
  rw [hyes, hno]
  split <;> rfl

theorem isIgnored_mapSource (hf : Respects net f) (ip : String) :
    (s.mapSource f).isIgnored net (f ip) = s.isIgnored net ip :=
  hf.listed s.ignore ip

theorem mapSource_touchScan (hf : Respects net f) (info : SessionInfo) (now : ℕ) :
    (s.mapSource f).touchScan net (info.mapSource f) now =
      ((s.touchScan net info now).1, (s.touchScan net info now).2.mapSource f) := by
  simp only [touchScan, SessionInfo.mapSource, isIgnored_mapSource s hf, hf.bannable]
  split
  · rfl
  · cases parseBannableIP net info.sourceIP with
    | none | some => rfl

theorem mapSource_classify (hf : Respects net f) (info : SessionInfo) (now : ℕ) :
    (s.mapSource f).classify net (info.mapSource f) now =
      ((s.classify net info now).1, (s.classify net info now).2.mapSource f) := by
  simp only [classify, mapSource_touchScan s hf, ← mapSource_answer]
  rfl

theorem mapSource_submit (ev : Event) :
    (s.mapSource f).submit (ev.mapSource f) = (s.submit ev).mapSource f := by
  simp only [submit, mapSource, Pipeline.mapSource_callSubmit]

theorem mapSource_alert (hf : Respects net f) (info : SessionInfo) (meta' : Meta) (now : ℕ) :
    (s.mapSource f).alert net (info.mapSource f) meta' now =
      (s.alert net info meta' now).mapSource f := by
  simp only [alert, mapSource_classify s hf]
  refine ite_mapSource (mapSource_answer s (.alert info none)) ?_
  rw [show (info.mapSource f).sourceIP = f info.sourceIP from rfl, isIgnored_mapSource s hf]
  refine ite_mapSource (mapSource_answer s (.alert info none)) ?_
  rw [← mapSource_answer, ← mapSource_submit]
  rfl

theorem mapSource_ending (e : Ending) :
    { s.mapSource f with endings := (s.mapSource f).endings ++ [e.mapSource f] } =
      ({ s with endings := s.endings ++ [e] } : Sensor).mapSource f := by
  simp [mapSource]

theorem mapSource_sessionEnd (hf : Respects net f) (info : SessionInfo) (now : ℕ) :
    (s.mapSource f).sessionEnd net (info.mapSource f) now =
      (s.sessionEnd net info now).mapSource f := by
  have hthread (t : Sensor) : (t.mapSource f).pipeline.threads.length = t.pipeline.threads.length :=
    length_map _
  simp only [sessionEnd, mapSource_classify s hf, hthread]
  rw [show (info.mapSource f).sourceIP = f info.sourceIP from rfl, isIgnored_mapSource s hf]
  refine ite_mapSource (mapSource_answer s (.sessionEnd info false)) (ite_mapSource ?_ ?_)
  · rw [← mapSource_ending, ← mapSource_submit]
    rfl
  · rw [← mapSource_ending]
    rfl

theorem mapSource_recordEnding (hf : Respects net f) (info : SessionInfo) (now : ℕ) :
    (s.mapSource f).recordEnding net (info.mapSource f) now =
      (s.recordEnding net info now).mapSource f := by
  have hrecord : s.probes.record net (info.mapSource f).sourceIP info.protocol now =
      s.probes.record net info.sourceIP info.protocol now := by
    simp only [ProbeLog.record, SessionInfo.mapSource, hf.probe]
  unfold recordEnding
  rw [show (info.mapSource f).protocol = info.protocol from rfl,
    show (s.mapSource f).probes = s.probes from rfl, hrecord]
  refine ite_mapSource ?_ (mapSource_answer s (.sessionEnd info false))
  exact mapSource_answer { s with probes := (s.probes.record ..).2 }
    (.sessionEnd info _)

theorem submitted_mapSource (e : Ending) (p : Pipeline) :
    (e.mapSource f).submitted (p.mapSource f) = e.submitted p := by
  have hreturned (phase : Phase) : (phase.mapSource f).isReturned = phase.isReturned := by
    cases phase <;> rfl
  have hget (thread : ℕ) : (p.mapSource f).threads[thread]? =
      p.threads[thread]?.map (Phase.mapSource f) := getElem?_map
  simp only [Ending.submitted, Ending.mapSource, hget, Option.any_map, hreturned]

theorem mapSource_record (hf : Respects net f) (ending now : ℕ) :
    (s.mapSource f).record net ending now = (s.record net ending now).mapSource f := by
  have hget : (s.mapSource f).endings[ending]? = s.endings[ending]?.map (Ending.mapSource f) :=
    getElem?_map
  simp only [record, hget]
  cases s.endings[ending]? with
  | none => rfl
  | some e =>
    simp only [Option.map_some]
    rw [show (s.mapSource f).pipeline = s.pipeline.mapSource f from rfl, submitted_mapSource]
    refine ite_mapSource rfl ?_
    rw [← mapSource_recordEnding _ hf]
    simp [mapSource, Ending.mapSource]

theorem mapSource_shunned (hf : Respects net f) (ip : String) (now : ℕ) :
    (s.mapSource f).shunned net (f ip) now = (s.shunned net ip now).mapSource f := by
  have hread : s.pipeline.sink.shunned net (f ip) now = s.pipeline.sink.shunned net ip now := by
    simp only [CrowdSecAlerter.shunned, OffenderTable.shunned, hf.normalize]
  have hstep : (s.pipeline.mapSource f).step net (.shunned (f ip) now) =
      (s.pipeline.step ..).mapSource f := Pipeline.mapSource_step _ hf (.shunned ip now)
  unfold shunned
  rw [isIgnored_mapSource s hf]
  refine ite_mapSource (mapSource_answer s (.shunned ip false)) ?_
  rw [show (s.mapSource f).pipeline = s.pipeline.mapSource f from rfl, hstep,
    show (s.pipeline.mapSource f).sink = s.pipeline.sink from rfl, hread]
  exact mapSource_answer { s with pipeline := s.pipeline.step net (.shunned ip now) } (.shunned ip _)

theorem mapSource_step (hf : Respects net f) (op : SensorOp) :
    (s.mapSource f).step net (op.mapSource f) = (s.step net op).mapSource f := by
  cases op with
  | alert info meta' now => exact mapSource_alert s hf ..
  | sessionEnd info now => exact mapSource_sessionEnd s hf ..
  | record ending now => exact mapSource_record s hf ..
  | shunned ip now => exact mapSource_shunned s hf ip _
  | shunRejected ip protocol =>
    exact congrArg (fun p ↦ ({ s.mapSource f with pipeline := p } : Sensor))
      (Pipeline.mapSource_step _ hf (.rejected ip protocol))
  | ignored ip =>
    simp only [SensorOp.mapSource, step, isIgnored_mapSource s hf]
    exact mapSource_answer s (.ignored ip (s.isIgnored _ ip))
  | flushDue now => exact ite_mapSource rfl rfl
  | sink a =>
    have hinternal : (a.mapSource f).internal = a.internal := by cases a <;> rfl
    simp only [SensorOp.mapSource, step, hinternal]
    refine ite_mapSource ?_ rfl
    exact congrArg (fun p ↦ ({ s.mapSource f with pipeline := p } : Sensor))
      (Pipeline.mapSource_step _ hf a)
  | _ => rfl

end Sensor

theorem mapSource_sensorAfter (hf : Respects net f) (cfg : SensorConfig) (sinkCfg : CrowdSecConfig)
    (ops : List SensorOp) :
    sensorAfter net cfg sinkCfg (ops.map (SensorOp.mapSource f)) =
      (sensorAfter net cfg sinkCfg ops).mapSource f :=
  run_map (Sensor.mapSource f) (SensorOp.mapSource f) (fun s op ↦ Sensor.mapSource_step s hf op)
    (newSensor cfg sinkCfg) ops

/-! ## Two runs -/

/-- `other` is `text`, or the `::ffff:` form of the IPv4 address `text`. -/
def MappedForm (net : Netip) (text other : String) : Prop :=
  other = text ∨ (∃ bits, net.parseAddr text = some (.v4 bits)) ∧ other = "::ffff:" ++ text

/-- The two operations are the same up to the form of the source text. -/
inductive Remapped (net : Netip) : SensorOp → SensorOp → Prop
  | alert (info : SessionInfo) {text : String} (meta' : Meta) (now : ℕ) :
      MappedForm net info.sourceIP text →
      Remapped net (.alert info meta' now) (.alert { info with sourceIP := text } meta' now)
  | sessionEnd (info : SessionInfo) {text : String} (now : ℕ) : MappedForm net info.sourceIP text →
      Remapped net (.sessionEnd info now) (.sessionEnd { info with sourceIP := text } now)
  | shunned {ip text : String} (now : ℕ) : MappedForm net ip text →
      Remapped net (.shunned ip now) (.shunned text now)
  | shunRejected {ip text : String} (protocol : String) : MappedForm net ip text →
      Remapped net (.shunRejected ip protocol) (.shunRejected text protocol)
  | ignored {ip text : String} : MappedForm net ip text → Remapped net (.ignored ip) (.ignored text)
  | same (op : SensorOp) : Remapped net op op

theorem MappedForm.canonical_eq (hmapped : net.ReadsMapped) {text other : String}
    (h : MappedForm net text other) : canonical net other = canonical net text := by
  rcases h with rfl | ⟨⟨bits, hparse⟩, rfl⟩
  · rfl
  · rw [canonical_of_parse hparse rfl,
      canonical_of_parse (hmapped text bits hparse) (zone_mapped _), unmap_mapped]
    rfl

theorem Remapped.canonical_eq (hmapped : net.ReadsMapped) {op op' : SensorOp}
    (h : Remapped net op op') :
    op'.mapSource (canonical net) = op.mapSource (canonical net) := by
  cases h with
  | alert info meta' now hform =>
    simp only [SensorOp.mapSource, SessionInfo.mapSource, hform.canonical_eq hmapped]
  | sessionEnd info now hform =>
    simp only [SensorOp.mapSource, SessionInfo.mapSource, hform.canonical_eq hmapped]
  | shunned now hform => simp only [SensorOp.mapSource, hform.canonical_eq hmapped]
  | shunRejected protocol hform => simp only [SensorOp.mapSource, hform.canonical_eq hmapped]
  | ignored hform => simp only [SensorOp.mapSource, hform.canonical_eq hmapped]
  | same op => rfl

/-- An answer without the text of its source. -/
def Answer.anonymous (a : Answer) : Answer := a.mapSource fun _ ↦ ""

theorem anonymous_mapSource (a : Answer) : (a.mapSource f).anonymous = a.anonymous := by
  cases a <;> rfl

/-- Writing any IPv4 sources of a run in their `::ffff:` form changes no count and no alert, slot or
batch in the log of the sink, no shun summary, no probe summary and, but for the text itself, no
answer of the sensor. -/
theorem mapped_sources_indistinguishable (net : Netip) (hround : net.RoundTrip)
    (hmapped : net.ReadsMapped) (cfg : SensorConfig) (sinkCfg : CrowdSecConfig)
    (ops ops' : List SensorOp) (hops : List.Forall₂ (Remapped net) ops ops') :
    let s := sensorAfter net cfg sinkCfg ops
    let s' := sensorAfter net cfg sinkCfg ops'
    s'.pipeline.log = s.pipeline.log ∧ s'.pipeline.sink = s.pipeline.sink ∧
      s'.pipeline.sink.shunLog = s.pipeline.sink.shunLog ∧ s'.probes.summaries = s.probes.summaries ∧
      s'.scan = s.scan ∧ s'.answers.map Answer.anonymous = s.answers.map Answer.anonymous := by
  intro s s'
  have hrespects := canonical_respects hround
  have hcanonical : ops'.map (SensorOp.mapSource (canonical net)) =
      ops.map (SensorOp.mapSource (canonical net)) := by
    induction hops with
    | nil => rfl
    | cons hop _ ih => rw [map_cons, map_cons, hop.canonical_eq hmapped, ih]
  have hstates : s'.mapSource (canonical net) = s.mapSource (canonical net) := by
    rw [← mapSource_sensorAfter hrespects, ← mapSource_sensorAfter hrespects, hcanonical]
  have hanswers := congrArg (fun t ↦ t.answers.map Answer.anonymous) hstates
  simp only [Sensor.mapSource, map_map, Function.comp_def, anonymous_mapSource] at hanswers
  have hread {α : Type} (read : Sensor → α) :
      read (s'.mapSource _) = read (s.mapSource _) :=
    congrArg read hstates
  exact ⟨hread (·.pipeline.log), hread (·.pipeline.sink), hread (·.pipeline.sink.shunLog),
    hread (·.probes.summaries), hread (·.scan), hanswers⟩

/-- Two attacks from 8.8.8.8, and the same with the second one in mapped form. -/
def twoLogins (second : String) : List SensorOp :=
  let login (source : String) : SessionInfo :=
    { sourceIP := source, protocol := "ssh", transport := .tcp, destPort := 22, authAttempts := 1,
      commands := 0, payloadBytes := 0, alertedClass := none }
  [.alert (login (Netip.binary.string (.v4 0x08080808#32))) ∅ 0] ++
    List.replicate 6 (.sink (.thread 0 1)) ++
    [.alert (login second) ∅ 2] ++ List.replicate 6 (.sink (.thread 1 3))

/-- A sensor that ignores nobody in front of a sink with a cooldown. -/
def openSensor : SensorConfig where
  maxTracked := 10
  summaryWindow := 60
  ignoreIPs := []

def attackSink : CrowdSecConfig where
  banOn := [.attack]
  cooldown := 60
  shun := true
  repeatAfter := 2
  repeatCooldown := 600
  offenderReset := 1000
  batchInterval := 0
  batchSize := 1
  maxTracked := 10

theorem twoLogins_remapped {first second : String} (hform : MappedForm net first second) :
    List.Forall₂ (Remapped net) (twoLogins first) (twoLogins second) := by
  have hsame (ops : List SensorOp) : List.Forall₂ (Remapped net) ops ops :=
    List.forall₂_same.mpr fun op _ ↦ .same op
  exact rel_append (rel_append (hsame _) (.cons (.alert _ ∅ 2 hform) .nil)) (hsame _)

/-- The second login is refused by the cooldown of the first one in either form. -/
theorem mapped_sources_indistinguishable_cooldown :
    .counted 1 .cooldown ∈ (sensorAfter .binary openSensor attackSink
      (twoLogins (Netip.binary.string (.v4 0x08080808#32)))).pipeline.log ∧
    .counted 1 .cooldown ∈ (sensorAfter .binary openSensor attackSink
      (twoLogins ("::ffff:" ++ Netip.binary.string (.v4 0x08080808#32)))).pipeline.log := by
  have hform : MappedForm .binary (Netip.binary.string _)
      ("::ffff:" ++ Netip.binary.string (.v4 0x08080808#32)) :=
    .inr ⟨⟨0x08080808#32, by decide⟩, rfl⟩
  have hlog := (mapped_sources_indistinguishable _ Netip.binary_roundTrip
    Netip.binary_readsMapped openSensor attackSink _ _ (twoLogins_remapped hform)).1
  have hplain : .counted 1 .cooldown ∈ (sensorAfter .binary openSensor attackSink
      (twoLogins (Netip.binary.string (.v4 0x08080808#32)))).pipeline.log := by decide
  refine ⟨hplain, ?_⟩
  exact hplain

end RanHoneypot.Alert
