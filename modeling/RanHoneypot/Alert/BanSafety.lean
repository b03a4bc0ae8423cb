import RanHoneypot.Alert.OffenderKeys
import RanHoneypot.Alert.Sensor
import RanHoneypot.Alert.SubmitOutcomes

/-!
# Ban safety

Whatever the sensor is told, the sink only bans addresses that a TCP session really came from, that
are global and that are not on the ignore list. The proof follows a source text from the session
through `Submit` to the log: `Vetted` says what is known of it in every phase. The same facts show
that sources which are never reported have no influence on the others: the offender table holds no
ignored source, so deleting all their calls from a run leaves everything else as it was.
-/

namespace RanHoneypot.Alert

open TimedRun List OffenderTable Config Answer

/-! ## Canonical addresses -/

theorem matchesPrefixes_of_bannable {net : Netip} {ip : String} {addr : Addr}
    (hbannable : parseBannableIP net ip = some addr) (prefixes : List Prefix) :
    matchesPrefixes net prefixes ip = prefixes.any fun range ↦ range.contains addr := by
  rcases parseBannableIP_eq_some.mp hbannable with ⟨parsed, hparse, hzone, haddr, _⟩
  rw [matchesPrefixes_of_parse hparse, Addr.dropZone_of_zone hzone, haddr]

/-- A text with the table key of a bannable source is on the same lists as that source. -/
theorem matchesPrefixes_of_key {net : Netip} (hnet : net.RoundTrip) {ip source : String} {addr : Addr}
    (hbannable : parseBannableIP net source = some addr)
    (hkey : normalizeIP net ip = some (net.string addr)) (prefixes : List Prefix) :
    matchesPrefixes net prefixes ip = matchesPrefixes net prefixes source := by
  rw [matchesPrefixes_of_bannable hbannable]
  unfold normalizeIP at hkey
  cases hparse : net.parseAddr ip with
  | none =>
    rw [hparse] at hkey
    cases hkey
  | some parsed =>
    rw [hparse] at hkey
    by_cases hzone : parsed.zone = ""
    · have hstring : net.string parsed.unmap = net.string addr := by simpa [hzone] using hkey
      have hsame := hnet.string_inj (Addr.zone_unmap hzone) (zone_of_bannable hbannable) hstring
      rw [matchesPrefixes_of_parse hparse, Addr.dropZone_of_zone hzone, hsame]
    · simp [hzone] at hkey

/-! ## Vetted alerts -/

section

variable (net : Netip) (admitted : SessionInfo → Prop) (reported : List Class)

/-- The text is the canonical address of a bannable session that was admitted. -/
def Names (ip : String) : Prop :=
  ∃ info addr, admitted info ∧ parseBannableIP net info.sourceIP = some addr ∧ ip = net.string addr

def Phase.Vetted : Phase → Prop
  | parsing ev => admitted ev.info
  | locking _ ip => Names net admitted ip
  | allowing ev ip => Names net admitted ip ∧ ev.cls ∈ reported
  | accepting ev ip _ => Names net admitted ip ∧ ev.cls ∈ reported
  | _ => True

structure Pipeline.Vetted (p : Pipeline) : Prop where
  banOn : p.sink.banOn = reported
  threads : ∀ phase ∈ p.threads, phase.Vetted net admitted reported
  recorded : ∀ msg, .recorded msg ∈ p.log → Names net admitted msg.ip ∧ msg.cls ∈ reported
  sources : ∀ key ∈ p.sink.offenders.sources, Names net admitted key

end

variable {net : Netip} {admitted : SessionInfo → Prop} {reported : List Class}

namespace Pipeline

variable {p p' : Pipeline}

section

variable {a a' : CrowdSecAlerter} (h : SinkMove net a a')

include h

theorem SinkMove.banOn : a'.banOn = a.banOn := by
  cases h <;> rfl

theorem SinkMove.sources : a'.offenders.sources ⊆ a.offenders.sources := by
  cases h with
  | revert mark now => exact sources_revert ..
  | shunned ip now => exact fun _ hkey ↦ sources_shunned now net ip ▸ hkey
  | rejected ip protocol => exact fun _ hkey ↦ sources_rejected net ip protocol ▸ hkey
  | sweep now => exact sources_sweep _
  | flush now => exact fun _ hkey ↦ sources_flush now ▸ hkey
  | _ => exact List.Subset.refl _

end

theorem threads_close : p.close.threads = p.threads := by
  unfold close
  split <;> rfl

/-- A step that is not the step of a call records nothing. -/
theorem recorded_step {a : Action} (hthreads : (p.step net a).threads = p.threads) {msg : AlertMsg}
    (hmem : .recorded msg ∈ (p.step net a).log) : .recorded msg ∈ p.log := by
  rcases (step_books _ p a).written hmem with hold | ⟨_, before, hbefore, hearly, hset⟩
  · exact hold
  · have hset' : p.threads = p.threads.set msg.call (.sending msg) := hthreads.symm.trans hset
    have hlt : msg.call < p.threads.length := (List.getElem?_eq_some_iff.mp hbefore).1
    have hsending : p.threads[msg.call]? = some (.sending msg) := by
      rw [hset', getElem?_set_self hlt]
    have heq : before = .sending msg := Option.some.inj (hbefore.symm.trans hsending)
    rw [heq] at hearly
    cases hearly

section

variable (h : p.Vetted net admitted reported)

include h

theorem Vetted.same {a : Action} (hthread : ∀ call now, a ≠ .thread call now)
    (hthreads : (p.step net a).threads = p.threads) :
    (p.step net a).Vetted net admitted reported where
  banOn := (moved_step _ p hthread).sink.banOn.trans h.banOn
  threads := by
    rw [hthreads]
    exact h.threads
  recorded msg hmem := h.recorded msg (recorded_step hthreads hmem)
  sources key hkey := h.sources key ((moved_step _ p hthread).sink.sources hkey)

theorem Vetted.call {ev : Event} (hev : admitted ev.info) :
    (p.callSubmit ev).Vetted net admitted reported where
  banOn := h.banOn
  threads := by
    intro phase hphase
    rcases mem_append.mp hphase with hold | hnew
    · exact h.threads _ hold
    · rw [mem_singleton.mp hnew]
      exact hev
  recorded msg hmem := h.recorded msg (by simpa [callSubmit, write] using hmem)
  sources := h.sources

/-- The step of a call, by what it sets, writes and enters. -/
theorem Vetted.move {call : ℕ} (after : Phase) (hthreads : p'.threads = p.threads.set call after)
    (hafter : after.Vetted net admitted reported) (hbanOn : p'.sink.banOn = p.sink.banOn)
    (hlog : ∀ msg, .recorded msg ∈ p'.log → .recorded msg ∈ p.log ∨
      (Names net admitted msg.ip ∧ msg.cls ∈ reported))
    (hsources : ∀ key ∈ p'.sink.offenders.sources, key ∈ p.sink.offenders.sources ∨
      Names net admitted key) : p'.Vetted net admitted reported where
  banOn := hbanOn.trans h.banOn
  threads := by
    intro phase hphase
    rw [hthreads] at hphase
    rcases mem_or_eq_of_mem_set hphase with hold | hnew
    · exact h.threads _ hold
    · rw [hnew]
      exact hafter
  recorded msg hmem := (hlog msg hmem).elim (h.recorded _) id
  sources key hkey := (hsources key hkey).elim (h.sources _) id

theorem Vetted.returns (call : ℕ) (outcome : Stage) :
    (p.returns call outcome).Vetted net admitted reported := by
  refine h.move _ rfl trivial rfl ?_ fun key hkey ↦ .inl hkey
  intro msg hmem
  exact .inl (by simpa [Pipeline.returns, write, setPhase] using hmem)

theorem Vetted.setPhase (call : ℕ) {after : Phase} (hafter : after.Vetted net admitted reported) :
    (p.setPhase call after).Vetted net admitted reported :=
  h.move after rfl hafter rfl (fun _ hmem ↦ .inl hmem) fun _ hkey ↦ .inl hkey

end

section

variable (hnet : net.RoundTrip) (h : p.Vetted net admitted reported)

include hnet h

theorem Vetted.accepting {call : ℕ} {ev : Event} {ip : String} (hnames : Names net admitted ip)
    (hcls : ev.cls ∈ reported) (allowance : Allowance) (now : ℕ) :
    (p.submitStep net call now (.accepting ev ip allowance)).Vetted net admitted reported := by
  refine h.move _ rfl trivial rfl ?_ ?_
  · intro msg hmem
    rcases mem_append.mp hmem with hold | hnew
    · exact .inl hold
    · have heq := LogEntry.recorded.inj (mem_singleton.mp hnew)
      rw [heq]
      exact .inr ⟨hnames, hcls⟩
  · intro key hkey
    rcases sources_accepted now net hkey with hold | hown
    · exact .inl hold
    · rcases hnames with ⟨info, addr, hinfo, hbannable, hip⟩
      rw [hip, normalizeIP_string hnet hbannable] at hown
      exact .inr ⟨info, addr, hinfo, hbannable, (Option.some.inj hown).symm⟩

theorem Vetted.submitStep {call : ℕ} {phase : Phase} (hphase : p.threads[call]? = some phase)
    (now : ℕ) : (p.submitStep net call now phase).Vetted net admitted reported := by
  have hvetted := h.threads phase (mem_of_getElem? hphase)
  cases phase with
  | parsing ev =>
    simp only [Pipeline.submitStep]
    split
    · exact h.returns ..
    · next addr hparse => exact h.setPhase _ ⟨ev.info, addr, hvetted, hparse, rfl⟩
  | locking ev ip =>
    simp only [Pipeline.submitStep]
    split
    · exact h.returns ..
    · split
      · exact h.returns ..
      · next hpasses =>
        refine h.setPhase _ ⟨hvetted, ?_⟩
        rw [← h.banOn]
        exact not_not.mp hpasses
  | allowing ev ip =>
    have htaken : ({ p with sink := (p.sink.allow net ip ev.cls now).2 } : Pipeline).Vetted net admitted
        reported := ⟨h.banOn, h.threads, h.recorded, h.sources⟩
    simp only [Pipeline.submitStep]
    split
    · exact htaken.returns ..
    · exact htaken.setPhase _ hvetted
  | accepting ev ip allowance => exact h.accepting hnet hvetted.1 hvetted.2 ..
  | sending msg =>
    simp only [Pipeline.submitStep]
    split
    · have hqueued : ({ p with sink := { p.sink with ch := p.sink.ch ++ [msg] } } : Pipeline).Vetted net
          admitted reported := ⟨h.banOn, h.threads, h.recorded, h.sources⟩
      exact hqueued.setPhase _ trivial
    · exact h.setPhase _ trivial
  | counting => exact h.returns ..
  | releasing msg =>
    refine h.move _ rfl trivial rfl ?_ fun _ hkey ↦ .inl hkey
    intro msg' hmem
    exact .inl (by simpa [Pipeline.submitStep, write, Pipeline.setPhase] using hmem)
  | reverting msg =>
    refine h.move _ rfl trivial rfl ?_ ?_
    · intro msg' hmem
      exact .inl (by simpa [Pipeline.submitStep, Pipeline.returns, write, Pipeline.setPhase] using hmem)
    · intro key hkey
      exact .inl (sources_revert _ _ hkey)
  | returned outcome => exact h

theorem Vetted.step {a : Action} (hcall : ∀ ev, a = .call ev → admitted ev.info) :
    (p.step net a).Vetted net admitted reported := by
  cases a with
  | call ev => exact h.call (hcall ev rfl)
  | thread call now =>
    simp only [Pipeline.step]
    split
    · exact h
    · next phase hphase => exact h.submitStep hnet hphase _
  | close => exact h.same (fun _ _ ↦ Action.noConfusion) threads_close
  | _ => exact h.same (fun _ _ ↦ Action.noConfusion) (threads_step p _ rfl)

end

end Pipeline

/-! ## The sensor -/

/-- The session that a call is about. -/
def SensorOp.session? : SensorOp → Option SessionInfo
  | alert info _ _ => some info
  | sessionEnd info _ => some info
  | _ => none

namespace Sensor

variable {s : Sensor}

/-- The session may be reported. -/
def Reportable (net : Netip) (s : Sensor) (info : SessionInfo) : Prop :=
  info.transport = .tcp ∧ s.isIgnored net info.sourceIP = false

/-- What a step of the sensor does to the ignore list, the sink and the calls that have to be ended. -/
structure Effect (net : Netip) (s : Sensor) (op : SensorOp) (s' : Sensor) : Prop where
  ignore : s'.ignore = s.ignore := by rfl
  pipeline : s'.pipeline = s.pipeline ∨ ∃ a, s'.pipeline = s.pipeline.step net a ∧
    ∀ ev, a = .call ev → op.session? = some ev.info ∧ s.Reportable net ev.info := by exact .inl rfl
  endings : ∀ e ∈ s'.endings, (∃ e' ∈ s.endings, e'.info = e.info) ∨ s.Reportable net e.info := by
    exact fun e he ↦ .inl ⟨e, he, rfl⟩

theorem effect_alert (net : Netip) (s : Sensor) (info : SessionInfo) (meta' : Meta) (now : ℕ) :
    Effect net s (.alert info meta' now) (s.alert net info meta' now) := by
  have hframe := touchScan_frame net s info now
  simp only [alert]
  split
  · exact {}
  · next htcp =>
    split
    · exact {}
    · next hlisted =>
      refine ⟨hframe.1, .inr ⟨.call ⟨(s.classify net info now).1, info, meta'⟩, ?_, ?_⟩,
        fun e he ↦ .inl ⟨e, hframe.2.2 ▸ he, rfl⟩⟩
      · exact congrArg (Pipeline.callSubmit · _) hframe.2.1
      · intro ev heq
        cases heq
        exact ⟨rfl, not_not.mp htcp, Bool.eq_false_iff.mpr hlisted⟩

theorem effect_sessionEnd (net : Netip) (s : Sensor) (info : SessionInfo) (now : ℕ) :
    Effect net s (.sessionEnd info now) (s.sessionEnd net info now) := by
  have hframe := touchScan_frame net s info now
  simp only [sessionEnd]
  split
  · exact {}
  · next hreported =>
    have hreportable : s.Reportable net info :=
      ⟨not_not.mp (not_or.mp hreported).1, Bool.eq_false_iff.mpr (not_or.mp hreported).2⟩
    have hendings (thread : Option ℕ) : ∀ e ∈ (s.touchScan net info now).2.endings ++
        [{ info := info, thread := thread }],
        (∃ e' ∈ s.endings, e'.info = e.info) ∨ s.Reportable net e.info := by
      intro e he
      rcases mem_append.mp he with hold | hlast
      · exact .inl ⟨e, hframe.2.2 ▸ hold, rfl⟩
      · rw [mem_singleton.mp hlast]
        exact .inr hreportable
    split
    · refine ⟨hframe.1, .inr ⟨.call ⟨(s.classify net info now).1, info, ∅⟩, ?_, ?_⟩, hendings _⟩
      · exact congrArg (Pipeline.callSubmit · _) hframe.2.1
      · intro ev heq
        cases heq
        exact ⟨rfl, hreportable⟩
    · exact ⟨hframe.1, .inl hframe.2.1, hendings none⟩

theorem effect_recordEnding (net : Netip) (s : Sensor) (info : SessionInfo) (now : ℕ) (op : SensorOp) :
    Effect net s op (s.recordEnding net info now) := by
  unfold recordEnding
  split <;> exact {}

theorem effect_step (net : Netip) (s : Sensor) (op : SensorOp) :
    Effect net s op (s.step net op) := by
  cases op with
  | alert info meta' now => exact effect_alert ..
  | sessionEnd info now => exact effect_sessionEnd ..
  | record ending now =>
    simp only [step, record]
    split
    · exact {}
    · next e he =>
      split
      · exact {}
      · have hrest := effect_recordEnding net
          { s with endings := s.endings.set ending { e with done := true } } e.info now
          (.record ending now)
        refine ⟨hrest.ignore, hrest.pipeline, fun e' he' ↦ ?_⟩
        rcases hrest.endings e' he' with ⟨old, hold, hinfo⟩ | hreportable
        · rcases mem_or_eq_of_mem_set hold with hmem | hnew
          · exact .inl ⟨old, hmem, hinfo⟩
          · exact .inl ⟨e, mem_of_getElem? he, by rw [← hinfo, hnew]⟩
        · exact .inr hreportable
  | shunned ip now =>
    simp only [step, shunned]
    split
    · exact {}
    · exact { pipeline := .inr ⟨.shunned ip now, rfl, by simp⟩ }
  | shunRejected ip protocol => exact { pipeline := .inr ⟨.rejected ip protocol, rfl, by simp⟩ }
  | flushDue now =>
    simp only [step]
    split <;> exact {}
  | sink a =>
    simp only [step]
    split
    · next hinternal =>
      refine { pipeline := .inr ⟨a, rfl, fun ev heq ↦ ?_⟩ }
      rw [heq] at hinternal
      cases hinternal
    · exact {}
  | _ => exact {}

/-- What the ignore list `ignore` guarantees at every moment of a run. -/
structure Safe (net : Netip) (admitted : SessionInfo → Prop) (reported : List Class)
    (ignore : List Prefix) (s : Sensor) : Prop where
  listed : s.ignore = ignore
  sound : s.pipeline.Sound
  vetted : s.pipeline.Vetted net admitted reported
  endings : ∀ e ∈ s.endings, e.info.transport = .tcp ∧
    matchesPrefixes net ignore e.info.sourceIP = false

variable {ignore : List Prefix}

theorem Safe.step (hnet : net.RoundTrip) (h : s.Safe net admitted reported ignore) (op : SensorOp)
    (hadmits : ∀ info, op.session? = some info → info.transport = .tcp →
      matchesPrefixes net ignore info.sourceIP = false → admitted info) :
    (s.step net op).Safe net admitted reported ignore where
  listed := (effect_step _ s op).ignore.trans h.listed
  sound := by
    rcases (effect_step net s op).pipeline with hsame | ⟨a, hstep, _⟩
    · rw [hsame]
      exact h.sound
    · rw [hstep]
      exact h.sound.step _ a
  vetted := by
    rcases (effect_step net s op).pipeline with hsame | ⟨a, hstep, hcall⟩
    · rw [hsame]
      exact h.vetted
    · rw [hstep]
      refine h.vetted.step hnet fun ev heq ↦ ?_
      rcases hcall ev heq with ⟨hsession, htcp, hlisted⟩
      exact hadmits ev.info hsession htcp (h.listed ▸ hlisted)
  endings := by
    intro e hmem
    rcases (effect_step net s op).endings e hmem with ⟨e', he', hinfo⟩ | ⟨htcp, hlisted⟩
    · rw [← hinfo]
      exact h.endings e' he'
    · exact ⟨htcp, h.listed ▸ hlisted⟩

theorem newSensor_safe (net : Netip) (admitted : SessionInfo → Prop) (cfg : SensorConfig)
    (sinkCfg : CrowdSecConfig) :
    (newSensor cfg sinkCfg).Safe net admitted (newCrowdSec sinkCfg).banOn cfg.ignoreIPs where
  listed := rfl
  sound := pipelineAfter_sound net sinkCfg []
  vetted :=
    ⟨rfl, (fun _ h ↦ nomatch h), (fun _ h ↦ nomatch h), fun _ h ↦ nomatch h⟩
  endings := nofun

/-- The session was part of the run, over TCP and from a source that is not on the ignore list. -/
def Admitted (net : Netip) (ignore : List Prefix) (ops : List SensorOp) (info : SessionInfo) : Prop :=
  (∃ op ∈ ops, op.session? = some info) ∧ info.transport = .tcp ∧
    matchesPrefixes net ignore info.sourceIP = false

theorem sensorAfter_safe (hnet : net.RoundTrip) (cfg : SensorConfig) (sinkCfg : CrowdSecConfig)
    (ops : List SensorOp) :
    (sensorAfter net cfg sinkCfg ops).Safe net (Admitted net cfg.ignoreIPs ops)
      (newCrowdSec sinkCfg).banOn cfg.ignoreIPs := by
  refine run_invariant_mem _ (fun s op hop h ↦ ?_) (newSensor_safe ..)
  exact h.step hnet op fun info hsession htcp hlisted ↦ ⟨⟨op, hop, hsession⟩, htcp, hlisted⟩

end Sensor

/-! ## Sources that are never reported -/

/-- What a call or an answer is about: a session, or only a source text. -/
abbrev Subject := SessionInfo ⊕ String

def SensorOp.subject? : SensorOp → Option Subject
  | alert info _ _ => some (.inl info)
  | sessionEnd info _ => some (.inl info)
  | shunned ip _ => some (.inr ip)
  | shunRejected ip _ => some (.inr ip)
  | ignored ip => some (.inr ip)
  | _ => none

def Answer.subject : Answer → Subject
  | verdict info _ => .inl info
  | alert info _ => .inl info
  | sessionEnd info _ => .inl info
  | shunned ip _ => .inr ip
  | ignored ip _ => .inr ip

/-- The source is on the ignore list, or the session is a UDP one. -/
def Subject.outside (net : Netip) (ignore : List Prefix) : Subject → Bool
  | .inl info => info.transport = .udp || matchesPrefixes net ignore info.sourceIP
  | .inr ip => matchesPrefixes net ignore ip

def SensorOp.outside (net : Netip) (ignore : List Prefix) (op : SensorOp) : Bool :=
  op.subject?.any (Subject.outside net ignore)

def Answer.outside (net : Netip) (ignore : List Prefix) (a : Answer) : Bool :=
  Subject.outside net ignore a.subject

namespace Sensor

variable {s : Sensor} {ignore : List Prefix}

def withAnswers (s : Sensor) (answers : List Answer) : Sensor := { s with answers := answers }

/-- The step adds the answers `new` and does not look at earlier ones. -/
def Adds (net : Netip) (s : Sensor) (op : SensorOp) (new : List Answer) : Prop :=
  ∀ l, (s.withAnswers l).step net op = (s.step net op).withAnswers (l ++ new)

/-- What a step adds to the answers is about its own call, or the end of an earlier one. -/
def Answering (net : Netip) (s : Sensor) (op : SensorOp) : Prop :=
  ∃ new, Adds net s op new ∧ ∀ a ∈ new, op.subject? = some a.subject ∨
    (op.subject? = none ∧ ∃ e ∈ s.endings, a.subject = .inl e.info)

theorem adds_own {op : SensorOp} (new : List Answer) (hadds : Adds net s op new)
    (hnew : ∀ a ∈ new, op.subject? = some a.subject) : Answering net s op :=
  ⟨new, hadds, fun a hmem ↦ .inl (hnew a hmem)⟩

theorem adds_nothing {op : SensorOp}
    (h : ∀ l, (s.withAnswers l).step net op = (s.step net op).withAnswers l) :
    Answering net s op := by
  refine adds_own [] (fun l ↦ ?_) (forall_mem_nil _)
  rw [append_nil]
  exact h l

theorem touchScan_withAnswers (net : Netip) (s : Sensor) (l : List Answer) (info : SessionInfo) (now : ℕ) :
    (s.withAnswers l).touchScan net info now =
      ((s.touchScan net info now).1, (s.touchScan net info now).2.withAnswers l) := by
  by_cases hskip : info.transport ≠ .tcp ∨ s.isIgnored net info.sourceIP = true
  · have hidle : s.touchScan net info now = (false, s) := if_pos hskip
    rw [hidle]
    exact if_pos hskip
  · unfold touchScan
    rw [if_neg hskip, if_neg (by exact hskip)]
    cases parseBannableIP net info.sourceIP with
    | none | some => rfl

theorem recordEnding_withAnswers (net : Netip) (s : Sensor) (info : SessionInfo) (now : ℕ) :
    ∃ ok, ∀ l, (s.withAnswers l).recordEnding net info now =
      (s.recordEnding net info now).withAnswers (l ++ [.sessionEnd info ok]) := by
  by_cases hprobe : Alert.classify info = .probe ∧ 0 < s.probes.window
  · refine ⟨(s.probes.record net info.sourceIP info.protocol now).1, fun l ↦ ?_⟩
    unfold recordEnding
    rw [if_pos hprobe, if_pos (by exact hprobe)]
    rfl
  · refine ⟨false, fun l ↦ ?_⟩
    unfold recordEnding
    rw [if_neg hprobe, if_neg (by exact hprobe)]
    rfl

theorem classify_withAnswers (net : Netip) (s : Sensor) (l : List Answer) (info : SessionInfo) (now : ℕ) :
    (s.withAnswers l).classify net info now =
      ((s.classify net info now).1,
        (s.classify net info now).2.withAnswers (l ++ [.verdict info (s.touchScan net info now).1])) := by
  unfold classify
  rw [touchScan_withAnswers]
  rfl

theorem adds_alert (net : Netip) (s : Sensor) (info : SessionInfo) (meta' : Meta) (now : ℕ) :
    Answering net s (.alert info meta' now) := by
  by_cases htcp : info.transport ≠ .tcp
  · refine adds_own [.alert info none] (fun l ↦ ?_) (by simp [subject, SensorOp.subject?])
    simp only [step, alert, if_pos htcp]
    rfl
  · by_cases hlisted : s.isIgnored net info.sourceIP = true
    · refine adds_own [.alert info none] (fun l ↦ ?_) (by simp [subject, SensorOp.subject?])
      simp only [step, alert, if_neg htcp, if_pos hlisted]
      exact if_pos hlisted
    · refine adds_own ([.verdict info (s.touchScan net info now).1] ++
        [.alert info (some (s.classify net info now).1)]) (fun l ↦ ?_)
        (by simp [subject, SensorOp.subject?])
      simp only [step, alert, if_neg htcp, if_neg hlisted]
      refine (if_neg hlisted).trans ?_
      rw [classify_withAnswers, ← append_assoc]
      rfl

theorem adds_sessionEnd (net : Netip) (s : Sensor) (info : SessionInfo) (now : ℕ) :
    Answering net s (.sessionEnd info now) := by
  by_cases hskip : info.transport ≠ .tcp ∨ s.isIgnored net info.sourceIP = true
  · refine adds_own [.sessionEnd info false] (fun l ↦ ?_) (by simp [subject, SensorOp.subject?])
    simp only [step, sessionEnd, if_pos hskip]
    exact if_pos hskip
  · refine adds_own [.verdict info (s.touchScan net info now).1] (fun l ↦ ?_)
      (by simp [subject, SensorOp.subject?])
    simp only [step, sessionEnd]
    refine (if_neg hskip).trans ?_
    rw [classify_withAnswers]
    split <;> rfl

theorem adds_record (net : Netip) (s : Sensor) (ending now : ℕ) :
    Answering net s (.record ending now) := by
  cases he : s.endings[ending]? with
  | none =>
    apply adds_nothing
    intro l
    simp only [step, record, withAnswers, he]
  | some e =>
    by_cases hwaits : (e.done || !e.submitted s.pipeline) = true
    · apply adds_nothing
      intro l
      simp only [step, record, withAnswers, he, if_pos hwaits]
      exact if_pos hwaits
    · let marked : Sensor := { s with endings := s.endings.set ending { e with done := true } }
      rcases recordEnding_withAnswers net marked e.info now with ⟨ok, hanswers⟩
      refine ⟨[.sessionEnd e.info ok], fun l ↦ ?_, ?_⟩
      · have hrecord (q : Sensor) (hq : q.endings = s.endings) (hp : q.pipeline = s.pipeline) :
            q.record net ending now =
              { q with endings := s.endings.set ending { e with done := true } }.recordEnding net e.info
                now := by
          simp only [record, hq, hp, he, if_neg hwaits]
        simp only [step]
        rw [hrecord s rfl rfl, hrecord (s.withAnswers l) rfl rfl]
        exact hanswers l
      · rw [forall_mem_singleton]
        exact .inr ⟨rfl, e, mem_of_getElem? he, rfl⟩

theorem adds_shunned (net : Netip) (s : Sensor) (ip : String) (now : ℕ) :
    Answering net s (.shunned ip now) := by
  by_cases hskip : (!s.pipeline.sink.shunEnabled || s.isIgnored net ip) = true
  · refine adds_own [.shunned ip false] (fun l ↦ ?_) (by simp [subject, SensorOp.subject?])
    simp only [step, shunned, if_pos hskip]
    exact if_pos hskip
  · refine adds_own [.shunned ip (s.pipeline.sink.shunned net ip now).1] (fun l ↦ ?_)
      (by simp [subject, SensorOp.subject?])
    simp only [step, shunned, if_neg hskip]
    exact if_neg hskip

theorem adds_step (net : Netip) (s : Sensor) (op : SensorOp) : Answering net s op := by
  cases op with
  | alert => exact adds_alert ..
  | sessionEnd => exact adds_sessionEnd ..
  | record => exact adds_record ..
  | shunned => exact adds_shunned ..
  | ignored ip =>
    exact adds_own [.ignored ip (s.isIgnored _ ip)] (fun l ↦ rfl) (forall_mem_singleton.mpr rfl)
  | flushDue now =>
    apply adds_nothing
    intro l
    by_cases hwindow : 0 < s.probes.window
    · simp only [step, if_pos hwindow]
      exact if_pos hwindow
    · simp only [step, if_neg hwindow]
      exact if_neg hwindow
  | sink a =>
    apply adds_nothing
    intro l
    simp only [step]
    split <;> rfl
  | _ => exact adds_nothing fun l ↦ rfl

section

variable {ops : List SensorOp} (hnet : net.RoundTrip)
  (h : s.Safe net (Admitted net ignore ops) reported ignore)

include hnet h

theorem Safe.shunRejected_listed {ip : String} (hlisted : matchesPrefixes net ignore ip = true)
    (protocol : String) : s.shunRejected net ip protocol = s := by
  have hsame : s.pipeline.sink.offenders.rejected net ip protocol = s.pipeline.sink.offenders := by
    unfold rejected
    cases hkey : normalizeIP net ip with
    | none => rfl
    | some key =>
      have hfree : key ∉ s.pipeline.sink.offenders.sources := by
        intro hmem
        rcases h.vetted.sources key hmem with ⟨info, addr, hadmitted, hbannable, rfl⟩
        have hunlisted := hadmitted.2.2
        rw [← matchesPrefixes_of_key hnet hbannable hkey, hlisted] at hunlisted
        cases hunlisted
      simp only [node?_eq_none hfree]
  have hsink : s.pipeline.sink.shunRejected net ip protocol = s.pipeline.sink := by
    unfold CrowdSecAlerter.shunRejected
    rw [hsame]
  simp only [shunRejected, Pipeline.step, hsink]

/-- A call of a source that is never reported leaves nothing but an answer. -/
theorem Safe.step_outside {op : SensorOp} (hout : op.outside net ignore = true) (l : List Answer) :
    (s.step net op).withAnswers l = s.withAnswers l := by
  have hsession (info : SessionInfo) (hinfo : Subject.outside net ignore (.inl info) = true) :
      info.transport ≠ .tcp ∨ s.isIgnored net info.sourceIP = true := by
    simp only [Subject.outside, Bool.or_eq_true, decide_eq_true_eq] at hinfo
    rcases hinfo with hudp | hlisted
    · exact .inl (by simp [hudp])
    · refine .inr ?_
      rw [isIgnored, h.listed]
      exact hlisted
  cases op with
  | alert info meta' now =>
    simp only [Sensor.step, alert]
    split
    · rfl
    · next htcp =>
      rw [if_pos ((hsession info hout).resolve_left htcp)]
      rfl
  | sessionEnd info now =>
    simp only [Sensor.step, sessionEnd]
    rw [if_pos (hsession info hout)]
    rfl
  | shunned ip now =>
    have hlisted : s.isIgnored net ip = true := by
      rw [isIgnored, h.listed]
      exact hout
    simp only [Sensor.step, shunned, hlisted, Bool.or_true]
    rfl
  | shunRejected ip protocol =>
    exact congrArg (withAnswers · l) (h.shunRejected_listed hnet hout _)
  | ignored ip => rfl
  | _ => cases hout

/-- The states of a run and of the run without the calls of unreported sources. -/
theorem Safe.step_filtered (op : SensorOp) :
    let keep := fun a : Answer ↦ !a.outside net ignore
    (if !op.outside net ignore then (s.withAnswers (s.answers.filter keep)).step net op
      else s.withAnswers (s.answers.filter keep)) =
      (s.step net op).withAnswers ((s.step net op).answers.filter keep) := by
  intro keep
  rcases adds_step net s op with ⟨new, hadds, hnew⟩
  have hanswers : (s.step _ op).answers = s.answers ++ new :=
    congrArg Sensor.answers (hadds s.answers)
  have hkept : ∀ a ∈ new, keep a = !op.outside net ignore := by
    intro a hmem
    rcases hnew a hmem with hown | ⟨hnone, e, he, hsubject⟩
    · simp [keep, outside, SensorOp.outside, hown]
    · have hinside : Subject.outside net ignore (.inl e.info) = false := by
        rcases h.endings e he with ⟨htcp, hlisted⟩
        simp [Subject.outside, htcp, hlisted]
      simp [keep, outside, SensorOp.outside, hnone, hsubject, hinside]
  rw [hanswers, filter_append]
  cases hout : op.outside net ignore with
  | true =>
    have hdropped : new.filter keep = [] :=
      filter_eq_nil_iff.mpr fun a hmem ↦ by simp [hkept a hmem, hout]
    rw [hdropped, append_nil]
    exact (h.step_outside hnet hout _).symm
  | false =>
    have hall : new.filter keep = new :=
      filter_eq_self.mpr fun a hmem ↦ by simp [hkept a hmem, hout]
    rw [hall]
    exact hadds _

end

end Sensor

/-- The run without the calls of ignored and UDP sources ends in the same state, with the answers of
the other calls. -/
theorem sensorAfter_filter (hnet : net.RoundTrip) (cfg : SensorConfig) (sinkCfg : CrowdSecConfig)
    (ops : List SensorOp) :
    sensorAfter net cfg sinkCfg (ops.filter fun op ↦ !op.outside net cfg.ignoreIPs) =
      (sensorAfter net cfg sinkCfg ops).withAnswers
        ((sensorAfter net cfg sinkCfg ops).answers.filter fun a ↦ !a.outside net cfg.ignoreIPs) := by
  let Safe := Sensor.Safe net (Sensor.Admitted net cfg.ignoreIPs ops) (newCrowdSec sinkCfg).banOn
    cfg.ignoreIPs
  let rel (s t : Sensor) : Prop := Safe s ∧
    t = s.withAnswers (s.answers.filter fun a ↦ !a.outside net cfg.ignoreIPs)
  have hrel : rel (sensorAfter net cfg sinkCfg ops)
      (run (fun s op ↦ if !op.outside net cfg.ignoreIPs then s.step net op else s)
        (newSensor cfg sinkCfg) ops) := by
    refine run_relation_mem _ (fun s t op hop h ↦ ?_)
      ⟨Sensor.newSensor_safe _ _ _ _, rfl⟩
    rcases h with ⟨hsafe, rfl⟩
    refine ⟨hsafe.step hnet op fun info hsession htcp hlisted ↦ ⟨⟨op, hop, hsession⟩, htcp, hlisted⟩, ?_⟩
    exact hsafe.step_filtered hnet op
  rw [sensorAfter, run_filter]
  exact hrel.2

/-- Every alert in a POST body names the canonical address of a TCP session of the run, outside the
non-global prefixes and the ignore list, with a class that is reported. The calls of ignored and UDP
sources have no influence on the scan tracker, the probe log, the sink and what the others are
told. -/
theorem ban_safety (net : Netip) (hnet : net.RoundTrip) (cfg : SensorConfig) (sinkCfg : CrowdSecConfig)
    (ops : List SensorOp) :
    (∀ batch, .posted batch ∈ (sensorAfter net cfg sinkCfg ops).pipeline.log → ∀ msg ∈ batch,
      ∃ op ∈ ops, ∃ info addr, op.session? = some info ∧ info.transport = .tcp ∧
        net.parseAddr info.sourceIP = some addr ∧ msg.ip = net.string addr.unmap ∧
        (∀ range ∈ nonGlobalPrefixes, range.contains addr.unmap = false) ∧
        (∀ range ∈ cfg.ignoreIPs, range.contains addr.unmap = false) ∧
        msg.cls ∈ (newCrowdSec sinkCfg).banOn) ∧
    (let whole := sensorAfter net cfg sinkCfg ops
    let others := sensorAfter net cfg sinkCfg (ops.filter fun op ↦ !op.outside net cfg.ignoreIPs)
    others.pipeline = whole.pipeline ∧ others.scan = whole.scan ∧ others.probes = whole.probes ∧
      others.answers = whole.answers.filter fun a ↦ !a.outside net cfg.ignoreIPs) := by
  refine ⟨?_, ?_⟩
  · intro batch hbatch msg hmsg
    have hsafe := Sensor.sensorAfter_safe hnet cfg sinkCfg ops
    have hrecorded := hsafe.sound.provenance.posted batch hbatch msg hmsg
    rcases hsafe.vetted.recorded msg.plain hrecorded with
      ⟨⟨info, addr, ⟨⟨op, hop, hsession⟩, htcp, hlisted⟩, hbannable, hip⟩, hcls⟩
    rw [matchesPrefixes_of_bannable hbannable] at hlisted
    rcases parseBannableIP_eq_some.mp hbannable with ⟨parsed, hparse, _, rfl, hglobal⟩
    refine ⟨op, hop, info, parsed, hsession, htcp, hparse, hip, hglobal, ?_, hcls⟩
    intro range hrange
    exact Bool.eq_false_iff.mpr fun hin ↦ any_eq_false.mp hlisted range hrange hin
  · rw [sensorAfter_filter hnet]
    exact ⟨rfl, rfl, rfl, rfl⟩

/-- A sensor that ignores 9.9.9.9. -/
def nineIgnored : SensorConfig where
  maxTracked := 10
  summaryWindow := 60
  ignoreIPs := [.ofOctets 9 9 9 9 32]

def singleAlerts : CrowdSecConfig where
  banOn := [.attack]
  cooldown := 60
  shun := true
  repeatAfter := 2
  repeatCooldown := 600
  offenderReset := 1000
  batchInterval := 0
  batchSize := 1
  maxTracked := 10

/-- An ignored source, a UDP session and an attack over TCP, which is posted. -/
def mixedSources : List SensorOp :=
  let login (bits : BitVec 32) (transport : Transport) : SessionInfo :=
    { sourceIP := Netip.binary.string (.v4 bits), protocol := "ssh", transport := transport,
      destPort := 22, authAttempts := 1, commands := 0, payloadBytes := 0, alertedClass := none }
  [.alert (login 0x09090909#32 .tcp) ∅ 0, .alert (login 0x08080404#32 .udp) ∅ 1,
    .alert (login 0x08080808#32 .tcp) ∅ 2] ++ List.replicate 6 (.sink (.thread 0 3)) ++
    [.shunRejected (Netip.binary.string (.v4 0x09090909#32)) "ssh", .sink (.receive (some 100)),
      .sink (.reply (some 201))]

theorem ban_safety_mixed :
    (∃ msg, .posted [msg] ∈ (sensorAfter .binary nineIgnored singleAlerts mixedSources).pipeline.log ∧
      msg.cls ∈ (newCrowdSec singleAlerts).banOn) ∧
    (sensorAfter .binary nineIgnored singleAlerts
      (mixedSources.filter fun op ↦ !op.outside .binary nineIgnored.ignoreIPs)).pipeline =
      (sensorAfter .binary nineIgnored singleAlerts mixedSources).pipeline := by
  have hsafety := ban_safety .binary Netip.binary_roundTrip nineIgnored singleAlerts mixedSources
  have hposted : ∃ entry ∈ (sensorAfter .binary nineIgnored singleAlerts mixedSources).pipeline.log,
      ∃ msg, entry = .posted [msg] := by
    refine ⟨(sensorAfter ..).pipeline.log.get ⟨3, by decide⟩,
      get_mem _ _, ?_⟩
    exact ⟨_, rfl⟩
  rcases hposted with ⟨entry, hentry, msg, rfl⟩
  rcases hsafety.1 [msg] hentry msg (by simp) with ⟨op, _, info, addr, _, _, _, _, _, _, hcls⟩
  exact ⟨⟨msg, hentry, hcls⟩, hsafety.2.1⟩

end RanHoneypot.Alert
