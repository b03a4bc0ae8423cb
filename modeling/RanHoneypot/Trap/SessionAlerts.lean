import RanHoneypot.Trap.Session

/-!
# The alerts of a scanner that attacks

The sensor reports a scanner as `scan`. When the sink does not report scans it falls back to what the
session did itself, so that the attacks of a scanner are still reported. But the session remembers
the class that the sensor found, not the one that was reported: an `Alert` before the session has done
anything is filtered out as a probe and still marks the session as reported, as `scan`. After that
only a plain `Alert` call can report the attack. This module shows that this is the only way in which
an attack gets lost.

A run is split at its first activity. `QuietRun` is the invariant before it, `ActiveRun` the one after
it, and `scanner_attack_reported_iff` puts them together.
-/

namespace RanHoneypot.Trap

open Alert TimedRun List CrowdSecAlerter Session

/-! ## The class filter -/

/-- An open sink filters out the events of bannable sources that do not pass the class filter. -/
theorem submit_filtered_iff {net : Netip} {a : CrowdSecAlerter} {ev : Event} {addr : Addr}
    (hopen : a.closed = false) (hbannable : parseBannableIP net ev.info.sourceIP = some addr)
    (call now : ℕ) :
    (a.submit net call ev now).1 = .filtered ↔ passesFilter a.banOn ev = false := by
  unfold submit passesFilter
  simp only [hbannable, hopen, Bool.false_eq_true]
  by_cases hpasses : (downgrade a.banOn ev).cls ∈ a.banOn
  · simp only [hpasses, not_true_eq_false]
    repeat' split
    all_goals simp
  · simp [hpasses]

variable {reported : List Alert.Class} {ev : Event}

theorem passesFilter_iff : passesFilter reported ev = true ↔
    ev.cls ∈ reported ∨ (ev.cls = .scan ∧ classify ev.info ∈ reported) := by
  unfold passesFilter downgrade
  rw [decide_eq_true_eq]
  split
  · next hdowngraded => simp [hdowngraded.1, hdowngraded.2]
  · next hkept =>
    rw [or_iff_left_of_imp]
    intro hscan
    by_contra hfiltered
    exact hkept ⟨hscan.1, hscan.1 ▸ hfiltered⟩

/-- An event of a session that did something passes, as attack if not as scan. -/
theorem passesFilter_active (hattack : .attack ∈ reported) (hactive : classify ev.info = .attack)
    (hcls : ev.cls ≠ .probe) : passesFilter reported ev = true := by
  rw [passesFilter_iff, hactive]
  cases hev : ev.cls with
  | probe => exact absurd hev hcls
  | attack => exact .inl hattack
  | scan => exact .inr ⟨rfl, hattack⟩

/-- An event of a session that did nothing passes as scan or as probe. -/
theorem passesFilter_quiet (hquiet : classify ev.info = .probe) (hcls : ev.cls ≠ .attack)
    (hpasses : passesFilter reported ev = true) :
    .scan ∈ reported ∨ .probe ∈ reported := by
  rw [passesFilter_iff, hquiet] at hpasses
  rcases hpasses with hpasses | ⟨_, hprobe⟩
  · cases hev : ev.cls with
    | probe => exact .inr (hev ▸ hpasses)
    | attack => exact absurd hev hcls
    | scan => exact .inl (hev ▸ hpasses)
  · exact .inr hprobe

theorem passesFilter_quiet_scan (hquiet : classify ev.info = .probe) (hcls : ev.cls = .scan)
    (hreported : .scan ∈ reported ∨ .probe ∈ reported) :
    passesFilter reported ev = true := by
  rw [passesFilter_iff, hquiet, hcls]
  exact hreported.imp_right fun hprobe ↦ ⟨rfl, hprobe⟩

/-! ## Sessions of one client -/

/-- The fields of a session that never change. -/
def Session.client (s : Session) : String × Transport × String × ℤ × Bool :=
  (s.protocol, s.transport, s.sourceIP, s.destPort, s.sensed)

/-- The verdict of the scan tracker on the session when the turn is made. -/
def Turn.scanner (net : Netip) (s : Session) (t : Turn) : Bool :=
  (t.sensor.touchScan net s.info t.now).1

/-- The operation counts as activity of the client. -/
def SessionOp.activity : SessionOp → Bool
  | alert _ => false
  | alertCommand _ => false
  | _ => true

def SessionOp.isAlert : SessionOp → Bool
  | alert _ => true
  | _ => false

theorem SessionOp.isAlert_of_activity {op : SessionOp} (hactivity : op.activity = true) :
    op.isAlert = false := by
  cases op with
  | alert _ => cases hactivity
  | _ => rfl

variable {net : Netip} {s s' : Session}

/-- The verdict depends on the client and not on what it did. -/
theorem scanner_congr (net : Netip) (hclient : s'.client = s.client) (t : Turn) :
    t.scanner net s' = t.scanner net s := by
  cases s with
  | mk protocol transport source port sensed =>
    cases s' with
    | mk protocol' transport' source' port' sensed' =>
      rcases hclient with ⟨rfl, rfl, rfl, rfl, rfl⟩
      rfl

/-- The session has a sensor, is a TCP one and its source is not ignored. -/
structure Watched (net : Netip) (s : Session) (sensor : Sensor) : Prop where
  sensed : s.sensed = true
  tcp : s.transport = .tcp
  listed : sensor.isIgnored net s.sourceIP = false

theorem Watched.congr {sensor : Sensor} (h : Watched net s sensor) (hclient : s'.client = s.client) :
    Watched net s' sensor := by
  simp only [client, Prod.mk.injEq] at hclient
  rcases hclient with ⟨_, htransport, hsource, _, hsensed⟩
  exact ⟨hsensed.trans h.sensed, htransport.trans h.tcp, hsource ▸ h.listed⟩

/-- The class that the sensor finds. -/
def foundClass (net : Netip) (s : Session) (sensor : Sensor) (now : ℕ) : Alert.Class :=
  if (sensor.touchScan net s.info now).1 then .scan else classify s.info

section

variable {sensor : Sensor} (h : Watched net s sensor) (now : ℕ)
include h

theorem alertEvent_eq (meta' : Meta) : sensor.alertEvent net s.info meta' now =
    some { cls := foundClass net s sensor now, info := s.info, meta' := meta' } := by
  have hreported : ¬(s.info.transport ≠ .tcp ∨ sensor.isIgnored net s.info.sourceIP = true) := by
    simp [info, h.tcp, h.listed]
  unfold Sensor.alertEvent
  rw [if_neg hreported]
  rfl

theorem alert_eq (meta' : Meta) : s.alert net sensor meta' now =
    ({ s with alertedClass := maxClass s.alertedClass (some (foundClass net s sensor now)) },
      some { cls := foundClass net s sensor now, info := s.info, meta' := meta' }) := by
  unfold alert
  rw [alertEvent_eq h]
  simp [h.sensed]

theorem logDisconnect_eq : s.logDisconnect net sensor now =
    if rankOf s.alertedClass < (foundClass net s sensor now).rank then
      some { cls := foundClass net s sensor now, info := s.info, meta' := ∅ } else none := by
  unfold logDisconnect Sensor.sessionEndEvent
  rw [if_pos ⟨h.sensed, h.tcp⟩, alertEvent_eq h, Option.filter_some]
  simp only [decide_eq_true_eq]
  rfl

end

theorem client_take (net : Netip) (s : Session) (t : Turn) :
    (SessionRun.take net s t).1.client = s.client := by
  have halert (meta' : Meta) : (s.alert net t.sensor meta' t.now).1.client = s.client := by
    unfold alert
    split <;> rfl
  unfold SessionRun.take
  split
  · rfl
  · rfl
  · rfl
  · rfl
  · exact halert _
  · unfold alertCommand
    split
    · rfl
    · exact halert _

/-! ## Activity -/

structure Session.Counted (s : Session) : Prop where
  authAttempts : 0 ≤ s.authAttempts
  commands : 0 ≤ s.commands
  payloadBytes : 0 ≤ s.payloadBytes

theorem classify_eq_attack_iff : classify s.info = .attack ↔
    0 < s.authAttempts ∨ 0 < s.commands ∨ 0 < s.payloadBytes := by
  unfold classify
  split
  · next hactive => exact iff_of_true rfl hactive
  · next hquiet => exact iff_of_false (by simp) hquiet

theorem payloadBytes_pos (hcounted : s.Counted) (size : ℤ) :
    0 < (s.logPayloadSize size).payloadBytes := by
  have hpayload := hcounted.payloadBytes
  have hadded : 1 ≤ min (max size 1) maxPayloadBytes :=
    le_min (le_max_right _ 1) (by decide)
  unfold logPayloadSize
  dsimp only
  split
  · exact Int.lt_of_lt_of_le Int.one_pos (by decide)
  · omega

/-- An activity makes the session an attack and changes nothing else. -/
theorem activity_take (net : Netip) {t : Turn} (hactivity : t.op.activity = true) (hcounted : s.Counted) :
    (SessionRun.take net s t).1.Counted ∧ classify (SessionRun.take net s t).1.info = .attack ∧
      (SessionRun.take net s t).1.alertedClass = s.alertedClass ∧
      (SessionRun.take net s t).2 = none := by
  rcases hcounted with ⟨hauth, hcommands, hpayload⟩
  unfold SessionRun.take
  cases hop : t.op with
  | logAuthAttempt =>
    refine ⟨⟨Int.le_add_one hauth, hcommands, hpayload⟩, ?_, rfl, rfl⟩
    exact classify_eq_attack_iff.mpr (.inl (Int.lt_add_one_of_le hauth))
  | logCommand =>
    refine ⟨⟨hauth, Int.le_add_one hcommands, hpayload⟩, ?_, rfl, rfl⟩
    exact classify_eq_attack_iff.mpr (.inr (.inl (Int.lt_add_one_of_le hcommands)))
  | logPayload strings =>
    have hpos := payloadBytes_pos ⟨hauth, hcommands, hpayload⟩
      (strings.map fun text ↦ (text.length : ℤ)).sum
    exact ⟨⟨hauth, hcommands, hpos.le⟩, classify_eq_attack_iff.mpr (.inr (.inr hpos)), rfl, rfl⟩
  | logPayloadSize size =>
    have hpos := payloadBytes_pos ⟨hauth, hcommands, hpayload⟩ size
    exact ⟨⟨hauth, hcommands, hpos.le⟩, classify_eq_attack_iff.mpr (.inr (.inr hpos)), rfl, rfl⟩
  | alert | alertCommand =>
    rw [hop] at hactivity
    cases hactivity

/-! ## Before the first activity -/

/-- The session has done nothing. `seen` says that an `Alert` call found a scanner. -/
structure QuietRun (start : Session) (seen : Bool) (r : SessionRun) : Prop where
  session : r.session = { start with alertedClass := r.session.alertedClass }
  alerted : r.session.alertedClass = some .scan ∧ seen = true ∨
    (r.session.alertedClass = none ∨ r.session.alertedClass = some .probe) ∧ seen = false
  submits : ∀ ev ∈ r.submits, ev.cls ≠ .attack ∧ classify ev.info = .probe
  scan : seen = true → ∃ ev ∈ r.submits, ev.cls = .scan

variable {start : Session} {seen : Bool} {r : SessionRun} {t : Turn}

theorem QuietRun.client (h : QuietRun start seen r) : r.session.client = start.client := by
  rw [h.session]
  rfl

section

variable (h : QuietRun start seen r) (hstart : classify start.info = .probe)

include h hstart

theorem QuietRun.quiet : classify r.session.info = .probe := by
  rw [h.session]
  exact hstart

/-- An `Alert` call, whatever the meta. -/
theorem QuietRun.alert (hwatched : Watched net start t.sensor) (meta' : Meta) :
    QuietRun start (seen || t.scanner net start)
      ⟨(r.session.alert net t.sensor meta' t.now).1,
        r.submits ++ (r.session.alert net t.sensor meta' t.now).2.toList⟩ := by
  have hscanner := scanner_congr net h.client t
  have hquiet := h.quiet hstart
  have hfound : foundClass net r.session t.sensor t.now = if t.scanner net start then .scan else .probe := by
    rw [← hscanner, ← hquiet]
    rfl
  rw [alert_eq (hwatched.congr h.client), hfound]
  have hsubmits : ∀ ev ∈ r.submits ++ [⟨if t.scanner net start then .scan else .probe,
      r.session.info, meta'⟩], ev.cls ≠ .attack ∧ classify ev.info = .probe := by
    intro ev hev
    rcases mem_append.mp hev with hold | hnew
    · exact h.submits ev hold
    · rw [mem_singleton.mp hnew]
      refine ⟨?_, hquiet⟩
      split <;> simp
  refine ⟨?_, ?_, hsubmits, ?_⟩
  · rw [h.session]
  · -- The class only rises, and `scan` is the highest.
    cases hverdict : t.scanner net start with
    | true =>
      refine .inl ⟨?_, Bool.or_true seen⟩
      rcases h.alerted with ⟨halerted, _⟩ | ⟨halerted | halerted, _⟩ <;> rw [halerted] <;> rfl
    | false =>
      rw [Bool.or_false]
      rcases h.alerted with ⟨halerted, hseen⟩ | ⟨halerted | halerted, hseen⟩
      · exact .inl ⟨by rw [halerted]; rfl, hseen⟩
      · exact .inr ⟨.inr (by rw [halerted]; rfl), hseen⟩
      · exact .inr ⟨.inr (by rw [halerted]; rfl), hseen⟩
  · intro hnow
    cases hverdict : t.scanner net start with
    | true => exact ⟨_, mem_append_right _ (mem_singleton_self _), rfl⟩
    | false =>
      rw [hverdict, Bool.or_false] at hnow
      rcases h.scan hnow with ⟨ev, hev, hcls⟩
      exact ⟨ev, mem_append_left _ hev, hcls⟩

theorem QuietRun.step (hwatched : Watched net start t.sensor) (hquiet : t.op.activity = false) :
    QuietRun start (seen || t.scanner net start) (r.step net t) := by
  cases hop : t.op with
  | alert meta' =>
    simp only [SessionRun.step, SessionRun.take, hop]
    exact h.alert hstart hwatched _
  | alertCommand name =>
    simp only [SessionRun.step, SessionRun.take, hop]
    unfold alertCommand
    split
    · next hreported =>
      -- Only a session that was found to be a scanner is past the class attack here.
      rcases h.alerted with ⟨_, hseen⟩ | ⟨halerted | halerted, _⟩
      · have hsame : (seen || t.scanner net start) = seen := by rw [hseen, Bool.true_or]
        rw [hsame, Option.toList_none, append_nil]
        exact h
      · rw [halerted] at hreported
        cases hreported
      · rw [halerted] at hreported
        cases hreported
    · exact h.alert hstart hwatched _
  | _ =>
    rw [hop] at hquiet
    cases hquiet

end

theorem QuietRun.run (hstart : classify start.info = .probe) (turns : List Turn)
    (hwatched : ∀ t ∈ turns, Watched net start t.sensor)
    (hquiet : ∀ t ∈ turns, t.op.activity = false) (h : QuietRun start seen r) :
    QuietRun start (seen || turns.any (Turn.scanner net start))
      (TimedRun.run (SessionRun.step net) r turns) := by
  induction turns generalizing r seen with
  | nil =>
    rw [any_nil, Bool.or_false]
    exact h
  | cons t rest ih =>
    rw [any_cons, ← Bool.or_assoc]
    exact ih (fun u hu ↦ hwatched u (mem_cons_of_mem t hu))
      (fun u hu ↦ hquiet u (mem_cons_of_mem t hu))
      (h.step hstart (hwatched t mem_cons_self) (hquiet t mem_cons_self))

/-! ## After the first activity -/

/-- The session has done something. `before` and `early` are the class it was reported with and the
events submitted before that, and `plain` says that `Alert` was called since. -/
structure ActiveRun (start : Session) (before : Option Alert.Class) (early : List Event) (plain : Bool)
    (r : SessionRun) : Prop where
  client : r.session.client = start.client
  counted : r.session.Counted
  active : classify r.session.info = .attack
  submits : ∃ later, r.submits = early ++ later ∧
    (∀ ev ∈ later, ev.cls ≠ .probe ∧ classify ev.info = .attack) ∧
    (later = [] → r.session.alertedClass = before) ∧ (plain = true → later ≠ []) ∧
    (plain = false → before = some .scan → later = [])

variable {before : Option Alert.Class} {early : List Event} {plain : Bool}

theorem ActiveRun.activity (h : ActiveRun start before early plain r)
    (hactivity : t.op.activity = true) : ActiveRun start before early plain (r.step net t) := by
  rcases activity_take net hactivity h.counted with ⟨hcounted, hactive, halerted, hnone⟩
  rcases h.submits with ⟨later, hsubmits, hlater, hsame, hplain, hscan⟩
  refine ⟨(client_take _ _ t).trans h.client, hcounted, hactive, later, ?_, hlater, ?_,
    hplain, hscan⟩
  · simp [SessionRun.step, hnone, hsubmits]
  · intro hempty
    exact halerted.trans (hsame hempty)

theorem foundClass_active (net : Netip) (hactive : classify s.info = .attack) (sensor : Sensor) (now : ℕ) :
    foundClass net s sensor now ≠ .probe := by
  unfold foundClass
  split
  · simp
  · rw [hactive]
    simp

section

variable (h : ActiveRun start before early plain r) (hwatched : Watched net start t.sensor)

include h hwatched

/-- An `Alert` call. If it is not a plain one, the session was not reported as attack before. -/
theorem ActiveRun.alert (meta' : Meta) {plain' : Bool}
    (hplain' : plain' = false → plain = false ∧ r.session.alertedClass ≠ some .scan) :
    ActiveRun start before early plain'
      ⟨(r.session.alert net t.sensor meta' t.now).1,
        r.submits ++ (r.session.alert net t.sensor meta' t.now).2.toList⟩ := by
  rw [alert_eq (hwatched.congr h.client)]
  rcases h.submits with ⟨later, hsubmits, hlater, hsame, hplain, hscan⟩
  refine ⟨h.client, ⟨h.counted.authAttempts, h.counted.commands, h.counted.payloadBytes⟩, h.active,
    later ++ [⟨foundClass net r.session t.sensor t.now, r.session.info, meta'⟩], ?_, ?_, ?_, ?_, ?_⟩
  · rw [hsubmits, append_assoc]
    rfl
  · intro ev hev
    rcases mem_append.mp hev with hold | hnew
    · exact hlater ev hold
    · rw [mem_singleton.mp hnew]
      exact ⟨foundClass_active _ h.active t.sensor _, h.active⟩
  · intro hempty
    simp at hempty
  · intro _
    simp
  · intro hnone hbefore
    rcases hplain' hnone with ⟨hplainless, halerted⟩
    have hempty := hscan hplainless hbefore
    exact absurd ((hsame hempty).trans hbefore) halerted

theorem ActiveRun.step : ActiveRun start before early (plain || t.op.isAlert) (r.step net t) := by
  cases hop : t.op with
  | alert meta' =>
    simp only [SessionRun.step, SessionRun.take, hop]
    refine h.alert hwatched _ fun hnone ↦ ?_
    simp [SessionOp.isAlert] at hnone
  | alertCommand name =>
    simp only [SessionRun.step, SessionRun.take, hop]
    simp only [SessionOp.isAlert, Bool.or_false]
    unfold alertCommand
    split
    · rw [Option.toList_none, append_nil]
      exact h
    · next hunreported =>
      refine h.alert hwatched _ fun hnone ↦ ⟨hnone, ?_⟩
      intro halerted
      rw [halerted] at hunreported
      exact hunreported rfl
  | logAuthAttempt | logCommand | logPayload | logPayloadSize =>
    have hactivity : t.op.activity = true := by rw [hop]; rfl
    simp only [SessionOp.isAlert, Bool.or_false]
    exact h.activity hactivity

end

theorem ActiveRun.run (net : Netip) (turns : List Turn) (hwatched : ∀ t ∈ turns, Watched net start t.sensor)
    (h : ActiveRun start before early plain r) :
    ActiveRun start before early (plain || turns.any (·.op.isAlert))
      (TimedRun.run (SessionRun.step net) r turns) := by
  induction turns generalizing r plain with
  | nil =>
    rw [any_nil, Bool.or_false]
    exact h
  | cons t rest ih =>
    rw [any_cons, ← Bool.or_assoc]
    exact ih (fun u hu ↦ hwatched u (mem_cons_of_mem t hu))
      (h.step (hwatched t mem_cons_self))

/-- The first activity. -/
theorem QuietRun.activity (net : Netip) (h : QuietRun start seen r) (hcounted : start.Counted)
    (hactivity : t.op.activity = true) :
    ActiveRun start r.session.alertedClass r.submits false (r.step net t) := by
  have hcounted' : r.session.Counted := by
    rw [h.session]
    exact ⟨hcounted.authAttempts, hcounted.commands, hcounted.payloadBytes⟩
  rcases activity_take net hactivity hcounted' with ⟨hnext, hactive, halerted, hnone⟩
  refine ⟨(client_take _ _ t).trans h.client, hnext, hactive, [], ?_, by simp,
    fun _ ↦ halerted, by simp, fun _ _ ↦ rfl⟩
  simp [SessionRun.step, hnone]

/-! ## Whole sessions -/

/-- The turns before the first activity, and the turns from it on. -/
def quietTurns (turns : List Turn) : List Turn := turns.takeWhile fun t ↦ !t.op.activity

def activeTurns (turns : List Turn) : List Turn := turns.dropWhile fun t ↦ !t.op.activity

theorem activity_of_activeTurns_cons {turns rest : List Turn} {t : Turn}
    (hturns : activeTurns turns = t :: rest) : t.op.activity = true := by
  have hhead := head?_dropWhile_not (fun t : Turn ↦ !t.op.activity) turns
  unfold activeTurns at hturns
  rw [hturns] at hhead
  simpa using hhead

/-- Some event passes the class filter. -/
def Reported (reported : List Alert.Class) (events : List Event) : Prop :=
  ∃ ev ∈ events, passesFilter reported ev = true

/-- The end of a session that did something, after a quiet start `q`. -/
theorem ActiveRun.reported_iff {q : SessionRun} {sensor : Sensor} (hattack : .attack ∈ reported)
    (hquiet : QuietRun start seen q)
    (h : ActiveRun start q.session.alertedClass q.submits plain r)
    (hwatched : Watched net start sensor) (now : ℕ) :
    Reported reported (r.disconnect net sensor now).submits ↔
      .scan ∈ reported ∨ .probe ∈ reported ∨ seen = false ∨ plain = true := by
  rcases h.submits with ⟨later, hsubmits, hlater, hsame, hplain, hscan⟩
  have hend := logDisconnect_eq (hwatched.congr h.client) now
  simp only [Reported, SessionRun.disconnect, hsubmits, hend, mem_append]
  constructor
  · intro hreported
    by_contra hnone
    simp only [not_or, Bool.not_eq_false, Bool.not_eq_true] at hnone
    rcases hnone with ⟨hnoScan, hnoProbe, rfl, rfl⟩
    have halerted : q.session.alertedClass = some .scan :=
      hquiet.alerted.elim And.left fun hunseen ↦ Bool.noConfusion hunseen.2
    have hempty := hscan rfl halerted
    have hlast : rankOf r.session.alertedClass = 3 := by
      rw [hsame hempty, halerted]
      rfl
    rcases hreported with ⟨ev, (hearly | hnew) | hfinal, hpasses⟩
    · rcases hquiet.submits ev hearly with ⟨hcls, hinfo⟩
      exact (passesFilter_quiet hinfo hcls hpasses).elim hnoScan hnoProbe
    · rw [hempty] at hnew
      cases hnew
    · have hmax : ¬rankOf r.session.alertedClass < (foundClass net r.session sensor now).rank := by
        rw [hlast]
        cases foundClass net r.session sensor now <;> simp [Alert.Class.rank]
      rw [if_neg hmax] at hfinal
      cases hfinal
  · intro hcases
    cases hlist : later with
    | cons ev rest =>
      have hev : ev ∈ later := by rw [hlist]; exact mem_cons_self
      rcases hlater ev hev with ⟨hcls, hactive⟩
      exact ⟨ev, .inl (.inr mem_cons_self), passesFilter_active hattack hactive hcls⟩
    | nil =>
      have hbefore := hsame hlist
      have hunplain : plain ≠ true := fun hcall ↦ hplain hcall hlist
      rcases hquiet.alerted with ⟨_, hseen⟩ | ⟨hlow, hseen⟩
      · -- The scanner was found early: that event passes as scan or as probe.
        rcases hquiet.scan hseen with ⟨ev, hev, hcls⟩
        have hclasses : .scan ∈ reported ∨ .probe ∈ reported := by
          rcases hcases with hscan' | hprobe | hunseen | hcall
          · exact .inl hscan'
          · exact .inr hprobe
          · rw [hseen] at hunseen
            cases hunseen
          · exact absurd hcall hunplain
        exact ⟨ev, .inl (.inl hev),
          passesFilter_quiet_scan (hquiet.submits ev hev).2 hcls hclasses⟩
      · -- Otherwise the end of the session reports the escalation.
        have hfound := foundClass_active net h.active sensor now
        have hrises : rankOf r.session.alertedClass < (foundClass net r.session sensor now).rank := by
          rw [hbefore]
          cases hclass : foundClass net r.session sensor now with
          | probe => exact absurd hclass hfound
          | attack | scan => rcases hlow with hlow | hlow <;> rw [hlow] <;> decide
        rw [if_pos hrises]
        exact ⟨_, .inr (mem_singleton_self _), passesFilter_active hattack h.active hfound⟩

/-- A session that ends as an attack is reported, exactly if the sink reports scans or probes as well,
or no `Alert` call before the first activity found a scanner, or `Alert` is called after it. -/
theorem scanner_attack_reported_iff (net : Netip) (reported : List Alert.Class)
    (hattack : .attack ∈ reported) (protocol source : String) (destPort : ℤ) (turns : List Turn)
    (sensor : Sensor) (now : ℕ)
    (hturns : ∀ t ∈ turns, t.sensor.isIgnored net source = false)
    (hsensor : sensor.isIgnored net source = false)
    (hfinal : classify (sessionAfter net (newSession protocol .tcp source destPort true) turns sensor
      now).session.info = .attack) :
    let start := newSession protocol .tcp source destPort true
    Reported reported (sessionAfter net start turns sensor now).submits ↔
      .scan ∈ reported ∨ .probe ∈ reported ∨
        (∀ t ∈ quietTurns turns, t.scanner net start = false) ∨
        ∃ t ∈ activeTurns turns, t.op.isAlert = true := by
  intro start
  have hwatched : ∀ t ∈ turns, Watched net start t.sensor := fun t ht ↦ ⟨rfl, rfl, hturns t ht⟩
  have hsplit : quietTurns turns ++ activeTurns turns = turns := takeWhile_append_dropWhile
  have hmem (t : Turn) (ht : t ∈ quietTurns turns ∨ t ∈ activeTurns turns) : t ∈ turns := by
    rw [← hsplit]
    exact mem_append.mpr ht
  have hprobe : classify start.info = .probe := rfl
  have hquiet : QuietRun start ((quietTurns turns).any (Turn.scanner net start))
      (run (SessionRun.step net) ⟨start, []⟩ (quietTurns turns)) := by
    have hinit : QuietRun start false ⟨start, []⟩ :=
      ⟨rfl, .inr ⟨.inl rfl, rfl⟩, (nofun), nofun⟩
    refine QuietRun.run hprobe _ (fun t ht ↦ hwatched t (hmem t (.inl ht))) (fun t ht ↦ ?_) hinit
    have hidle := mem_takeWhile_imp ht
    simpa using hidle
  have hrun : run (SessionRun.step net) ⟨start, []⟩ turns =
      run (SessionRun.step net) (run (SessionRun.step net) ⟨start, []⟩ (quietTurns turns))
        (activeTurns turns) := by
    rw [← run_append, hsplit]
  have hany : ((quietTurns turns).any (Turn.scanner net start) = false) ↔
      ∀ t ∈ quietTurns turns, t.scanner net start = false := by
    simp
  have hlate : ((activeTurns _).any (·.op.isAlert) = true) ↔
      ∃ t ∈ activeTurns turns, t.op.isAlert = true := any_eq_true
  cases hactive : activeTurns turns with
  | nil =>
    -- Without any activity the session would not be an attack.
    have hnothing : run (SessionRun.step net) ⟨start, []⟩ turns =
        run (SessionRun.step net) ⟨start, []⟩ (quietTurns turns) := by
      rw [hrun, hactive, run_nil]
    have hclass := hquiet.quiet hprobe
    rw [← hnothing] at hclass
    cases hclass.symm.trans hfinal
  | cons t rest =>
    have hactivity := activity_of_activeTurns_cons hactive
    have hstart : start.Counted := ⟨Int.le_refl 0, Int.le_refl 0, Int.le_refl 0⟩
    have hfirst := hquiet.activity net hstart hactivity
    have hrest := hfirst.run net rest fun u hu ↦
      hwatched u (hmem u (.inr (by rw [hactive]; exact mem_cons_of_mem t hu)))
    have hplain : (activeTurns turns).any (·.op.isAlert) =
        (false || rest.any (·.op.isAlert)) := by
      rw [hactive, any_cons, SessionOp.isAlert_of_activity hactivity]
    have hiff := hrest.reported_iff hattack hquiet ⟨rfl, rfl, hsensor⟩ now
    rw [hany, ← hplain, hlate, hactive] at hiff
    unfold sessionAfter
    rw [hrun, hactive]
    exact hiff

/-- A sensor that saw the source on two other protocols. -/
def scannedSensor : Sensor :=
  let visit (protocol : String) (destPort : ℤ) : SessionInfo :=
    { sourceIP := Netip.binary.string (.v4 0x08080808#32), protocol := protocol, transport := .tcp,
      destPort := destPort, authAttempts := 0, commands := 0, payloadBytes := 0,
      alertedClass := none }
  sensorAfter .binary ⟨10, 60, []⟩ ⟨[.attack], 60, true, 2, 600, 1000, 0, 1, 10⟩
    [.alert (visit "ftp" 21) ∅ 0, .alert (visit "telnet" 23) ∅ 1]

/-- The session of a third protocol calls `Alert` and then tries to log in. -/
def alertThenLogin (first second : SessionOp) : SessionRun :=
  sessionAfter .binary
    (newSession "ssh" .tcp (Netip.binary.string (.v4 0x08080808#32)) 22 true)
    [⟨first, scannedSensor, 2⟩, ⟨second, scannedSensor, 3⟩] scannedSensor 4

/-- The sensor finds a scanner and the sink drops the event, so the login is never reported. -/
theorem scanner_attack_lost :
    (parseBannableIP .binary (Netip.binary.string (.v4 0x08080808#32))).isSome ∧
      scannedSensor.isIgnored .binary (Netip.binary.string (.v4 0x08080808#32)) = false ∧
      scannedSensor.pipeline.sink.closed = false ∧
      classify (alertThenLogin (.alert ∅) .logAuthAttempt).session.info = .attack ∧
      ¬Reported [.attack] (alertThenLogin (.alert ∅) .logAuthAttempt).submits := by
  have hsubmits : ∀ ev ∈ (alertThenLogin (.alert ∅) .logAuthAttempt).submits,
      passesFilter [.attack] ev = false := by decide
  refine ⟨by decide, by decide, by decide, by decide, fun hreported ↦ ?_⟩
  rcases hreported with ⟨ev, hev, hpasses⟩
  rw [hsubmits ev hev] at hpasses
  cases hpasses

theorem scanner_attack_reported_iff_login :
    Reported [.attack] (alertThenLogin .logAuthAttempt (.alert ∅)).submits := by
  have hiff := scanner_attack_reported_iff .binary [.attack] (by decide) "ssh"
    (Netip.binary.string (.v4 0x08080808#32)) 22
    [⟨.logAuthAttempt, scannedSensor, 2⟩, ⟨.alert ∅, scannedSensor, 3⟩] scannedSensor 4
    (by decide) (by decide) (by decide)
  exact hiff.mpr (.inr (.inr (.inl fun t ht ↦ nomatch ht)))

end RanHoneypot.Trap
