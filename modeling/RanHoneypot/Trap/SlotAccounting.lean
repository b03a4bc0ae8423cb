import RanHoneypot.Trap.TcpSteps
import RanHoneypot.Trap.Traps

/-!
# The accounting of session slots

In every reachable state the limiter counts exactly the sessions that were admitted and have not given
their slot back, over all traps: in total, for each source, and within its limits. For every session
the limiter is asked at most once with success, and gets the slot back exactly once, for the same host,
if the session is given its turns.

Every kind of session has a phase that decides whether it holds a slot. One turn of a session is a
`SlotMove` between the slots held before and after it, so the counters follow.
-/

namespace RanHoneypot.Trap

open TimedRun List TrapAction BriefSession Traps Threads Option SlotMove

/-! ## Sessions -/

/-- A session of any kind, as far as the limiter is concerned. `stepsLeft` bounds the turns that it
needs until it is over. -/
structure SessionView where
  host : String
  slot : Slot
  holds : Bool
  stepsLeft : ℕ

namespace SessionView

def held (v : SessionView) : List String := if v.holds then [v.host] else []

/-- One turn of a session. -/
structure Turn (v : SessionView) (l : Limiter) (v' : SessionView) (l' : Limiter) : Prop where
  host : v'.host = v.host := by rfl
  acquired : v.slot.acquired <+: v'.slot.acquired := by exact prefix_refl _
  less : v'.stepsLeft ≤ v.stepsLeft - 1 := by exact Nat.le_of_ble_eq_true rfl
  slots : SlotMove l v.held l' v'.held := by exact .keep (.refl _)

/-- `v'` is the session `v` some steps later. -/
structure Later (v v' : SessionView) : Prop where
  host : v'.host = v.host
  acquired : v.slot.acquired <+: v'.slot.acquired
  less : v'.stepsLeft ≤ v.stepsLeft

theorem Later.refl (v : SessionView) : v.Later v := ⟨rfl, prefix_refl _, le_rfl⟩

theorem Later.trans {v v' v'' : SessionView} (hfirst : v.Later v') (hsecond : v'.Later v'') :
    v.Later v'' where
  host := hsecond.host.trans hfirst.host
  acquired := hfirst.acquired.trans hsecond.acquired
  less := hsecond.less.trans hfirst.less

theorem Turn.later {v v' : SessionView} {l l' : Limiter} (h : v.Turn l v' l') : v.Later v' :=
  ⟨h.host, h.acquired, h.less.trans (Nat.sub_le _ _)⟩

end SessionView

/-! ## TCP connections -/

def TcpConn.view (c : TcpConn) : SessionView := ⟨c.host, c.slot, c.phase.holds, c.phase.stepsLeft⟩

namespace TcpServer

/-- The sources of the connections that hold a slot. -/
def held (s : TcpServer) : List String := s.conns.flatMap TcpConn.held

variable {s : TcpServer} {l : Limiter}

theorem Effect.slots {s' : TcpServer} {l' : Limiter} (h : Effect s l s' l') :
    SlotMove l s.held l' s'.held := by
  unfold held
  cases h with
  | quiet hconns =>
    rw [hconns]
    exact .keep (.refl _)
  | closed hget hconns =>
    rw [hconns]
    exact set hget (.keep (.refl _))
  | turn hget hstep hconns =>
    rw [hconns, hstep.conns]
    exact set hget hstep.slots
  | accepted host hconns =>
    rw [hconns]
    apply keep
    simp [TcpConn.held, ConnPhase.holds]

end TcpServer

/-! ## Connections of the HTTP traps -/

namespace HttpConn

variable {c : HttpConn}

/-- The connection was admitted and has not given its slot back. While it is active the session in
its entry says so. -/
def holds (c : HttpConn) : Bool :=
  match c.phase with
  | .creating | .releasing _ => true
  | .active => (c.entry.getD none).isSome
  | _ => false

def stepsLeft (c : HttpConn) : ℕ :=
  match c.phase with
  | .accepted => 5
  | .new => 4
  | .creating => 3
  | .active => 2
  | .releasing _ => 1
  | .finished => 0

/-- What holds of a connection in each phase. -/
def Sound (c : HttpConn) : Prop :=
  match c.phase with
  | .accepted => c.slot = {}
  | .new => c.slot = {} ∧ c.entry = some none
  | .creating => c.slot = ⟨[c.host], []⟩
  | .active => c.slot = {} ∧ c.entry = some none ∨
      c.slot = ⟨[c.host], []⟩ ∧ c.entry = some (some c.host)
  | .releasing sourceIP => c.slot = ⟨[c.host], []⟩ ∧ sourceIP = c.host
  | .finished => c.slot.Settled c.host

theorem Sound.balanced (h : c.Sound) : c.slot.Balanced c.host c.holds := by
  rcases c with ⟨host, phase, entry, slot⟩
  cases phase with
  | accepted => exact .inl h
  | new => exact .inl h.1
  | creating => exact h
  | active =>
    rcases h with ⟨hslot, hentry⟩ | ⟨hslot, hentry⟩
    · cases hentry
      exact .inl hslot
    · have hentry' : entry = some (some host) := hentry
      cases hentry'
      exact hslot
  | releasing sourceIP => exact h.1
  | finished => exact h

def view (c : HttpConn) : SessionView := ⟨c.host, c.slot, c.holds, c.stepsLeft⟩

theorem turn_new {l : Limiter} (hphase : c.phase = .new) (h : c.Sound) :
    c.view.Turn l (c.connNew l).1.view (c.connNew l).2 ∧ (c.connNew l).1.Sound := by
  rcases c with ⟨host, phase, entry, slot⟩
  cases hphase
  have hslot : slot = {} := h.1
  have hentry : entry = some none := h.2
  cases hentry
  simp only [connNew]
  cases hok : (l.acquire host).1 with
  | false =>
    simp only [Bool.not_false, Limiter.acquire_eq_false hok]
    exact ⟨{}, .inl ⟨hslot, rfl⟩⟩
  | true =>
    refine ⟨{ acquired := prefix_append _ _, slots := .acquire host hok (.refl _) }, ?_⟩
    rw [hslot]
    rfl

theorem turn_active {l : Limiter} (hphase : c.phase = .active) (h : c.Sound) :
    c.view.Turn l c.connClosed.view l ∧ c.connClosed.Sound := by
  rcases c with ⟨host, phase, entry, slot⟩
  cases hphase
  rcases h with ⟨hslot, hentry⟩ | ⟨hslot, hentry⟩
  · cases hentry
    exact ⟨{}, .inl hslot⟩
  · have hentry' : entry = some (some host) := hentry
    cases hentry'
    exact ⟨{}, hslot, rfl⟩

theorem turn_releasing {l : Limiter} {sourceIP : String} (hphase : c.phase = .releasing sourceIP)
    (h : c.Sound) :
    c.view.Turn l { c with phase := .finished, slot := c.slot.giveBack sourceIP }.view
        (l.release sourceIP) ∧
      { c with phase := .finished, slot := c.slot.giveBack sourceIP }.Sound := by
  rcases c with ⟨host, phase, entry, slot⟩
  cases hphase
  have hhost : sourceIP = host := h.2
  rw [hhost]
  refine ⟨{ slots := .release host (.refl _) }, ?_⟩
  exact .inr (TcpServer.giveBack_held h.1)

theorem turn_spec (l : Limiter) (h : c.Sound) :
    c.view.Turn l (c.turn l).1.view (c.turn l).2 ∧ (c.turn l).1.Sound := by
  unfold turn
  cases hphase : c.phase with
  | new => exact turn_new hphase h
  | active => exact turn_active hphase h
  | releasing sourceIP => exact turn_releasing hphase h
  | accepted =>
    rcases c with ⟨host, phase, entry, slot⟩
    cases hphase
    exact ⟨{}, h, rfl⟩
  | creating =>
    rcases c with ⟨host, phase, entry, slot⟩
    cases hphase
    exact ⟨{}, .inr ⟨h, rfl⟩⟩
  | finished =>
    rcases c with ⟨host, phase, entry, slot⟩
    cases hphase
    exact ⟨{}, h⟩

end HttpConn

/-! ## Packets and requests -/

namespace BriefSession

variable (b : BriefSession)

def holds : Bool :=
  match b.phase with
  | .handling | .releasing => true
  | _ => false

def stepsLeft : ℕ :=
  match b.phase with
  | .limiting => 4
  | .acquiring => 3
  | .handling => 2
  | .releasing => 1
  | .finished => 0

/-- What holds of a packet or a request in each phase. -/
def Sound : Prop :=
  match b.phase with
  | .limiting | .acquiring => b.slot = {}
  | .handling | .releasing => b.slot = ⟨[b.host], []⟩
  | .finished => b.slot.Settled b.host

theorem Sound.balanced {b : BriefSession} (h : b.Sound) : b.slot.Balanced b.host b.holds := by
  rcases b with ⟨host, phase, slot⟩
  cases phase with
  | limiting | acquiring => exact .inl h
  | handling | releasing | finished => exact h

def view : SessionView := ⟨b.host, b.slot, b.holds, b.stepsLeft⟩

theorem turn_spec {b : BriefSession} (l : Limiter) (allowed : Bool) (h : b.Sound) :
    b.view.Turn l (b.turn l allowed).1.view (b.turn l allowed).2 ∧ (b.turn l allowed).1.Sound := by
  rcases b with ⟨host, phase, slot⟩
  cases phase with
  | limiting =>
    cases allowed with
    | true => exact ⟨{}, h⟩
    | false => exact ⟨{}, .inl h⟩
  | acquiring =>
    have hslot : slot = {} := h
    simp only [turn]
    cases hok : (l.acquire host).1 with
    | false =>
      simp only [Bool.not_false, Limiter.acquire_eq_false hok]
      exact ⟨{}, .inl hslot⟩
    | true =>
      refine ⟨{ acquired := prefix_append _ _, slots := .acquire host hok (.refl _) }, ?_⟩
      rw [hslot]
      rfl
  | handling => exact ⟨{}, h⟩
  | releasing =>
    refine ⟨{ slots := .release host (.refl _) }, ?_⟩
    exact .inr (TcpServer.giveBack_held h)
  | finished => exact ⟨{}, h⟩

end BriefSession

/-! ## The system -/

namespace Traps

/-- The sources of all sessions that hold a slot. -/
def held (t : Traps) : List String :=
  t.tcp.flatMap TcpServer.held ++ t.http.flatMap (·.view.held) ++ t.brief.flatMap (·.view.held)

/-- The limiter counts the sessions that hold a slot, and every session is accounted for. -/
structure Accounted (t : Traps) : Prop where
  holds : t.limiter.Holds t.held
  tcp : ∀ s ∈ t.tcp, ∀ c ∈ s.conns, c.Sound
  http : ∀ c ∈ t.http, c.Sound
  brief : ∀ b ∈ t.brief, b.Sound

variable {t : Traps}

theorem slots_tcpStep (server : ℕ) (a : TcpAction) :
    SlotMove t.limiter t.held (t.tcpStep server a).limiter (t.tcpStep server a).held := by
  unfold tcpStep
  cases hget : t.tcp[server]? with
  | none => exact .keep (.refl _)
  | some s =>
    have hmove := (set hget (s.effect_step t.limiter a).slots).among []
      (t.http.flatMap (·.view.held) ++ t.brief.flatMap (·.view.held))
    simpa [held] using hmove

theorem slots_httpTurn (h : t.Accounted) (id : ℕ) :
    SlotMove t.limiter t.held (t.httpTurn id).limiter (t.httpTurn id).held := by
  unfold httpTurn
  cases hget : t.http[id]? with
  | none => exact .keep (.refl _)
  | some c =>
    have hturn := (HttpConn.turn_spec t.limiter (h.http c (mem_of_getElem? hget))).1
    exact (set (f := (·.view.held)) hget hturn.slots).among ..

theorem slots_briefTurn (h : t.Accounted) (id : ℕ) (allowed : Bool) :
    SlotMove t.limiter t.held (t.briefTurn id allowed).limiter (t.briefTurn id allowed).held := by
  unfold briefTurn
  cases hget : t.brief[id]? with
  | none => exact .keep (.refl _)
  | some b =>
    have hturn := (turn_spec t.limiter allowed (h.brief b (mem_of_getElem? hget))).1
    have hmove := (set (f := (·.view.held)) hget hturn.slots).among
      (t.tcp.flatMap TcpServer.held ++ t.http.flatMap (·.view.held)) []
    simpa [held] using hmove

/-- One step of any trap keeps, takes or gives back one slot. -/
theorem slots_step (h : t.Accounted) (a : TrapAction) :
    SlotMove t.limiter t.held (t.step a).limiter (t.step a).held := by
  cases a with
  | tcp server a => exact slots_tcpStep _ a
  | httpTurn id => exact slots_httpTurn h id
  | briefTurn id allowed => exact slots_briefTurn h id allowed
  | accept host =>
    apply keep
    simp [step, held, HttpConn.view, HttpConn.holds, SessionView.held]
  | packet | request =>
    apply keep
    simp [step, held, view, holds, SessionView.held]

theorem Accounted.step (h : t.Accounted) (a : TrapAction) : (t.step a).Accounted := by
  have hholds := h.holds.move (slots_step h a)
  cases a with
  | tcp server a =>
    simp only [Traps.step, tcpStep] at hholds ⊢
    cases hget : t.tcp[server]? with
    | none => exact h
    | some s =>
      rw [hget] at hholds
      have hsound := (s.effect_step t.limiter a).sound (h.tcp s (mem_of_getElem? hget))
      exact ⟨hholds, forall_set h.tcp hsound, h.http, h.brief⟩
  | httpTurn id =>
    simp only [Traps.step, httpTurn] at hholds ⊢
    cases hget : t.http[id]? with
    | none => exact h
    | some c =>
      rw [hget] at hholds
      have hsound := (HttpConn.turn_spec t.limiter (h.http c (mem_of_getElem? hget))).2
      exact ⟨hholds, h.tcp, forall_set h.http hsound, h.brief⟩
  | briefTurn id allowed =>
    simp only [Traps.step, briefTurn] at hholds ⊢
    cases hget : t.brief[id]? with
    | none => exact h
    | some b =>
      rw [hget] at hholds
      have hsound :=
        (turn_spec t.limiter allowed (h.brief b (mem_of_getElem? hget))).2
      exact ⟨hholds, h.tcp, h.http, forall_set h.brief hsound⟩
  | accept host => exact ⟨hholds, h.tcp, forall_concat h.http rfl, h.brief⟩
  | packet | request => exact ⟨hholds, h.tcp, h.http, forall_concat h.brief rfl⟩

theorem Accounted.start (maxGlobal maxPerIP : ℤ) (servers : ℕ) :
    (Traps.start maxGlobal maxPerIP servers).Accounted where
  holds := by
    have hnone : (Traps.start maxGlobal maxPerIP servers).held = [] := by
      simp [held, Traps.start, TcpServer.held]
    rw [hnone]
    exact Limiter.holds_new ..
  tcp := by
    intro s hs c hc
    rw [eq_of_mem_replicate hs] at hc
    cases hc
  http := by simp [Traps.start]
  brief := by simp [Traps.start]

/-! ## Single sessions along a run -/

end Traps

/-- A session of one of the traps. -/
inductive SessionId where
  | tcp (server id : ℕ)
  | http (id : ℕ)
  | brief (id : ℕ)
deriving DecidableEq

/-- The action is a turn of the session. -/
def TrapAction.isTurnOf : SessionId → TrapAction → Bool
  | .tcp server id, .tcp server' (.turn id' _) => server = server' && id = id'
  | .http id, .httpTurn id' => id = id'
  | .brief id, .briefTurn id' _ => id = id'
  | _, _ => false

namespace Traps

def session? (t : Traps) : SessionId → Option SessionView
  | .tcp server id => (t.tcp[server]?.bind fun s ↦ s.conns[id]?).map TcpConn.view
  | .http id => t.http[id]?.map HttpConn.view
  | .brief id => t.brief[id]?.map view

variable {t : Traps} {v : SessionView}

variable {who : SessionId} {id : ℕ}

theorem Accounted.balanced (h : t.Accounted) (hv : t.session? who = some v) :
    v.slot.Balanced v.host v.holds ∧ v.stepsLeft ≤ 9 ∧ (v.stepsLeft = 0 → v.holds = false) := by
  cases who with
  | tcp server id =>
    rcases map_eq_some_iff.mp hv with ⟨c, hc, rfl⟩
    rcases bind_eq_some_iff.mp hc with ⟨s, hs, hc⟩
    have hsound := h.tcp s (mem_of_getElem? hs) c (mem_of_getElem? hc)
    refine ⟨hsound.balanced, ?_, ?_⟩
    · simp only [TcpConn.view]
      cases c.phase <;> decide
    · simp only [TcpConn.view]
      cases c.phase <;> decide
  | http id =>
    rcases map_eq_some_iff.mp hv with ⟨c, hc, rfl⟩
    have hsound := h.http c (mem_of_getElem? hc)
    refine ⟨hsound.balanced, ?_, ?_⟩
    · simp only [HttpConn.view, HttpConn.stepsLeft]
      split <;> decide
    · simp only [HttpConn.view, HttpConn.stepsLeft, HttpConn.holds]
      cases c.phase <;> simp
  | brief id =>
    rcases map_eq_some_iff.mp hv with ⟨b, hb, rfl⟩
    have hsound := h.brief b (mem_of_getElem? hb)
    refine ⟨hsound.balanced, ?_, ?_⟩
    · simp only [BriefSession.view, BriefSession.stepsLeft]
      split <;> decide
    · simp only [BriefSession.view, BriefSession.stepsLeft, BriefSession.holds]
      cases b.phase <;> simp

/-- What a step does to a session: it goes on, and is nearer to its end after a turn of its own. -/
def Advances (t' : Traps) (who : SessionId) (own : Bool) (v : SessionView) : Prop :=
  ∃ v', t'.session? who = some v' ∧ v.Later v' ∧ (own = true → v'.stepsLeft ≤ v.stepsLeft - 1)

theorem advances_same {t' : Traps} {own : Bool} (hv : t.session? who = some v)
    (hsame : t'.session? who = t.session? who) (hother : own = false := by rfl) :
    Advances t' who own v :=
  ⟨v, hsame.trans hv, .refl v, fun hown ↦ Bool.noConfusion (hother.symm.trans hown)⟩

theorem advances_tcp {server : ℕ} (hv : t.session? (.tcp server id) = some v) (a : TcpAction) :
    Advances (t.tcpStep server a) (.tcp server id) (isTurnOf (.tcp server id)
      (.tcp server a)) v := by
  rcases map_eq_some_iff.mp hv with ⟨c, hc, rfl⟩
  rcases bind_eq_some_iff.mp hc with ⟨s, hs, hget⟩
  have hnext : ∀ c', (s.step t.limiter a).1.conns[id]? = some c' →
      (t.tcpStep server a).session? (.tcp server id) = some c'.view := by
    intro c' hc'
    simp only [session?, tcpStep, hs]
    rw [get_set hs, bind_some, hc']
    rfl
  by_cases hown : isTurnOf (.tcp server id) (.tcp server a) = true
  · cases a with
    | turn id' shunned =>
      have hid : id = id' := by simpa [isTurnOf] using hown
      rcases TcpServer.connStep_spec (l := t.limiter) hget shunned with ⟨c', hstep⟩
      have hget' : (s.step t.limiter (.turn id' shunned)).1.conns[id]? = some c' := by
        rw [← hid]
        simp only [TcpServer.step, TcpServer.turn, hget]
        rw [TcpServer.conns_resumeStart, hstep.conns, get_set hget]
      have hlater := hstep.later
      exact ⟨c'.view, hnext c' hget', ⟨hlater.host, hlater.acquired, hlater.less⟩,
        fun _ ↦ hstep.less⟩
    | _ => exact absurd hown (by simp [isTurnOf])
  · rcases (s.effect_step t.limiter a).passes id with ⟨hbefore, hafter, hlater, _⟩ | ⟨hnone, _⟩ |
      ⟨host, hnone, _⟩
    · rw [hget, some.injEq] at hbefore
      rw [← hbefore] at hlater
      exact ⟨_, hnext _ hafter, ⟨hlater.host, hlater.acquired, hlater.less⟩,
        fun h ↦ absurd h hown⟩
    · cases hget.symm.trans hnone
    · cases hget.symm.trans hnone

theorem advances_http (h : t.Accounted) (hv : t.session? (.http id) = some v) (own : Bool) :
    Advances (t.httpTurn id) (.http id) own v := by
  rcases map_eq_some_iff.mp hv with ⟨c, hget, rfl⟩
  have hturn := (HttpConn.turn_spec t.limiter (h.http c (mem_of_getElem? hget))).1
  refine ⟨(c.turn _).1.view, ?_, hturn.later, fun _ ↦ hturn.less⟩
  simp only [session?, httpTurn, hget]
  rw [get_set hget]
  rfl

theorem advances_brief (h : t.Accounted) (hv : t.session? (.brief id) = some v)
    (allowed own : Bool) : Advances (t.briefTurn id allowed) (.brief id) own v := by
  rcases map_eq_some_iff.mp hv with ⟨b, hget, rfl⟩
  have hturn := (turn_spec t.limiter allowed (h.brief b (mem_of_getElem? hget))).1
  refine ⟨(b.turn ..).1.view, ?_, hturn.later, fun _ ↦ hturn.less⟩
  simp only [session?, briefTurn, hget]
  rw [get_set hget]
  rfl

/-- The sessions of one kind are only added to by the steps of the other kinds. -/
theorem http_longer {a : TrapAction} (hother : ∀ id, a ≠ .httpTurn id) :
    t.http <+: (t.step a).http := by
  cases a with
  | httpTurn id => exact absurd rfl (hother id)
  | accept host => exact prefix_append ..
  | tcp server a =>
    simp only [step, tcpStep]
    split <;> exact prefix_refl _
  | briefTurn id allowed =>
    simp only [step, briefTurn]
    split <;> exact prefix_refl _
  | packet | request => exact prefix_refl _

theorem brief_longer {a : TrapAction} (hother : ∀ id allowed, a ≠ .briefTurn id allowed) :
    t.brief <+: (t.step a).brief := by
  cases a with
  | briefTurn id allowed => exact absurd rfl (hother id allowed)
  | packet | request => exact prefix_append ..
  | tcp server a =>
    simp only [step, tcpStep]
    split <;> exact prefix_refl _
  | httpTurn id =>
    simp only [step, httpTurn]
    split <;> exact prefix_refl _
  | accept host => exact prefix_refl _

theorem tcp_same {a : TrapAction} (hother : ∀ server b, a ≠ .tcp server b) :
    (t.step a).tcp = t.tcp := by
  cases a with
  | tcp server b => exact absurd rfl (hother server b)
  | httpTurn id =>
    simp only [step, httpTurn]
    split <;> rfl
  | briefTurn id allowed =>
    simp only [step, briefTurn]
    split <;> rfl
  | accept | packet | request => rfl

theorem advances_step_tcp {server : ℕ} (hv : t.session? (.tcp server id) = some v) (a : TrapAction) :
    Advances (t.step a) (.tcp server id) (a.isTurnOf (.tcp server id)) v := by
  cases a with
  | tcp server' b =>
    by_cases hserver : server = server'
    · rw [← hserver]
      exact advances_tcp hv b
    · refine advances_same hv ?_ (by cases b <;> simp [isTurnOf, hserver])
      simp only [step, tcpStep, session?]
      split
      · rfl
      · rw [getElem?_set_ne (Ne.symm hserver)]
  | _ =>
    apply advances_same hv
    simp only [session?]
    rw [tcp_same (fun _ _ h ↦ TrapAction.noConfusion h)]

theorem advances_step_http (h : t.Accounted) (hv : t.session? (.http id) = some v) (a : TrapAction) :
    Advances (t.step a) (.http id) (a.isTurnOf (.http id)) v := by
  rcases map_eq_some_iff.mp hv with ⟨c, hget, _⟩
  cases a with
  | httpTurn id' =>
    by_cases hid : id = id'
    · subst hid
      exact advances_http h hv _
    · refine advances_same hv ?_ (by simp [isTurnOf, hid])
      simp only [step, httpTurn, session?]
      split
      · rfl
      · rw [getElem?_set_ne (Ne.symm hid)]
  | _ =>
    apply advances_same hv
    simp only [session?]
    rw [get_of_longer (http_longer fun _ h ↦ TrapAction.noConfusion h) hget, hget]

theorem advances_step_brief (h : t.Accounted) (hv : t.session? (.brief id) = some v)
    (a : TrapAction) : Advances (t.step a) (.brief id) (a.isTurnOf (.brief id)) v := by
  rcases map_eq_some_iff.mp hv with ⟨b, hget, _⟩
  cases a with
  | briefTurn id' allowed =>
    by_cases hid : id = id'
    · subst hid
      exact advances_brief h hv _ _
    · refine advances_same hv ?_ (by simp [isTurnOf, hid])
      simp only [step, briefTurn, session?]
      split
      · rfl
      · rw [getElem?_set_ne (Ne.symm hid)]
  | _ =>
    apply advances_same hv
    simp only [session?]
    rw [get_of_longer (brief_longer fun _ _ h ↦ TrapAction.noConfusion h) hget, hget]

theorem advances_step (h : t.Accounted) (hv : t.session? who = some v) (a : TrapAction) :
    Advances (t.step a) who (a.isTurnOf who) v := by
  cases who with
  | tcp server id => exact advances_step_tcp hv a
  | http id => exact advances_step_http h hv a
  | brief id => exact advances_step_brief h hv a

/-- Along a run a session uses up its turns. -/
theorem advances_run (h : t.Accounted) (hv : t.session? who = some v) (later : List TrapAction) :
    ∃ v', (run step t later).session? who = some v' ∧ v.Later v' ∧
      v'.stepsLeft ≤ v.stepsLeft - later.countP (isTurnOf who) := by
  induction later generalizing t v with
  | nil => exact ⟨v, hv, .refl v, le_rfl⟩
  | cons a rest ih =>
    rcases advances_step h hv a with ⟨v', hv', hlater, hown⟩
    rcases ih (h.step a) hv' with ⟨v'', hv'', hlater', hleft⟩
    refine ⟨v'', hv'', hlater.trans hlater', ?_⟩
    rw [countP_cons]
    split
    · next hturn =>
      have hless := hown hturn
      omega
    · have hless := hlater.less
      omega

end Traps

variable (maxGlobal maxPerIP : ℤ) (servers : ℕ) (actions : List TrapAction)

theorem trapsAfter_accounted : (trapsAfter maxGlobal maxPerIP servers actions).Accounted :=
  run_invariant_untimed Traps.Accounted (fun _ a h ↦ h.step a) actions
    (.start maxGlobal maxPerIP servers)

theorem trapsAfter_limits :
    (trapsAfter maxGlobal maxPerIP servers actions).limiter.maxGlobal = maxGlobal ∧
      (trapsAfter maxGlobal maxPerIP servers actions).limiter.maxPerIP = maxPerIP := by
  have hinv : (trapsAfter maxGlobal maxPerIP servers actions).Accounted ∧
      (trapsAfter maxGlobal maxPerIP servers actions).limiter.maxGlobal = maxGlobal ∧
      (trapsAfter maxGlobal maxPerIP servers actions).limiter.maxPerIP = maxPerIP := by
    apply run_invariant_untimed (fun t : Traps ↦ t.Accounted ∧ t.limiter.maxGlobal = maxGlobal ∧
      t.limiter.maxPerIP = maxPerIP) _ _ ⟨.start maxGlobal maxPerIP servers, rfl, rfl⟩
    intro t a h
    have hlimits := (slots_step h.1 a).limits
    exact ⟨h.1.step a, hlimits.1.trans h.2.1, hlimits.2.trans h.2.2⟩
  exact hinv.2

/-- A session that has taken a slot and holds none any more has given that one back. -/
theorem slot_settled {v v' : SessionView} (hbefore : v.slot.Balanced v.host v.holds)
    (hheld : v.holds = true) (hlater : v.Later v') (hafter : v'.slot.Balanced v'.host v'.holds)
    (hfree : v'.holds = false) : v'.slot = ⟨[v.host], [v.host]⟩ := by
  rw [Slot.Balanced, if_pos hheld] at hbefore
  rw [hfree, hlater.host] at hafter
  rcases hafter with hunused | hsettled
  · have hlonger := hlater.acquired
    rw [hbefore, hunused] at hlonger
    exact absurd (prefix_nil.mp hlonger) (cons_ne_nil _ _)
  · exact hsettled

/-- In every reachable state the global counter is the sum of the counters of the sources and the
number of sessions that hold a slot, within the limits; the map has exactly the sources that hold a
slot, with positive counters within the limit of a source. For every session `Acquire` succeeds at
most once, and nine turns of the session later its slot was given back, once and for the same host. -/
theorem session_slots_accounted (maxGlobal maxPerIP : ℤ) (servers : ℕ)
    (actions : List TrapAction) :
    let t := trapsAfter maxGlobal maxPerIP servers actions
    t.limiter.global = total t.limiter.perIP ∧ t.limiter.global = t.held.length ∧
      (0 ≤ maxGlobal → t.limiter.global ≤ maxGlobal) ∧
      (∀ ip n, t.limiter.perIP.lookup ip = some n →
        0 < n ∧ n ≤ maxPerIP ∧ n = t.held.count ip) ∧
      ∀ who v, t.session? who = some v →
        (v.holds = true → v.slot = ⟨[v.host], []⟩) ∧
        (v.holds = false → v.slot = {} ∨ v.slot = ⟨[v.host], [v.host]⟩) ∧
        (v.holds = true → ∀ later : List TrapAction,
          9 ≤ later.countP (isTurnOf who) →
          ∃ v', (trapsAfter maxGlobal maxPerIP servers (actions ++ later)).session? who = some v' ∧
            v'.holds = false ∧ v'.slot = ⟨[v.host], [v.host]⟩) := by
  intro t
  have haccounted : t.Accounted := trapsAfter_accounted maxGlobal maxPerIP servers actions
  have hlimits := trapsAfter_limits maxGlobal maxPerIP servers actions
  have hholds := haccounted.holds
  refine ⟨?_, hholds.global, ?_, ?_, ?_⟩
  · rw [hholds.global, hholds.tallies.total_eq]
  · intro hnonneg
    rcases hholds.limit with hempty | hle
    · rw [hholds.global, hempty]
      exact hnonneg
    · exact hle.trans_eq hlimits.1
  · intro ip n hlookup
    have hcount : n = t.held.count ip := by
      rw [← hholds.tallies.counter_eq, counter, hlookup]
      rfl
    have hmem : ip ∈ t.held :=
      (hholds.tallies.mem_iff ip).mp (AList.lookup_isSome.mp (by rw [hlookup]; rfl))
    refine ⟨hholds.tallies.pos hlookup, ?_, hcount⟩
    rw [hcount]
    exact (hholds.source ip hmem).trans_eq hlimits.2
  · intro who v hv
    have hbalanced := haccounted.balanced hv
    refine ⟨?_, ?_, ?_⟩
    · intro hheld
      have hslot := hbalanced.1
      rw [Slot.Balanced, if_pos hheld] at hslot
      exact hslot
    · intro hfree
      have hslot := hbalanced.1
      rw [hfree] at hslot
      exact hslot
    · intro hheld later hturns
      rcases advances_run haccounted hv later with ⟨v', hv', hlater, hleft⟩
      have hv'' : (trapsAfter maxGlobal maxPerIP servers (actions ++ later)).session? who =
          some v' := by
        rw [trapsAfter, run_append]
        exact hv'
      have hend := (trapsAfter_accounted ..).balanced hv''
      have hfree : v'.holds = false := hend.2.2 (by omega)
      refine ⟨v', hv'', hfree, ?_⟩
      exact slot_settled hbalanced.1 hheld hlater hend.1 hfree

end RanHoneypot.Trap
