import RanHoneypot.Trap.SlotAccounting

/-!
# Stopping a TCP server

Once a `Stop` call has returned without an error the server is idle for good: no handler runs, every
connection that was dispatched is closed and the connection table is empty, and every dispatch that
was still on its way, or comes later, closes its connection without a handler and without a slot.

The reason is that a connection is put into the table and counted by the wait group in the critical
section in which `stopping` is read, so no connection is counted after `Stop` has set the flag. The
wait group then only goes down, and at zero there is no goroutine left that serves a connection.
-/

namespace RanHoneypot.Trap

open TimedRun List Threads

/-- The call has seen the end of the wait group. -/
def StopPhase.waited : StopPhase → Bool
  | woken => true
  | returned ok => ok
  | _ => false

namespace TcpServer

/-- The table has the connections in its phases, the wait group counts theirs, and a `Stop` call that
is past its critical section has set the flag; one that is past the wait has seen an idle server. -/
structure Registered (s : TcpServer) : Prop where
  sound : ∀ c ∈ s.conns, c.Sound
  wg : s.wg = s.conns.countP (·.phase.counted)
  table : ∀ id, id ∈ s.table ↔ ∃ c, s.conns[id]? = some c ∧ c.phase.inTable = true
  locked : ∀ phase ∈ s.stops, phase ≠ .locking → s.stopping = true
  waited : ∀ phase ∈ s.stops, phase.waited = true → s.wg = 0

variable {s : TcpServer}

variable {s' : TcpServer} {c : TcpConn}

theorem registered_fresh : ({} : TcpServer).Registered where
  sound := by simp
  wg := rfl
  table := by simp
  locked := by simp
  waited := by simp

section

variable (h : s.Registered)

include h

theorem Registered.inTable {id : ℕ} (hget : s.conns[id]? = some c) :
    id ∈ s.table ↔ c.phase.inTable = true := by
  rw [h.table id, hget]
  simp

/-- A step that only moves the accept loop. -/
theorem Registered.setStart (start : StartPhase) :
    ({ s with start := start } : TcpServer).Registered :=
  ⟨h.sound, h.wg, h.table, h.locked, h.waited⟩

theorem Registered.resumeStart (id : ℕ) : (s.resumeStart id).Registered := by
  unfold TcpServer.resumeStart
  split
  · exact h.setStart _
  · exact h

/-- A turn of a connection. No connection is counted anew while the server is stopping. -/
theorem Registered.connStep {l l' : Limiter} {id : ℕ} {c' : TcpConn} (hget : s.conns[id]? = some c)
    (hstep : ConnStep s l id c s' l' c') : s'.Registered := by
  have hcount := countP_set (fun c : TcpConn ↦ c.phase.counted) hget c'
  have hwg : s'.wg = s'.conns.countP (·.phase.counted) := by
    have hbefore := h.wg
    have hafter := hstep.wg
    rw [hstep.conns]
    omega
  exact
    { sound := by
        rw [hstep.conns]
        exact forall_set h.sound (hstep.sound (h.sound c (mem_of_getElem? hget)))
      wg := hwg
      table := by
        intro other
        rw [hstep.table (h.inTable hget), hstep.conns]
        split
        · next hother => simp [hother, get_set hget]
        · next hother => rw [getElem?_set_ne (Ne.symm hother), h.table]
      locked := by
        rw [hstep.stops, hstep.stopping]
        exact h.locked
      waited := by
        rw [hstep.stops]
        intro phase hphase hwaited
        have hzero := h.waited phase hphase hwaited
        have hstopping : s.stopping = true := by
          apply h.locked _ hphase
          intro hlocking
          rw [hlocking] at hwaited
          cases hwaited
        have hidle : c.phase.counted = false := by
          have hnone : s.conns.countP (·.phase.counted) = 0 := by
            have hwg' := h.wg
            omega
          have hmem := countP_eq_zero.mp hnone c (mem_of_getElem? hget)
          simpa using hmem
        have hidle' : c'.phase.counted = false := by
          by_contra hne
          have hcounted := hstep.admits hstopping (eq_true_of_ne_false hne)
          cases hidle.symm.trans hcounted
        have hafter := hstep.wg
        rw [hidle, hidle', hzero] at hafter
        simpa using hafter }

theorem Registered.turn (l : Limiter) (id : ℕ) (shunned : Bool) :
    (s.turn l id shunned).1.Registered := by
  unfold TcpServer.turn
  cases hget : s.conns[id]? with
  | none => exact h
  | some c =>
    rcases connStep_spec (l := l) hget shunned with ⟨c', hstep⟩
    exact (h.connStep hget hstep).resumeStart id

/-- Closing a connection does not move it. -/
theorem Registered.setClosed {id : ℕ} (hget : s.conns[id]? = some c) :
    (s.setConn id { c with closed := true }).Registered := by
  have hcount := countP_set (fun c : TcpConn ↦ c.phase.counted) hget { c with closed := true }
  have hsound := h.sound c (mem_of_getElem? hget)
  exact
    { sound := forall_set h.sound ((TcpConn.Later.setClosed c).sound hsound)
      wg := by
        have hbefore := h.wg
        simp only [setConn] at hcount ⊢
        omega
      table := by
        intro other
        by_cases hother : other = id
        · have hafter : (s.setConn id { c with closed := true }).conns[id]? =
              some { c with closed := true } := get_set hget
          rw [hother, hafter]
          exact (h.inTable hget).trans (by simp)
        · rw [setConn, getElem?_set_ne (Ne.symm hother)]
          exact h.table _
      locked := h.locked
      waited := h.waited }

theorem Registered.closeConn (id : ℕ) : (s.closeConn id).Registered := by
  unfold TcpServer.closeConn
  cases hget : s.conns[id]? with
  | none => exact h
  | some c => exact h.setClosed hget

theorem Registered.accept (host : String) : (s.accept host).Registered := by
  unfold TcpServer.accept
  split
  · exact
      { h with
        sound := forall_concat h.sound (sound_fresh host)
        wg := by
          rw [countP_concat, h.wg]
          rfl
        table := by
          intro id
          rw [get_concat _ _ id, h.table id]
          split
          · next hnew =>
            rw [hnew]
            simp [ConnPhase.inTable]
          · rfl }
  · exact h

/-- A `Stop` call moves on. -/
theorem Registered.setStop (call : ℕ) {phase : StopPhase} (hlocked : s.stopping = true)
    (hwaited : phase.waited = true → s.wg = 0) :
    (s.setStop call phase).Registered :=
  { h with locked := forall_set h.locked fun _ ↦ hlocked, waited := forall_set h.waited hwaited }

theorem Registered.setStopping : ({ s with stopping := true } : TcpServer).Registered :=
  ⟨h.sound, h.wg, h.table, fun _ _ _ ↦ rfl, h.waited⟩

end

theorem stops_closeConn (s : TcpServer) (id : ℕ) :
    (s.closeConn id).stops = s.stops ∧ (s.closeConn id).stopping = s.stopping := by
  unfold closeConn
  split <;> exact ⟨rfl, rfl⟩

theorem Registered.stopStep (h : s.Registered) (call : ℕ) : (s.stopStep call).Registered := by
  have hflag : ∀ phase, s.stops[call]? = some phase → phase ≠ .locking → s.stopping = true :=
    fun phase hget ↦ h.locked phase (mem_of_getElem? hget)
  unfold TcpServer.stopStep
  split
  · exact h.setStopping.setStop _ rfl nofun
  · next hget =>
    exact h.setStop _ (hflag _ hget (by simp)) nofun
  · next id rest hget =>
    have hstopping := hflag _ hget (by simp)
    rw [← (stops_closeConn s id).2] at hstopping
    exact (h.closeConn id).setStop call hstopping nofun
  · next hget =>
    split
    · next hzero => exact h.setStop _ (hflag _ hget (by simp)) fun _ ↦ hzero
    · exact h
  · next hget =>
    have hzero := h.waited _ (mem_of_getElem? hget) rfl
    exact h.setStop _ (hflag _ hget (by simp)) fun _ ↦ hzero
  · exact h

theorem Registered.stopTimeout (h : s.Registered) (call : ℕ) : (s.stopTimeout call).Registered := by
  have hflag : ∀ phase, s.stops[call]? = some phase → phase ≠ .locking → s.stopping = true :=
    fun phase hget ↦ h.locked phase (mem_of_getElem? hget)
  unfold TcpServer.stopTimeout
  split
  · next hget =>
    exact h.setStop _ (hflag _ hget (by simp)) nofun
  · next hget =>
    exact h.setStop _ (hflag _ hget (by simp)) nofun
  · exact h

theorem Registered.step (h : s.Registered) (l : Limiter) (a : TcpAction) :
    (s.step l a).1.Registered := by
  cases a with
  | turn id shunned => exact h.turn l id shunned
  | accept host => exact h.accept host
  | stopStep call => exact h.stopStep _
  | stopTimeout call => exact h.stopTimeout _
  | stop =>
    exact ⟨h.sound, h.wg, h.table,
      forall_concat h.locked fun hne ↦ absurd rfl hne,
      forall_concat h.waited nofun⟩
  | cancel => exact ⟨h.sound, h.wg, h.table, h.locked, h.waited⟩
  | afterFunc id =>
    simp only [TcpServer.step, afterFunc]
    cases hget : s.conns[id]? with
    | none => exact h
    | some c =>
      dsimp only
      split
      · exact h.setClosed hget
      · exact h
  | listen ok =>
    simp only [TcpServer.step, listen]
    split
    · exact h.setStart _
    · exact h
  | bind =>
    simp only [TcpServer.step, TcpServer.bind]
    split
    · exact h.setStart _
    · exact h
  | acceptError final =>
    simp only [TcpServer.step, acceptError]
    split
    · exact h.setStart _
    · exact h

/-! ## After the flag is set -/

/-- `s'` is the stopping server `s` some steps later: no further handler was started. -/
structure Since (s s' : TcpServer) : Prop where
  stopping : s'.stopping = true
  handled : ∀ (id : ℕ) (c' : TcpConn), s'.conns[id]? = some c' → c'.phase.handled = true →
    ∃ c : TcpConn, s.conns[id]? = some c ∧ c.phase.handled = true

theorem Since.refl (hstopping : s.stopping = true) : Since s s :=
  ⟨hstopping, fun _ c hget hhandled ↦ ⟨c, hget, hhandled⟩⟩

theorem Since.step (h : Since s s') (l : Limiter) (a : TcpAction) :
    Since s (s'.step l a).1 where
  stopping := (effect_step s' l a).stopping h.stopping
  handled := by
    intro id c'' hget hhandled
    rcases (effect_step s' l a).passes id with ⟨hbefore, hafter, _, hstarts⟩ | ⟨_, hnone⟩ | ⟨host, _, hafter⟩
    · rw [hget, Option.some.injEq] at hafter
      rw [hafter] at hhandled
      exact h.handled id _ hbefore (hstarts h.stopping hhandled)
    · cases hget.symm.trans hnone
    · rw [hget, Option.some.injEq] at hafter
      rw [hafter] at hhandled
      cases hhandled

/-- A connection that was not served when the flag was set never is. -/
theorem Since.unhandled (h : Since s s') {id : ℕ} {c' : TcpConn} (hget : s'.conns[id]? = some c')
    (hpending : ∀ c, s.conns[id]? = some c → c.phase.dispatching = true) :
    c'.phase.handled = false := by
  apply Bool.eq_false_iff.mpr
  intro hhandled
  rcases h.handled id c' hget hhandled with ⟨c, hbefore, hserved⟩
  have hdispatching := hpending c hbefore
  cases hphase : c.phase <;> rw [hphase] at hserved hdispatching <;>
    first | exact Bool.noConfusion hserved | cases hdispatching

/-- After a wait has ended no connection is being served. -/
theorem Registered.idle (h : s.Registered) (hstop : .returned true ∈ s.stops) :
    s.stopping = true ∧ ∀ c ∈ s.conns, c.phase.counted = false := by
  have hzero := h.waited _ hstop rfl
  have hnone : s.conns.countP (·.phase.counted) = 0 := by
    have hwg := h.wg
    omega
  refine ⟨h.locked _ hstop (by simp), ?_⟩
  intro c hc
  simpa using countP_eq_zero.mp hnone c hc

theorem Registered.idle_table (h : s.Registered) (hstop : .returned true ∈ s.stops) :
    s.table = [] := by
  apply eq_nil_iff_forall_not_mem.mpr
  intro id hid
  rcases (h.table id).mp hid with ⟨c, hget, hin⟩
  have hidle := (h.idle hstop).2 c (mem_of_getElem? hget)
  cases hphase : c.phase <;> rw [hphase] at hin hidle <;>
    first | exact Bool.noConfusion hin | cases hidle

end TcpServer

/-- A connection without a handler whose dispatch has returned was closed and holds no slot. -/
theorem TcpConn.Sound.turnedAway {c : TcpConn} (h : c.Sound) (hunhandled : c.phase.handled = false)
    (hreturned : c.phase.dispatching = false) :
    c.phase = .turnedAway ∧ c.closed = true ∧ c.slot.released = c.slot.acquired := by
  have hphase : c.phase = .turnedAway := by
    cases hphase : c.phase <;> rw [hphase] at hunhandled hreturned <;>
      first | rfl | exact Bool.noConfusion hunhandled | cases hreturned
  refine ⟨hphase, h.closed (by rw [hphase]; rfl), ?_⟩
  have haccount := h.account
  rw [TcpConn.Account, hphase] at haccount
  rcases haccount with hunused | hsettled
  · rw [hunused]
  · rw [hsettled]

/-! ## Whole runs -/

namespace Traps

variable {t : Traps} {i : ℕ} {s : TcpServer}

/-- What every step of a server keeps is kept by every run of the traps. -/
theorem server_run (property : TcpServer → Prop)
    (hstep : ∀ s l a, property s → property (TcpServer.step s l a).1) (hget : t.tcp[i]? = some s)
    (hs : property s) (later : List TrapAction) :
    ∃ s', (run Traps.step t later).tcp[i]? = some s' ∧ property s' := by
  induction later generalizing t s with
  | nil => exact ⟨s, hget, hs⟩
  | cons a rest ih =>
    by_cases htcp : ∃ b, a = .tcp i b
    · rcases htcp with ⟨b, rfl⟩
      apply ih (s := (s.step _ b).1) _ (hstep s t.limiter b hs)
      simp only [Traps.step, tcpStep, hget]
      exact get_set hget
    · apply ih _ hs
      cases a with
      | tcp server b =>
        have hserver : server ≠ i := fun h ↦ htcp ⟨b, by rw [h]⟩
        simp only [Traps.step, tcpStep]
        split
        · exact hget
        · rw [getElem?_set_ne hserver, hget]
      | _ => rw [tcp_same (fun _ _ h ↦ TrapAction.noConfusion h), hget]

end Traps

theorem trapsAfter_registered (maxGlobal maxPerIP : ℤ) (servers : ℕ) (actions : List TrapAction) :
    ∀ s ∈ (trapsAfter maxGlobal maxPerIP servers actions).tcp, s.Registered := by
  apply run_invariant_untimed (fun t : Traps ↦ ∀ s ∈ t.tcp, s.Registered) _ _
  · intro s hs
    rw [eq_of_mem_replicate hs]
    exact TcpServer.registered_fresh
  · intro t a h
    cases a with
    | tcp server b =>
      simp only [Traps.step, Traps.tcpStep]
      split
      · exact h
      · next s hget =>
        exact forall_set h ((h s (mem_of_getElem? hget)).step t.limiter b)
    | _ =>
      rw [Traps.tcp_same (fun _ _ h ↦ TrapAction.noConfusion h)]
      exact h

section

variable {maxGlobal maxPerIP : ℤ} {servers i : ℕ} {earlier : List TrapAction} {s : TcpServer}
  (hs : (trapsAfter maxGlobal maxPerIP servers earlier).tcp[i]? = some s)

include hs

/-- The server of a longer run is the one of the shorter run some steps later. -/
theorem trapsAfter_since {later : List TrapAction} {s' : TcpServer}
    (hs' : (trapsAfter maxGlobal maxPerIP servers (earlier ++ later)).tcp[i]? = some s')
    (hstopping : s.stopping = true) : TcpServer.Since s s' := by
  rcases Traps.server_run (TcpServer.Since s) (fun _ l a h ↦ h.step l a) hs
    (.refl hstopping) later with ⟨s'', hget, hsince⟩
  rw [trapsAfter, run_append] at hs'
  rw [Option.some.inj (hs'.symm.trans hget)]
  exact hsince

/-- A connection that is given nine turns is dispatched, and served if it was admitted. -/
theorem trapsAfter_dispatched {id : ℕ} {c : TcpConn} (hc : s.conns[id]? = some c)
    {later : List TrapAction} (hturns : 9 ≤ later.countP (TrapAction.isTurnOf (.tcp i id))) :
    ∃ s' c', (trapsAfter maxGlobal maxPerIP servers (earlier ++ later)).tcp[i]? = some s' ∧
      s'.conns[id]? = some c' ∧ c'.phase.dispatching = false := by
  have haccounted := trapsAfter_accounted maxGlobal maxPerIP servers earlier
  have hv : (trapsAfter maxGlobal maxPerIP servers earlier).session? (.tcp i id) =
      some c.view := by
    simp [Traps.session?, hs, hc]
  rcases Traps.advances_run haccounted hv later with ⟨v', hv', -, hleft⟩
  rcases Option.map_eq_some_iff.mp hv' with ⟨c', hbind, rfl⟩
  rcases Option.bind_eq_some_iff.mp hbind with ⟨s', hs', hc'⟩
  have hbound := (haccounted.balanced hv).2.1
  have hzero : c'.phase.stepsLeft = 0 := by
    have hview : c'.view.stepsLeft = c'.phase.stepsLeft := rfl
    omega
  refine ⟨s', c', ?_, hc', ?_⟩
  · rw [trapsAfter, run_append]
    exact hs'
  · cases hphase : c'.phase <;> rw [hphase] at hzero <;>
      first | rfl | cases hzero

end

/-- Once a `Stop` call has returned nil, no handler runs, every connection whose dispatch has returned
is closed and the table is empty. A connection that is still being dispatched, or is accepted later,
never gets a handler; when its dispatch returns, and it does so within nine turns, the connection is
closed and its slot, if it took one, given back. -/
theorem tcp_server_stopped (maxGlobal maxPerIP : ℤ) (servers i : ℕ) (earlier later : List TrapAction)
    (s s' : TcpServer) (hs : (trapsAfter maxGlobal maxPerIP servers earlier).tcp[i]? = some s)
    (hs' : (trapsAfter maxGlobal maxPerIP servers (earlier ++ later)).tcp[i]? = some s')
    (hstop : .returned true ∈ s.stops) :
    (∀ c ∈ s.conns, c.phase ≠ .serving) ∧
      (∀ c ∈ s.conns, c.phase.dispatching = false → c.closed = true) ∧ s.table = [] ∧
      ∀ id c', s'.conns[id]? = some c' →
        (∀ c, s.conns[id]? = some c → c.phase.dispatching = true) →
        c'.handled = false ∧
        (c'.phase.dispatching = false →
          c'.closed = true ∧ c'.slot.released = c'.slot.acquired) ∧
        ∀ more : List TrapAction, 9 ≤ more.countP (TrapAction.isTurnOf (.tcp i id)) →
          ∃ s'' c'', (trapsAfter maxGlobal maxPerIP servers
              (earlier ++ later ++ more)).tcp[i]? = some s'' ∧
            s''.conns[id]? = some c'' ∧ c''.handled = false ∧ c''.closed = true ∧
            c''.slot.released = c''.slot.acquired := by
  have hregistered := trapsAfter_registered maxGlobal maxPerIP servers earlier s
    (mem_of_getElem? hs)
  have hidle := hregistered.idle hstop
  refine ⟨?_, ?_, hregistered.idle_table hstop, ?_⟩
  · intro c hc hserving
    have hcounted := hidle.2 c hc
    rw [hserving] at hcounted
    cases hcounted
  · intro c hc hreturned
    have hcounted := hidle.2 c hc
    apply (hregistered.sound c hc).closed
    cases hphase : c.phase <;> rw [hphase] at hcounted hreturned <;>
      first | rfl | exact Bool.noConfusion hcounted | cases hreturned
  · intro id c' hget' hpending
    have hunhandled := (trapsAfter_since hs hs' hidle.1).unhandled hget' hpending
    have hsound := (trapsAfter_registered _ _ _ _ s'
      (mem_of_getElem? hs')).sound c' (mem_of_getElem? hget')
    refine ⟨hsound.handled.trans hunhandled, fun h ↦ (hsound.turnedAway hunhandled h).2, ?_⟩
    intro more hturns
    rcases trapsAfter_dispatched hs' hget' hturns with ⟨s'', c'', hs'', hget'', hreturned⟩
    have hsound'' := (trapsAfter_registered _ _ _ _ _
      (mem_of_getElem? hs'')).sound c'' (mem_of_getElem? hget'')
    rw [append_assoc] at hs''
    have hunhandled'' := (trapsAfter_since hs hs'' hidle.1).unhandled hget'' hpending
    refine ⟨s'', c'', ?_, hget'', hsound''.handled.trans hunhandled'',
      (hsound''.turnedAway hunhandled'' hreturned).2⟩
    rw [append_assoc]
    exact hs''

/-- A connection is served and ended by `Stop`, a second one is accepted after `Stop` has returned. -/
theorem tcp_server_stopped_twice :
    let earlier : List TrapAction := [.tcp 0 (.listen true), .tcp 0 .bind, .tcp 0 (.accept "a")] ++
      List.replicate 4 (.tcp 0 (.turn 0 false)) ++ [.tcp 0 .stop] ++
      List.replicate 3 (.tcp 0 (.stopStep 0)) ++ List.replicate 5 (.tcp 0 (.turn 0 false)) ++
      List.replicate 2 (.tcp 0 (.stopStep 0))
    let later : List TrapAction :=
      .tcp 0 (.accept "b") :: List.replicate 6 (.tcp 0 (.turn 1 false))
    ∃ s s', (trapsAfter 8 4 1 earlier).tcp[0]? = some s ∧
      (trapsAfter 8 4 1 (earlier ++ later)).tcp[0]? = some s' ∧ .returned true ∈ s.stops ∧
      s.table = [] ∧ ∃ c', s'.conns[1]? = some c' ∧ c'.closed = true ∧
        c'.slot = ⟨["b"], ["b"]⟩ ∧ c'.handled = false := by
  intro earlier later
  let s : TcpServer :=
    { stopping := true, conns := [⟨"a", .served, true, true, ⟨["a"], ["a"]⟩⟩],
      start := .accepting, stops := [.returned true] }
  let c' : TcpConn := ⟨"b", .turnedAway, true, false, ⟨["b"], ["b"]⟩⟩
  have hs : (trapsAfter 8 4 1 earlier).tcp[0]? = some s := by decide
  have hs' : (trapsAfter 8 4 1 (earlier ++ later)).tcp[0]? =
      some { s with conns := s.conns ++ [c'] } := by decide
  have hstop : .returned true ∈ s.stops := by decide
  have hstopped := tcp_server_stopped 8 4 1 0 earlier later s _ hs hs' hstop
  refine ⟨s, _, hs, hs', hstop, hstopped.2.2.1, c', rfl, rfl, rfl, ?_⟩
  exact (hstopped.2.2.2 1 c' rfl (by simp [s])).1

end RanHoneypot.Trap
