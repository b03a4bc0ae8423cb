import RanHoneypot.Trap.ProxySafety

/-!
# Handshakes and `Close` of the PROXY listener

A raw connection is at most eight turns away from its end, in which it is handed to an `Accept` call or
closed. Two of the turns need the mutex. Only `Close` keeps it over more than one step, and its critical
section closes the connections registered at its start one by one, so it ends.
-/

namespace RanHoneypot.Trap

open TimedRun List

open Config (SocketAddr)

/-- The action is a turn of connection `id`. -/
def ProxyAction.isTurnOf (id : ℕ) : ProxyAction → Bool
  | turn other _ _ => decide (other = id)
  | _ => false

namespace ProxyClosePhase

/-- The call holds the mutex. -/
def locked : ProxyClosePhase → Bool
  | closingDone | closingPending _ | unlocking => true
  | _ => false

/-- How many steps the call takes at most to the end of its critical section, with `pending` connections
registered. -/
def lockLeft (pending : ℕ) : ProxyClosePhase → ℕ
  | closingDone => pending + 3
  | closingPending rest => rest.length + 2
  | unlocking => 1
  | _ => 0

end ProxyClosePhase

/-- The function of `closeOnce` holds the mutex. -/
def lockHeld : Once ProxyClosePhase → Bool
  | .running _ phase => phase.locked
  | _ => false

/-- The function of `closeOnce` is behind its critical section. -/
def lockPast : Once ProxyClosePhase → Bool
  | .running _ .closingListener => true
  | .finished => true
  | _ => false

theorem lockHeld_of_past {once : Once ProxyClosePhase} (hpast : lockPast once = true) :
    lockHeld once = false := by
  cases once with
  | unused | finished => rfl
  | running call phase => cases phase <;> first | rfl | cases hpast

theorem ProxyClosePhase.lockLeft_pos {phase : ProxyClosePhase} (hlocked : phase.locked = true)
    (pending : ℕ) : 0 < phase.lockLeft pending := by
  cases phase <;> first | exact Nat.succ_pos _ | cases hlocked

namespace ProxyListener

variable {trusts : SocketAddr → Bool} {p p' : ProxyListener} {id call : ℕ} {c : RawConn}

/-! ## The end of a connection -/

/-- What every step keeps that is not a step of a `Close` call. -/
structure Beside (p p' : ProxyListener) : Prop where
  mu : p'.mu = p.mu := by rfl
  closeOnce : p'.closeOnce = p.closeOnce := by rfl
  closes : p'.closes = p.closes ∨ p'.closes = p.closes ++ [.calling] := by exact .inl rfl
  pending : p.mu = true → p'.pending = p.pending := by exact fun _ ↦ rfl

/-- Every connection is in the same phase as before. -/
def SamePhases (p p' : ProxyListener) : Prop :=
  ∀ (id : ℕ) (c : RawConn), p.conns[id]? = some c →
    ∃ c', p'.conns[id]? = some c' ∧ c'.phase = c.phase

theorem samePhases_of_eq (hconns : p'.conns = p.conns) : SamePhases p p' := by
  intro id c hget
  exact ⟨c, by rw [hconns, hget], rfl⟩

theorem samePhases_set {d d' : RawConn} (hd : p.conns[id]? = some d)
    (hconns : p'.conns = p.conns.set id d') (hphase : d'.phase = d.phase) : SamePhases p p' := by
  intro other c hget
  rw [hconns]
  by_cases hown : id = other
  · subst hown
    rw [hget, Option.some.injEq] at hd
    exact ⟨d', Threads.get_set hget, hphase.trans (congrArg _ hd.symm)⟩
  · exact ⟨c, by rw [getElem?_set_ne hown, hget], rfl⟩

/-- What every step keeps that is neither a step of a `Close` call nor a turn of a connection. -/
structure Quiet (p p' : ProxyListener) : Prop extends Beside p p' where
  phases : SamePhases p p' := by exact samePhases_of_eq rfl

theorem quiet_step (p : ProxyListener) {a : ProxyAction} (hturn : ∀ id ok choice, a ≠ .turn id ok choice)
    (hclose : ∀ call, a ≠ .closeStep call) : Quiet p (p.step trusts a) := by
  cases a with
  | turn id ok choice => exact absurd rfl (hturn id ok choice)
  | closeStep call => exact absurd rfl (hclose call)
  | accept => exact {}
  | acceptFails call =>
    simp only [step, acceptFails]
    split
    · split <;> exact {}
    · exact {}
  | rawConn peer =>
    simp only [step, rawConn]
    split
    · exact { phases := fun _ c hget ↦ ⟨c, Threads.get_of_longer (prefix_append ..) hget, rfl⟩ }
    · exact {}
  | rawError final =>
    simp only [step, rawError]
    split
    · split <;> exact {}
    · exact {}
  | backOff preferDone =>
    simp only [step, backOff]
    split
    · split <;> exact {}
    · exact {}
  | read other bytes =>
    simp only [step, read]
    cases hd : p.conns[other]? with
    | none => exact {}
    | some d =>
      dsimp only
      split
      · exact { phases := samePhases_set hd rfl rfl }
      · exact {}
  | close => exact { closes := .inr rfl }

theorem samePhases_closeBody (call : ℕ) (phase : ProxyClosePhase) :
    SamePhases p (p.closeBody call phase) := by
  cases phase with
  | locking =>
    simp only [closeBody]
    split <;> exact samePhases_of_eq rfl
  | closingPending rest =>
    cases rest with
    | nil => exact samePhases_of_eq rfl
    | cons other rest =>
      simp only [closeBody, closeConn]
      cases hd : p.conns[other]? with
      | none => exact samePhases_of_eq rfl
      | some d => exact samePhases_set hd rfl rfl
  | closingDone | unlocking | closingListener => exact samePhases_of_eq rfl

theorem samePhases_closeStep (call : ℕ) : SamePhases p (p.closeStep call) := by
  unfold closeStep
  split
  · split
    · exact samePhases_of_eq rfl
    · split
      · exact samePhases_closeBody _ _
      · exact samePhases_of_eq rfl
    · exact samePhases_of_eq rfl
  · exact samePhases_of_eq rfl

/-- A step that is not a turn of a connection keeps the phases of the connections. -/
theorem phase_step (p : ProxyListener) {a : ProxyAction}
    (hother : ∀ id ok choice, a ≠ .turn id ok choice) : SamePhases p (p.step trusts a) := by
  cases a with
  | closeStep call => exact samePhases_closeStep call
  | _ => exact (quiet_step p hother nofun).phases

/-- A goroutine that waits for the mutex has no turn. -/
def TurnsFree (id : ℕ) (p : ProxyListener) (a : ProxyAction) : Prop :=
  a.isTurnOf id = true → p.mu = false

/-- One step: a connection comes closer to its end with each turn of its own. -/
theorem Guarded.conn_step (h : p.Guarded trusts) (hget : p.conns[id]? = some c) {a : ProxyAction}
    (hfree : TurnsFree id p a) : ∃ c', (p.step trusts a).conns[id]? = some c' ∧
      c'.phase.stepsLeft ≤ c.phase.stepsLeft - (a.isTurnOf id).toNat := by
  cases a with
  | turn other ok choice =>
    by_cases hown : other = id
    · subst hown
      have hturn : (ProxyAction.turn _ ok choice).isTurnOf other = true := decide_eq_true rfl
      rcases h.turn_spec hget ok choice with ⟨c', hstep, hless⟩
      refine ⟨c', ?_, ?_⟩
      · rw [ProxyListener.step, hstep.conns, Threads.get_set hget]
      · rw [hturn]
        exact hless (hfree hturn)
    · have hother : (ProxyAction.turn _ ok choice).isTurnOf id = false := decide_eq_false hown
      rw [hother]
      refine ⟨c, ?_, le_rfl⟩
      cases hd : p.conns[other]? with
      | none => rw [ProxyListener.step, ProxyListener.turn, hd, hget]
      | some d =>
        rcases h.turn_spec hd ok choice with ⟨d', hstep, -⟩
        rw [ProxyListener.step, hstep.conns, getElem?_set_ne hown, hget]
  | _ =>
    refine Exists.imp (fun c' hkept ↦ ⟨hkept.1, (congrArg _ hkept.2).le⟩)
      (phase_step p ?_ _ _ hget)
    exact fun _ _ _ ↦ ProxyAction.noConfusion

/-- Along a run every turn of a connection counts. -/
theorem Guarded.conn_run (h : p.Guarded trusts) (hget : p.conns[id]? = some c)
    {later : List ProxyAction}
    (hfree : Along (ProxyListener.step trusts) (TurnsFree id) p later) :
    ∃ c', (run (ProxyListener.step trusts) p later).conns[id]? = some c' ∧
      c'.phase.stepsLeft ≤ c.phase.stepsLeft - later.countP (·.isTurnOf id) := by
  induction later generalizing p c with
  | nil => exact ⟨c, hget, le_rfl⟩
  | cons a rest ih =>
    rcases h.conn_step hget hfree.1 with ⟨c', hget', hless⟩
    rcases ih (h.step a) hget' hfree.2 with ⟨c'', hget'', hless'⟩
    have hcount : (a :: rest).countP (·.isTurnOf id) =
        rest.countP (·.isTurnOf id) + (a.isTurnOf id).toNat := by
      rw [countP_cons]
      cases a.isTurnOf id <;> rfl
    refine ⟨c'', hget'', hless'.trans ?_⟩
    omega

/-! ## The mutex -/

/-- The calls of `Close` and the mutex, which only the function of `closeOnce` holds between steps. -/
structure Calls (p : ProxyListener) : Prop where
  returned : .returned ∈ p.closes → p.closeOnce = .finished
  caller : ∀ call phase, p.closeOnce = .running call phase → p.closes[call]? = some .calling
  mutex : p.mu = lockHeld p.closeOnce

theorem calls_fresh : ({} : ProxyListener).Calls where
  returned := by simp
  caller := by simp
  mutex := rfl

theorem RawStep.beside {c' : RawConn} (h : RawStep trusts p id c p' c') : Beside p p' :=
  ⟨h.mu, h.closeOnce, .inl h.closes, h.locked⟩

theorem Guarded.beside_step (h : p.Guarded trusts) {a : ProxyAction}
    (hother : ∀ call, a ≠ .closeStep call) : Beside p (p.step trusts a) := by
  cases a with
  | closeStep call => exact absurd rfl (hother call)
  | turn other ok choice =>
    cases hget : p.conns[other]? with
    | none =>
      have hsame : p.turn trusts other ok choice = p := by rw [ProxyListener.turn, hget]
      rw [ProxyListener.step, hsame]
      exact {}
    | some d =>
      rcases h.turn_spec hget ok choice with ⟨d', hstep, -⟩
      exact hstep.beside
  | _ => exact (quiet_step p (fun _ _ _ ↦ ProxyAction.noConfusion) hother).toBeside

theorem Calls.beside (h : p.Calls) (hbeside : Beside p p') : p'.Calls where
  returned := by
    intro hmem
    rw [hbeside.closeOnce]
    apply h.returned
    rcases hbeside.closes with hcloses | hcloses
    · rwa [hcloses] at hmem
    · rw [hcloses] at hmem
      simpa using hmem
  caller := by
    intro call phase hphase
    rw [hbeside.closeOnce] at hphase
    have hcall := h.caller call phase hphase
    rcases hbeside.closes with hcloses | hcloses
    · rw [hcloses, hcall]
    · rw [hcloses, Threads.get_of_longer (prefix_append ..) hcall]
  mutex := by rw [hbeside.mu, hbeside.closeOnce, h.mutex]

/-- One step of the function that `closeOnce` runs: it goes on, or has returned. -/
theorem closeBody_spec (p : ProxyListener) (call : ℕ) (phase : ProxyClosePhase)
    (hmutex : p.mu = phase.locked) : (p.closeBody call phase).closes = p.closes ∧
      (p.closeBody call phase).pending = p.pending ∧
      ((p.closeBody call phase).closeOnce = .finished ∧ (p.closeBody call phase).mu = false ∧
          phase = .closingListener ∨
        ∃ next, (p.closeBody call phase).closeOnce = .running call next ∧
          (p.closeBody call phase).mu = next.locked ∧
          (phase.locked = true → (next.locked = true ∨ next = .closingListener) ∧
            next.lockLeft p.pending.length ≤ phase.lockLeft p.pending.length - 1)) := by
  cases phase with
  | locking =>
    simp only [closeBody]
    rw [if_neg (by rw [hmutex]; exact Bool.noConfusion)]
    exact ⟨rfl, rfl, .inr ⟨.closingDone, rfl, rfl, Bool.noConfusion⟩⟩
  | closingDone => exact ⟨rfl, rfl, .inr ⟨_, rfl, hmutex, fun _ ↦ ⟨.inl rfl, le_rfl⟩⟩⟩
  | closingPending rest =>
    cases rest with
    | nil => exact ⟨rfl, rfl, .inr ⟨_, rfl, hmutex, fun _ ↦ ⟨.inl rfl, le_rfl⟩⟩⟩
    | cons other rest =>
      simp only [closeBody, closeConn]
      split <;> exact ⟨rfl, rfl, .inr ⟨_, rfl, hmutex, fun _ ↦ ⟨.inl rfl, le_rfl⟩⟩⟩
  | unlocking => exact ⟨rfl, rfl, .inr ⟨_, rfl, rfl, fun _ ↦ ⟨.inr rfl, le_rfl⟩⟩⟩
  | closingListener => exact ⟨rfl, rfl, .inl ⟨rfl, hmutex, rfl⟩⟩

theorem Calls.closeStep (h : p.Calls) (call : ℕ) : (p.closeStep call).Calls := by
  unfold ProxyListener.closeStep
  split
  · next hcall =>
    split
    · next hunused =>
      refine ⟨?_, ?_, ?_⟩
      · intro hmem
        exact absurd (hunused.symm.trans (h.returned hmem)) (by simp)
      · intro other phase hphase
        simp only [setClose, Once.running.injEq] at hphase
        rw [← hphase.1]
        exact hcall
      · have hmutex := h.mutex
        rw [hunused] at hmutex
        exact hmutex
    · next runner phase hphase =>
      split
      · next hown =>
        subst hown
        have hmutex := h.mutex
        rw [hphase] at hmutex
        rcases closeBody_spec p runner phase hmutex with ⟨hcloses, -, hfinished | ⟨next, hnext, hmu, -⟩⟩
        · refine ⟨fun _ ↦ hfinished.1, ?_, ?_⟩
          · intro other phase hrunning
            cases hfinished.1.symm.trans hrunning
          · rw [hfinished.1, hfinished.2.1]
            rfl
        · refine ⟨?_, ?_, ?_⟩
          · intro hmem
            rw [hcloses] at hmem
            exact absurd (hphase.symm.trans (h.returned hmem)) (by simp)
          · intro other phase hrunning
            rw [hnext, Once.running.injEq] at hrunning
            rw [hcloses, ← hrunning.1, hcall]
          · rw [hmu, hnext]
            rfl
      · exact h
    · next hfinished =>
      refine ⟨fun _ ↦ hfinished, ?_, h.mutex⟩
      intro other phase hrunning
      cases hfinished.symm.trans hrunning
  · exact h

theorem Calls.step (h : p.Calls) (hguarded : p.Guarded trusts) (a : ProxyAction) :
    (p.step trusts a).Calls := by
  cases a with
  | closeStep call => exact h.closeStep _
  | _ =>
    refine h.beside (hguarded.beside_step ?_)
    exact nofun

/-- The critical section of `Close` is entered once. -/
theorem Guarded.past_step (h : p.Guarded trusts) (hpast : lockPast p.closeOnce = true)
    (a : ProxyAction) : lockPast (p.step trusts a).closeOnce = true := by
  cases a with
  | closeStep call =>
    simp only [ProxyListener.step, ProxyListener.closeStep]
    split
    · split
      · next hunused =>
        rw [hunused] at hpast
        cases hpast
      · next runner phase hphase =>
        split
        · rw [hphase] at hpast
          cases phase with
          | closingListener => rfl
          | _ => cases hpast
        · exact hpast
      · exact hpast
    · exact hpast
  | _ =>
    refine (congrArg _ (Beside.closeOnce (h.beside_step ?_))).trans hpast
    exact fun _ ↦ ProxyAction.noConfusion

section

variable {phase : ProxyClosePhase} (h : p.Calls) (hguarded : p.Guarded trusts)
  (hphase : p.closeOnce = .running call phase) (hlocked : phase.locked = true)

include h hguarded hphase hlocked

/-- One step: the call that holds the mutex comes closer to its release with each step of its own. -/
theorem Calls.lock_step (a : ProxyAction) :
    lockPast (p.step trusts a).closeOnce = true ∨
      ∃ next, (p.step trusts a).closeOnce = .running call next ∧ next.locked = true ∧
        next.lockLeft (p.step trusts a).pending.length ≤
          phase.lockLeft p.pending.length - (decide (a = .closeStep call)).toNat := by
  have hmutex := h.mutex
  rw [hphase] at hmutex
  have hkept : ∀ p' : ProxyListener, Beside p p' → ∃ next, p'.closeOnce = .running call next ∧
      next.locked = true ∧ next.lockLeft p'.pending.length ≤ phase.lockLeft p.pending.length := by
    intro p' hbeside
    refine ⟨phase, hbeside.closeOnce.trans hphase, hlocked, ?_⟩
    rw [hbeside.pending (hmutex.trans hlocked)]
  cases a with
  | closeStep other =>
    by_cases hown : other = call
    · subst hown
      have hstep : p.step trusts (.closeStep other) = p.closeBody other phase := by
        rw [ProxyListener.step, ProxyListener.closeStep, h.caller _ _ hphase, hphase]
        exact if_pos rfl
      rw [hstep, decide_eq_true rfl]
      rcases closeBody_spec p other phase hmutex with
        ⟨-, hpending, ⟨hfinished, -, -⟩ | ⟨next, hnext, -, hless⟩⟩
      · left
        rw [hfinished]
        rfl
      · rw [hpending, hnext]
        rcases (hless hlocked).1 with hheld | hlast
        · exact .inr ⟨next, rfl, hheld, (hless hlocked).2⟩
        · left
          rw [hlast]
          rfl
    · have hdiffers : ProxyAction.closeStep other ≠ .closeStep call := by
        intro heq
        exact hown (ProxyAction.closeStep.inj heq)
      have hsame : p.step trusts (.closeStep other) = p := by
        simp only [ProxyListener.step, ProxyListener.closeStep, hphase]
        rw [if_neg (Ne.symm hown)]
        split <;> rfl
      rw [decide_eq_false hdiffers, hsame]
      exact .inr (hkept p {})
  | _ =>
    refine .inr (hkept _ (hguarded.beside_step ?_))
    exact fun _ ↦ ProxyAction.noConfusion

/-- Along a run every step of the call that holds the mutex counts. -/
theorem Calls.lock_run (later : List ProxyAction)
    (hsteps : phase.lockLeft p.pending.length ≤ later.count (.closeStep call)) :
    lockPast (run (ProxyListener.step trusts) p later).closeOnce = true := by
  induction later generalizing p phase with
  | nil =>
    have hpos := ProxyClosePhase.lockLeft_pos hlocked p.pending.length
    exact absurd hsteps (not_le.mpr hpos)
  | cons a rest ih =>
    have hcount : (a :: rest).count (.closeStep call) =
        rest.count (.closeStep call) + (decide (a = .closeStep call)).toNat := by
      by_cases hown : a = .closeStep call <;> simp [hown]
    rcases h.lock_step hguarded hphase hlocked a with hpast | ⟨next, hnext, hheld, hless⟩
    · exact run_invariant_untimed
        (fun p : ProxyListener ↦ p.Guarded trusts ∧ lockPast p.closeOnce = true)
        (fun _ a h ↦ ⟨h.1.step a, h.1.past_step h.2 a⟩) _ ⟨hguarded.step a, hpast⟩ |>.2
    · exact ih (h.step hguarded a) (hguarded.step a) hnext hheld (by omega)

end

end ProxyListener

section

variable (net : Netip) (trust : Option Config.ProxyTrust) (actions : List ProxyAction)

theorem proxyListenerAfter_calls : (proxyListenerAfter net trust actions).Calls := by
  have hboth := run_invariant_untimed
    (fun p : ProxyListener ↦ p.Guarded (Config.trusts net trust) ∧ p.Calls)
    (fun _ a h ↦ ⟨h.1.step a, h.2.step h.1 a⟩) actions
    ⟨ProxyListener.guarded_fresh, ProxyListener.calls_fresh⟩
  exact hboth.2

theorem proxyListenerAfter_append (later : List ProxyAction) :
    proxyListenerAfter net trust (actions ++ later) =
      run (ProxyListener.step (Config.trusts net trust)) (proxyListenerAfter net trust actions)
        later :=
  run_append _ _ actions later

end

/-! ## Whole runs -/

namespace ProxyListener

variable {trusts : SocketAddr → Bool} {p : ProxyListener} {id : ℕ} {c : RawConn}

section

variable (h : p.Guarded trusts)

include h

theorem Guarded.mem_delivered (hget : p.conns[id]? = some c) :
    id ∈ p.delivered ↔ c.handed = true := by
  have hcount := h.delivered id
  rw [hget] at hcount
  rw [← count_pos_iff, hcount]
  cases hhanded : c.handed <;> simp [hhanded]

theorem Guarded.delivered_le (id : ℕ) : p.delivered.count id ≤ 1 := by
  rw [h.delivered id]
  exact Bool.toNat_le _

/-- Only connections of the listener below are delivered. -/
theorem Guarded.lt_of_delivered (hid : id ∈ p.delivered) : id < p.conns.length := by
  apply Nat.lt_of_not_le
  intro hbeyond
  have hcount := h.delivered id
  rw [getElem?_eq_none hbeyond] at hcount
  exact absurd (count_pos_iff.mpr hid) (by simp [hcount])

/-- A connection whose way has ended was delivered or closed. -/
theorem Guarded.ended (hget : p.conns[id]? = some c) (hended : c.phase = .ended) :
    id ∈ p.delivered ∨ c.closed = true := by
  have haccount := (h.sound c (mem_of_getElem? hget)).account
  rw [RawConn.Account, hended] at haccount
  rw [h.mem_delivered hget]
  exact haccount.1

/-- Before `Close` a delivered connection is open. -/
theorem Guarded.open_delivered (hget : p.conns[id]? = some c) (hopen : p.done = false)
    (hid : id ∈ p.delivered) : c.closed = false := by
  have hhanded := (h.mem_delivered hget).mp hid
  have haccount := (h.sound c (mem_of_getElem? hget)).account
  rw [hopen] at haccount
  apply Bool.eq_false_iff.mpr
  intro hclosed
  rcases c with ⟨peer, phase, closed, read, handed, reason⟩
  cases phase with
  | checking | admitting | registering | refusing =>
    cases haccount.2.1.symm.trans hhanded
  | reading | unregistering ok | rejecting | offering | abandoning =>
    cases haccount.1.symm.trans hhanded
  | releasing | ended => cases haccount.2 hhanded hclosed

/-- The connection of a peer that is not trusted. -/
theorem Guarded.untrusted (hget : p.conns[id]? = some c) (huntrusted : trusts c.peer = false) :
    c.read = 0 ∧ id ∉ p.delivered ∧
      (c.phase = .checking ∨ c.closed = true ∧ c.reason = some .untrustedPeer) := by
  have hsound := h.sound c (mem_of_getElem? hget)
  rcases hsound.untrusted huntrusted with ⟨hread, hunhanded, hphase⟩
  have hnotin : id ∉ p.delivered := by
    rw [h.mem_delivered hget, hunhanded]
    exact Bool.noConfusion
  refine ⟨hread, hnotin, ?_⟩
  rcases hphase with hchecking | ⟨hended, hreason⟩
  · exact .inl hchecking
  · exact .inr ⟨(h.ended hget hended).resolve_left hnotin, hreason⟩

theorem Guarded.pending_nil (hended : ∀ c ∈ p.conns, c.phase.running = false) : p.pending = [] := by
  apply eq_nil_iff_forall_not_mem.mpr
  intro id hid
  rcases (h.pending id).mp hid with ⟨c, hget, hregistered⟩
  have hstopped := hended c (mem_of_getElem? hget)
  cases hphase : c.phase <;> rw [hphase] at hregistered hstopped <;>
    first | exact Bool.noConfusion hregistered | cases hstopped

end

end ProxyListener

theorem RawPhase.stepsLeft_le (phase : RawPhase) : phase.stepsLeft ≤ 8 := by
  cases phase <;> exact Nat.le_of_ble_eq_true rfl

theorem RawPhase.ended_of_stepsLeft {phase : RawPhase} (h : phase.stepsLeft = 0) :
    phase = .ended := by
  cases phase <;> first | rfl | cases h

/-- Whatever the trust set and the interleaving: from a peer that is not trusted nothing is read, and
its connection is not delivered but closed and counted. Every connection is delivered at most once, and
within eight turns it is delivered or closed; before `Close` never both. The semaphore has exactly the
running handshakes. After `Close` the registered connections are closed, and none is registered once the
handshakes have ended. `Close` gives the mutex back, which only it holds between steps. -/
theorem proxy_listener_safe (net : Netip) (trust : Option Config.ProxyTrust)
    (actions : List ProxyAction) :
    let p := proxyListenerAfter net trust actions
    (∀ id c, p.conns[id]? = some c → Config.trusts net trust c.peer = false →
      c.read = 0 ∧ id ∉ p.delivered ∧
        (c.phase = .checking ∨ c.closed = true ∧ c.reason = some .untrustedPeer)) ∧
    p.dropped = p.conns.countP (·.reason.isSome) ∧
    (∀ id ∈ p.delivered, id < p.conns.length ∧ p.delivered.count id = 1) ∧
    (∀ id c, p.conns[id]? = some c →
      (c.phase = .ended → id ∈ p.delivered ∨ c.closed = true) ∧
      (p.done = false → id ∈ p.delivered → c.closed = false) ∧
      ∀ later : List ProxyAction,
        Along (ProxyListener.step (Config.trusts net trust)) (ProxyListener.TurnsFree id) p later →
        8 ≤ later.countP (·.isTurnOf id) →
        ∃ c', (proxyListenerAfter net trust (actions ++ later)).conns[id]? = some c' ∧
          c'.phase = .ended) ∧
    p.sem ≤ maxPendingHandshakes ∧ p.sem = p.conns.countP (·.phase.running) ∧
    (.returned ∈ p.closes → p.done = true ∧ ∀ id ∈ p.pending, p.ClosedAt id) ∧
    ((∀ c ∈ p.conns, c.phase.running = false) → p.pending = []) ∧
    (p.mu = true → ∃ call phase, p.closeOnce = .running call phase ∧
      ∀ later : List ProxyAction,
        phase.lockLeft p.pending.length ≤ later.count (.closeStep call) →
        (proxyListenerAfter net trust (actions ++ later)).mu = false) := by
  intro p
  have hguarded : p.Guarded (Config.trusts _ _) :=
    proxyListenerAfter_guarded net trust actions
  have hcalls : p.Calls := proxyListenerAfter_calls net trust actions
  refine ⟨fun id c ↦ hguarded.untrusted, hguarded.dropped, ?_, ?_, hguarded.room, hguarded.sem, ?_,
    hguarded.pending_nil, ?_⟩
  · intro id hid
    have hpos := count_pos_iff.mpr hid
    have hle := hguarded.delivered_le id
    exact ⟨hguarded.lt_of_delivered hid, by omega⟩
  · intro id c hget
    refine ⟨hguarded.ended hget, hguarded.open_delivered hget, ?_⟩
    intro later hfree hturns
    rcases hguarded.conn_run hget hfree with ⟨c', hget', hless⟩
    rw [← proxyListenerAfter_append] at hget'
    have hmost := RawPhase.stepsLeft_le c.phase
    exact ⟨c', hget', RawPhase.ended_of_stepsLeft (by omega)⟩
  · intro hreturned
    have hstaged := hguarded.staged
    rw [hcalls.returned hreturned] at hstaged
    exact hstaged
  · intro hmu
    have hheld := hcalls.mutex.symm.trans hmu
    cases hphase : p.closeOnce with
    | unused | finished =>
      rw [hphase] at hheld
      cases hheld
    | running call phase =>
      rw [hphase] at hheld
      refine ⟨call, phase, rfl, ?_⟩
      intro later hsteps
      have hpast := hcalls.lock_run hguarded hphase hheld later hsteps
      rw [← proxyListenerAfter_append] at hpast
      rw [(proxyListenerAfter_calls ..).mutex, lockHeld_of_past hpast]

end RanHoneypot.Trap
