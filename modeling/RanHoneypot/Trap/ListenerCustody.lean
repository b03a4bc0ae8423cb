import RanHoneypot.Trap.MultiListener

/-!
# Custody of the connections of the multi-address listener

Every connection that an underlying listener has returned is in one place: in the hands of an accept
loop, in the channel, in the hands of the drain of `Close`, closed, or delivered by one `Accept`. Each
step moves a connection from one place to the next.

The channel is closed when the wait group is zero, and then no accept loop is left that could send to
it or put a connection into it behind the drain. So nothing is on its way any more when `Close` has
returned.
-/

namespace RanHoneypot.Trap

open TimedRun List Threads ReceivePhase

/-- The connection that the loop has in its hands. -/
def LoopPhase.conns : LoopPhase → List ℕ
  | sending id | dropping id => [id]
  | _ => []

/-- The wait group counts the loop. -/
def LoopPhase.running : LoopPhase → Bool
  | returned => false
  | _ => true

/-- How many turns the loop takes at most to return when its listener and `done` are closed. -/
def LoopPhase.stepsLeft : LoopPhase → ℕ
  | sending _ | backingOff => 3
  | accepting | dropping _ => 2
  | leaving => 1
  | returned => 0

/-- The connection that the call has returned. -/
def ReceivePhase.conns : ReceivePhase → List ℕ
  | returned (some id) => [id]
  | _ => []

/-- The connection that the drain has in its hands. -/
def drained : Once ClosePhase → List ℕ
  | .running _ (.dropping id) => [id]
  | _ => []

namespace MultiListener

variable {m m' : MultiListener} {i call : ℕ} {loop loop' : AcceptLoop}

variable {once : Once ClosePhase}

/-- The connections that are neither delivered nor closed. -/
def held (m : MultiListener) : List ℕ :=
  m.loops.flatMap (·.phase.conns) ++ m.connCh ++ drained m.closeOnce

/-- The connections that `Accept` calls have returned. -/
def delivered (m : MultiListener) : List ℕ := m.accepts.flatMap conns

/-! ## One turn of an accept loop -/

/-- One turn takes loop `i` of `m` from `loop` to `loop'`. -/
structure LoopStep (m : MultiListener) (i : ℕ) (loop : AcceptLoop) (m' : MultiListener)
    (loop' : AcceptLoop) : Prop where
  loops : m'.loops = m.loops.set i loop' := by rfl
  done : m'.done = m.done := by rfl
  connChClosed : m'.connChClosed = m.connChClosed := by rfl
  closeOnce : m'.closeOnce = m.closeOnce := by rfl
  accepts : m'.accepts = m.accepts := by rfl
  closes : m'.closes = m.closes := by rfl
  crashed : m'.crashed = m.crashed := by rfl
  listener : loop.listenerClosed = true → loop'.listenerClosed = true := by exact fun h ↦ h
  custody : ∀ id, loop'.phase.conns.count id + m'.connCh.count id + m'.closed.count id +
      (List.range m.accepted).count id =
    loop.phase.conns.count id + m.connCh.count id + m.closed.count id +
      (List.range m'.accepted).count id := by exact fun _ ↦ rfl
  wg : m'.wg + loop.phase.running.toNat = m.wg + loop'.phase.running.toNat := by rfl
  room : m.connCh.length ≤ connChCap → m'.connCh.length ≤ connChCap := by exact fun h ↦ h

/-- A turn of a loop that has to wait. -/
theorem loopStep_none (hget : m.loops[i]? = some loop) : LoopStep m i loop m loop where
  loops := (set_self hget).symm

/-- Every turn of a loop is a `LoopStep` as long as the channel is open, and brings the loop closer to
its end when it is told that its listener is closed. -/
theorem loopStep_spec (hget : m.loops[i]? = some loop)
    (hopen : loop.phase.running = true → m.connChClosed = false) (result : AcceptResult)
    (preferDone : Bool) : ∃ loop', LoopStep m i loop (m.loopStep i loop result preferDone) loop' ∧
      (m.done = true → result = .closed → loop'.phase.stepsLeft ≤ loop.phase.stepsLeft - 1) := by
  rcases loop with ⟨phase, backoff, listenerClosed⟩
  unfold loopStep
  cases phase with
  | accepting =>
    cases result with
    | conn =>
      -- The connection gets the next number.
      refine ⟨⟨.sending m.accepted, acceptPanicBackoffMin, listenerClosed⟩,
        { custody := fun id ↦ ?_ }, nofun⟩
      simp only [listenerReturns, LoopPhase.conns, setLoop, range_succ, count_append, count_nil]
      omega
    | closed => exact ⟨⟨.leaving, backoff, listenerClosed⟩, {}, fun _ _ ↦ Nat.le_refl 1⟩
    | nilConn => exact ⟨⟨.accepting, acceptPanicBackoffMin, listenerClosed⟩, {}, nofun⟩
    | failed | panicked => exact ⟨⟨.backingOff, backoff, listenerClosed⟩, {}, nofun⟩
  | backingOff =>
    dsimp only [backOff]
    split
    · exact ⟨⟨.leaving, backoff, listenerClosed⟩, {}, fun _ _ ↦ Nat.le_of_ble_eq_true rfl⟩
    · exact ⟨⟨.accepting, nextBackoff backoff, listenerClosed⟩, {}, fun _ _ ↦ Nat.le_refl 2⟩
  | sending id =>
    have hclosed := hopen rfl
    dsimp only [send]
    split
    · exact ⟨⟨.dropping id, backoff, listenerClosed⟩, {}, fun _ _ ↦ Nat.le_refl 2⟩
    · next hselect =>
      rw [if_neg (by simp [hclosed])]
      split
      · next hroom =>
        refine ⟨⟨.accepting, backoff, listenerClosed⟩, { custody := fun other ↦ ?_, room := fun _ ↦ ?_ },
          fun _ _ ↦ Nat.le_refl 2⟩
        · simp only [LoopPhase.conns, setLoop, count_append, count_nil]
          omega
        · simpa [setLoop] using Nat.succ_le_of_lt hroom
      · next hfull =>
        exact ⟨_, loopStep_none hget, fun hdone _ ↦ absurd ⟨hdone, .inr (by simp [hclosed, hfull])⟩
          hselect⟩
  | dropping id =>
    refine ⟨⟨.leaving, backoff, listenerClosed⟩, { custody := fun other ↦ ?_ },
      fun _ _ ↦ Nat.le_refl 1⟩
    simp only [LoopPhase.conns, setLoop, count_append, count_nil]
    omega
  | leaving =>
    refine ⟨⟨.returned, backoff, listenerClosed⟩, { wg := ?_ }, fun _ _ ↦ Nat.le_refl 0⟩
    simp [LoopPhase.running, setLoop]
  | returned => exact ⟨_, loopStep_none hget, fun _ _ ↦ Nat.le_refl 0⟩

/-! ## The order of the steps of `Close` -/

/-- What is known while the function of `closeOnce` is at a statement. -/
def Staged (m : MultiListener) : Once ClosePhase → Prop
  | .unused => m.done = false ∧ m.connChClosed = false
  | .running _ .closingDone => m.done = false ∧ m.connChClosed = false
  | .running _ (.closingListeners next) => m.done = true ∧ m.connChClosed = false ∧
      ∀ i < next, ∀ loop, m.loops[i]? = some loop → loop.listenerClosed = true
  | .running _ .waiting => m.done = true ∧ m.connChClosed = false ∧
      ∀ loop ∈ m.loops, loop.listenerClosed = true
  | .running _ .closingConnCh => m.wg = 0 ∧ m.connChClosed = false
  | .running _ .draining => m.wg = 0 ∧ m.connChClosed = true
  | .running _ (.dropping _) => m.wg = 0 ∧ m.connChClosed = true
  | .finished => m.wg = 0 ∧ m.connChClosed = true ∧ m.connCh = []

/-- The books of the listener. -/
structure Orderly (m : MultiListener) : Prop where
  custody : ∀ id, m.held.count id + m.closed.count id + m.delivered.count id =
    (List.range m.accepted).count id
  wg : m.wg = m.loops.countP (·.phase.running)
  room : m.connCh.length ≤ connChCap
  intact : m.crashed = false
  staged : m.Staged m.closeOnce
  returned : .returned ∈ m.closes → m.closeOnce = .finished

theorem orderly_new (listeners : ℕ) : (newMultiListener listeners).Orderly where
  custody := by
    intro id
    have hnone : (newMultiListener listeners).loops.flatMap (·.phase.conns) = [] := by
      apply flatMap_eq_nil_iff.mpr
      intro loop hloop
      rw [eq_of_mem_replicate hloop]
      rfl
    rw [held, hnone]
    rfl
  wg := by
    simp [newMultiListener, countP_replicate, LoopPhase.running]
  room := Nat.zero_le _
  intact := rfl
  staged := ⟨rfl, rfl⟩
  returned := fun h ↦ absurd h not_mem_nil

/-- The channel is closed behind the last accept loop. -/
theorem Staged.wg_eq_zero (h : m.Staged once) (hclosed : m.connChClosed = true) : m.wg = 0 := by
  have hopen : m.connChClosed ≠ false := by rw [hclosed]; exact Bool.noConfusion
  cases once with
  | unused => exact absurd h.2 hopen
  | finished => exact h.1
  | running call phase =>
    cases phase with
    | closingDone => exact absurd h.2 hopen
    | closingListeners | waiting => exact absurd h.2.1 hopen
    | closingConnCh | draining | dropping => exact h.1

theorem Orderly.idle (h : m.Orderly) (hwg : m.wg = 0) :
    ∀ loop ∈ m.loops, loop.phase = .returned := by
  have hnone : m.loops.countP (·.phase.running) = 0 := by
    have hcount := h.wg
    omega
  intro loop hloop
  have hstopped := countP_eq_zero.mp hnone loop hloop
  cases hphase : loop.phase with
  | returned => rfl
  | _ => exact absurd (by rw [hphase]; rfl) hstopped

/-! ### Accept loops -/

theorem Staged.loopStep (h : m.Staged once) (hget : m.loops[i]? = some loop)
    (hearly : m.wg = 0 → ∃ call next, once = .running call (.closingListeners next))
    (hstep : LoopStep m i loop m' loop') : m'.Staged once := by
  cases once with
  | unused => exact ⟨hstep.done.trans h.1, hstep.connChClosed.trans h.2⟩
  | finished =>
    rcases hearly h.1 with ⟨_, _, hphase⟩
    cases hphase
  | running call phase =>
    cases phase with
    | closingDone => exact ⟨hstep.done.trans h.1, hstep.connChClosed.trans h.2⟩
    | closingListeners next =>
      refine ⟨hstep.done.trans h.1, hstep.connChClosed.trans h.2.1, ?_⟩
      intro j hj other hother
      rw [hstep.loops] at hother
      by_cases hown : j = i
      · subst hown
        rw [get_set hget, Option.some.injEq] at hother
        exact hother ▸ hstep.listener (h.2.2 j hj _ hget)
      · rw [getElem?_set_ne (Ne.symm hown)] at hother
        exact h.2.2 j hj _ hother
    | waiting =>
      refine ⟨hstep.done.trans h.1, hstep.connChClosed.trans h.2.1, ?_⟩
      rw [hstep.loops]
      exact forall_set h.2.2 (hstep.listener (h.2.2 _ (mem_of_getElem? hget)))
    | closingConnCh | draining | dropping =>
      rcases hearly h.1 with ⟨_, _, hphase⟩
      cases hphase

/-- A loop has taken a turn, or its listener was closed. -/
theorem Orderly.loopStep (h : m.Orderly) (hget : m.loops[i]? = some loop)
    (hearly : m.wg = 0 → ∃ call next, m.closeOnce = .running call (.closingListeners next))
    (hstep : LoopStep m i loop m' loop') : m'.Orderly where
  custody := by
    intro id
    have hbefore := h.custody id
    have hmoved := hstep.custody id
    have hloops := count_flatMap_set (fun loop : AcceptLoop ↦ loop.phase.conns) hget loop' id
    simp only [held, delivered, count_append] at hbefore ⊢
    rw [hstep.loops, hstep.closeOnce, hstep.accepts]
    omega
  wg := by
    have hcount := countP_set (fun loop : AcceptLoop ↦ loop.phase.running) hget loop'
    have hbefore := h.wg
    have hafter := hstep.wg
    rw [hstep.loops]
    omega
  room := hstep.room h.room
  intact := hstep.crashed.trans h.intact
  staged := by
    rw [hstep.closeOnce]
    exact h.staged.loopStep hget hearly hstep
  returned := by
    rw [hstep.closes, hstep.closeOnce]
    exact h.returned

/-- Without a running loop a turn does nothing. -/
theorem Orderly.turn_idle (h : m.Orderly) (hwg : m.wg = 0) (i : ℕ) (result : AcceptResult)
    (preferDone : Bool) : m.turn i result preferDone = m := by
  unfold MultiListener.turn
  cases hget : m.loops[i]? with
  | none => rfl
  | some loop =>
    dsimp only
    rw [MultiListener.loopStep, h.idle hwg _ (mem_of_getElem? hget)]

/-- The turn of a loop that exists is a `LoopStep`. -/
theorem Orderly.turn_spec (h : m.Orderly) (hget : m.loops[i]? = some loop) (result : AcceptResult)
    (preferDone : Bool) : ∃ loop', LoopStep m i loop (m.turn i result preferDone) loop' ∧
      (m.done = true → result = .closed → loop'.phase.stepsLeft ≤ loop.phase.stepsLeft - 1) := by
  have hturn : m.turn i result preferDone = m.loopStep i loop result preferDone := by
    rw [MultiListener.turn, hget]
  rw [hturn]
  apply loopStep_spec hget
  intro hrunning
  apply Bool.eq_false_iff.mpr
  intro hclosed
  rw [h.idle (h.staged.wg_eq_zero hclosed) _ (mem_of_getElem? hget)] at hrunning
  cases hrunning

theorem Orderly.turn (h : m.Orderly) (i : ℕ) (result : AcceptResult) (preferDone : Bool) :
    (m.turn i result preferDone).Orderly := by
  by_cases hwg : m.wg = 0
  · rw [h.turn_idle hwg]
    exact h
  · cases hget : m.loops[i]? with
    | none =>
      have hsame : m.turn i result preferDone = m := by rw [MultiListener.turn, hget]
      rw [hsame]
      exact h
    | some loop =>
      rcases h.turn_spec hget result preferDone with ⟨loop', hstep, -⟩
      exact h.loopStep hget (fun hzero ↦ absurd hzero hwg) hstep

/-! ### Accept and Close -/

theorem Staged.frame (h : m.Staged once) (hdone : m'.done = m.done)
    (hclosed : m'.connChClosed = m.connChClosed) (hloops : m'.loops = m.loops) (hwg : m'.wg = m.wg)
    (hempty : m.connCh = [] → m'.connCh = []) : m'.Staged once := by
  cases once with
  | unused => exact ⟨hdone.trans h.1, hclosed.trans h.2⟩
  | finished => exact ⟨hwg.trans h.1, hclosed.trans h.2.1, hempty h.2.2⟩
  | running call phase =>
    cases phase <;> simpa only [Staged, hdone, hclosed, hloops, hwg] using h

section

variable (h : m.Orderly)

include h

theorem Orderly.receive (call : ℕ) : (m.receive call).Orderly := by
  unfold MultiListener.receive
  split
  · next hcall =>
    split
    · next id rest hch =>
      exact
        { h with
          custody := by
            intro other
            have hbefore := h.custody other
            have haccepts := count_flatMap_set conns hcall
              (.returned (some id)) other
            simp only [held, delivered, hch, setAccept, count_append, count_cons,
              conns] at hbefore haccepts ⊢
            omega
          room := by
            have hroom := h.room
            rw [hch] at hroom
            exact (Nat.le_succ _).trans hroom
          staged := h.staged.frame rfl rfl rfl rfl fun hempty ↦
            absurd (hch.symm.trans hempty) (cons_ne_nil id rest) }
    · split
      · exact
          { h with
            custody := by
              intro other
              have hbefore := h.custody other
              have haccepts := count_flatMap_set conns hcall
                (.returned none) other
              simp only [held, delivered, setAccept, conns] at hbefore haccepts ⊢
              omega
            staged := h.staged.frame rfl rfl rfl rfl id }
      · exact h
  · exact h

/-- A step of `Close` that keeps the channel and the connections. -/
theorem Orderly.setClose {phase : ClosePhase}
    (hconns : drained (.running call phase) = drained m.closeOnce)
    (hstaged : m.Staged (.running call phase)) (hrunning : m.closeOnce ≠ .finished) :
    (m.setClose call phase).Orderly :=
  { h with
    custody := by
      intro id
      have hbefore := h.custody id
      rw [held, ← hconns] at hbefore
      exact hbefore
    staged := hstaged.frame rfl rfl rfl rfl id
    returned := fun hmem ↦ absurd (h.returned hmem) hrunning }

/-- One more listener is closed. -/
theorem Orderly.closeListener {next : ℕ}
    (hphase : m.closeOnce = .running call (.closingListeners next)) (hlt : next < m.loops.length) :
    ((m.closeListener next).setClose call (.closingListeners (next + 1))).Orderly := by
  have hget : m.loops[next]? = some m.loops[next] := getElem?_eq_getElem hlt
  have hclosed : LoopStep m next m.loops[next] (m.closeListener next)
      { m.loops[next] with listenerClosed := true } := by
    rw [MultiListener.closeListener, hget]
    exact { listener := fun _ ↦ rfl }
  have horderly := h.loopStep hget (fun _ ↦ ⟨call, next, hphase⟩) hclosed
  have hphase' := hclosed.closeOnce.trans hphase
  have hstaged := horderly.staged
  rw [hphase'] at hstaged
  refine horderly.setClose (by rw [hphase']; rfl) ⟨hstaged.1, hstaged.2.1, ?_⟩ (by rw [hphase']; simp)
  intro j hj other hother
  rcases Nat.lt_succ_iff_lt_or_eq.mp hj with hbefore | rfl
  · exact hstaged.2.2 j hbefore other hother
  · rw [hclosed.loops, get_set hget, Option.some.injEq] at hother
    exact hother ▸ rfl

theorem Orderly.closeBody {phase : ClosePhase} (hphase : m.closeOnce = .running call phase) :
    (m.closeBody call phase).Orderly := by
  have hstaged := h.staged
  rw [hphase] at hstaged
  have hrunning : m.closeOnce ≠ .finished := by rw [hphase]; simp
  have hcustody := h.custody
  simp only [held, hphase] at hcustody
  have hreturned : ∀ once : Once ClosePhase, .returned ∈ m.closes → once = .finished :=
    fun _ hmem ↦ absurd (h.returned hmem) hrunning
  cases phase with
  | closingDone =>
    exact
      { h with
        custody := hcustody
        intact := by simp [MultiListener.closeBody, MultiListener.setClose, h.intact, hstaged.1]
        staged := ⟨rfl, hstaged.2, fun _ hlt ↦ absurd hlt (Nat.not_lt_zero _)⟩
        returned := hreturned _ }
  | closingListeners next =>
    simp only [MultiListener.closeBody]
    split
    · next hlt => exact h.closeListener hphase hlt
    · next hend =>
      apply h.setClose (by rw [hphase]; rfl) _ hrunning
      refine ⟨hstaged.1, hstaged.2.1, ?_⟩
      intro loop hloop
      rcases mem_iff_getElem?.mp hloop with ⟨j, hget⟩
      have hlt := (List.getElem?_eq_some_iff.mp hget).1
      exact hstaged.2.2 j (by omega) _ hget
  | waiting =>
    simp only [MultiListener.closeBody]
    split
    · next hwg => exact h.setClose (by rw [hphase]; rfl) ⟨hwg, hstaged.2.1⟩ hrunning
    · exact h
  | closingConnCh =>
    exact
      { h with
        custody := hcustody
        intact := by simp [MultiListener.closeBody, MultiListener.setClose, h.intact, hstaged.2]
        staged := ⟨hstaged.1, rfl⟩
        returned := hreturned _ }
  | draining =>
    simp only [MultiListener.closeBody]
    split
    · next id rest hch =>
      exact
        { h with
          custody := by
            intro other
            have hbefore := h.custody other
            simp only [held, delivered, hphase, hch, MultiListener.setClose, drained,
              count_append, count_cons] at hbefore ⊢
            omega
          room := by
            have hroom := h.room
            rw [hch] at hroom
            exact (Nat.le_succ _).trans hroom
          staged := hstaged
          returned := hreturned _ }
    · next hch =>
      exact
        { h with
          custody := hcustody
          staged := ⟨hstaged.1, hstaged.2, hch⟩
          returned := fun _ ↦ rfl }
  | dropping id =>
    exact
      { custody := by
          intro other
          have hbefore := h.custody other
          simp only [held, delivered, hphase, MultiListener.closeBody, MultiListener.setClose,
            drained, count_append, count_nil] at hbefore ⊢
          omega
        wg := h.wg
        room := h.room
        intact := h.intact
        staged := hstaged
        returned := hreturned _ }

theorem Orderly.closeStep (call : ℕ) : (m.closeStep call).Orderly := by
  unfold MultiListener.closeStep
  split
  · split
    · next hunused =>
      have hstaged := h.staged
      rw [hunused] at hstaged
      exact h.setClose (by rw [hunused]; rfl) hstaged (by rw [hunused]; simp)
    · next other phase hphase =>
      split
      · next hown =>
        subst hown
        exact h.closeBody hphase
      · exact h
    · next hfinished => exact ⟨h.custody, h.wg, h.room, h.intact, h.staged, fun _ ↦ hfinished⟩
  · exact h

theorem Orderly.step (a : MultiListenerAction) : (m.step a).Orderly := by
  cases a with
  | turn i result preferDone => exact h.turn i ..
  | accept =>
    exact
      { h with
        custody := fun id ↦ by
          have hbefore := h.custody id
          simpa [MultiListener.step, held, delivered, conns] using hbefore
        staged := h.staged.frame rfl rfl rfl rfl id }
  | receive call => exact h.receive _
  | close =>
    exact
      { h with
        staged := h.staged.frame rfl rfl rfl rfl id
        returned := by simpa [MultiListener.step] using h.returned }
  | closeStep call => exact h.closeStep _

end

end MultiListener

theorem multiListenerAfter_orderly (listeners : ℕ) (actions : List MultiListenerAction) :
    (multiListenerAfter listeners actions).Orderly :=
  run_invariant_untimed MultiListener.Orderly (fun _ a h ↦ h.step a) actions
    (MultiListener.orderly_new listeners)

end RanHoneypot.Trap
