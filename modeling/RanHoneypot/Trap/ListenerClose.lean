import Mathlib.Data.List.Nodup
import RanHoneypot.Trap.ListenerCustody

/-!
# Closing the multi-address listener

When a `Close` call has returned, every connection that a listener has returned is closed or delivered.
And the call does return: once the listeners and `done` are closed, an accept loop is at most three
turns away from its end, if a closed listener reports `net.ErrClosed`, and behind the last loop the
drain only has to empty the channel.
-/

namespace RanHoneypot.Trap

open TimedRun List

/-- The action is a turn of accept loop `i`. -/
def MultiListenerAction.isTurnOf (i : ℕ) : MultiListenerAction → Bool
  | turn loop _ _ => decide (loop = i)
  | _ => false

/-- The function of `closeOnce` has closed `done` and the listeners. -/
def ClosePhase.late : ClosePhase → Bool
  | closingDone | closingListeners _ => false
  | _ => true

/-- How many steps a late phase takes at most to the end of `Close`, with `queued` connections in the
channel and no accept loop left. -/
def ClosePhase.stepsLeft (queued : ℕ) : ClosePhase → ℕ
  | waiting => 2 * queued + 4
  | closingConnCh | dropping _ => 2 * queued + 3
  | _ => 2 * queued + 2

theorem LoopPhase.stepsLeft_le (phase : LoopPhase) : phase.stepsLeft ≤ 3 := by
  cases phase <;> exact Nat.le_of_ble_eq_true rfl

theorem LoopPhase.running_of_stepsLeft {phase : LoopPhase} (h : phase.stepsLeft = 0) :
    phase.running = false := by
  cases phase <;> first | rfl | cases h

namespace MultiListener

variable {m : MultiListener} {i call : ℕ} {loop : AcceptLoop}

variable {m' : MultiListener}

/-- A closed listener makes its `Accept` return `net.ErrClosed`. -/
def ReportsClosed (m : MultiListener) (a : MultiListenerAction) : Prop :=
  ∀ i result preferDone loop, a = .turn i result preferDone → m.loops[i]? = some loop →
    loop.listenerClosed = true → result = .closed

/-! ## The end of the accept loops -/

/-- What every step keeps that is not the turn of a loop: such a step can only close a listener. -/
structure Keeps (m m' : MultiListener) : Prop where
  done : m.done = true → m'.done = true := by exact fun h ↦ h
  wg : m'.wg = m.wg := by rfl
  loops : m'.loops = m.loops ∨ ∃ j loop, m.loops[j]? = some loop ∧
    m'.loops = m.loops.set j { loop with listenerClosed := true } := by exact .inl rfl

theorem keeps_closeBody (m : MultiListener) (call : ℕ) (phase : ClosePhase) :
    Keeps m (m.closeBody call phase) := by
  cases phase with
  | closingDone => exact { done := fun _ ↦ rfl }
  | closingListeners j =>
    simp only [closeBody]
    split
    · unfold closeListener
      cases hget : m.loops[j]? with
      | none => exact {}
      | some loop => exact { loops := .inr ⟨j, loop, hget, rfl⟩ }
    · exact {}
  | waiting =>
    simp only [closeBody]
    split <;> exact {}
  | closingConnCh => exact {}
  | draining =>
    simp only [closeBody]
    split <;> exact {}
  | dropping id => exact {}

theorem keeps_step (m : MultiListener) {a : MultiListenerAction}
    (hother : ∀ i result preferDone, a ≠ .turn i result preferDone) : Keeps m (m.step a) := by
  cases a with
  | turn i result preferDone => exact absurd rfl (hother i result preferDone)
  | accept => exact {}
  | receive call =>
    simp only [step, receive]
    split
    · split
      · exact {}
      · split <;> exact {}
    · exact {}
  | close => exact {}
  | closeStep call =>
    simp only [step, closeStep]
    split
    · split
      · exact {}
      · split
        · exact keeps_closeBody m ..
        · exact {}
      · exact {}
    · exact {}

/-- A step is the turn of a loop or keeps the loops. -/
theorem Orderly.step_cases (h : m.Orderly) (a : MultiListenerAction) :
    (Keeps m (m.step a) ∧ ∀ i loop, m.loops[i]? = some loop → a.isTurnOf i = false) ∨
    ∃ j result preferDone loop loop', a = .turn j result preferDone ∧ m.loops[j]? = some loop ∧
      LoopStep m j loop (m.step a) loop' ∧
      (m.done = true → result = .closed → loop'.phase.stepsLeft ≤ loop.phase.stepsLeft - 1) := by
  cases a with
  | turn j result preferDone =>
    cases hj : m.loops[j]? with
    | none =>
      rw [MultiListener.step, MultiListener.turn, hj]
      refine .inl ⟨{}, fun i loop hget ↦ decide_eq_false fun hown ↦ ?_⟩
      rw [hown, hget] at hj
      cases hj
    | some loop =>
      rcases h.turn_spec hj result preferDone with ⟨loop', hstep, hless⟩
      exact .inr ⟨j, result, preferDone, loop, loop', rfl, hj, hstep, hless⟩
  | _ =>
    exact .inl ⟨keeps_step m fun _ _ _ ↦ MultiListenerAction.noConfusion, fun _ _ _ ↦ rfl⟩

/-- A loop is kept, but for its listener, which stays closed. -/
theorem Keeps.loop_eq (h : Keeps m m') (hget : m.loops[i]? = some loop)
    (hclosed : loop.listenerClosed = true) : m'.loops[i]? = some loop := by
  rcases h.loops with hloops | ⟨j, other, hj, hloops⟩
  · rw [hloops, hget]
  · rw [hloops]
    by_cases hown : j = i
    · subst hown
      rw [hget, Option.some.injEq] at hj
      rw [Threads.get_set hget, ← hj, ← hclosed]
    · rw [getElem?_set_ne hown, hget]

theorem Keeps.length_eq (h : Keeps m m') : m'.loops.length = m.loops.length := by
  rcases h.loops with hloops | ⟨j, other, -, hloops⟩
  · rw [hloops]
  · rw [hloops, length_set]

/-- One step: a loop whose listener is closed comes closer to its end with each turn of its own. -/
theorem Orderly.loop_step (h : m.Orderly) (hdone : m.done = true) (hget : m.loops[i]? = some loop)
    (hclosed : loop.listenerClosed = true) (a : MultiListenerAction) (hreports : m.ReportsClosed a) :
    ∃ loop', (m.step a).loops[i]? = some loop' ∧ loop'.listenerClosed = true ∧
      loop'.phase.stepsLeft ≤ loop.phase.stepsLeft - (a.isTurnOf i).toNat := by
  rcases h.step_cases a with
    ⟨hkeeps, hturn⟩ | ⟨j, result, preferDone, other, other', rfl, hj, hstep, hless⟩
  · rw [hturn i loop hget]
    exact ⟨loop, hkeeps.loop_eq hget hclosed, hclosed, le_rfl⟩
  · by_cases hown : j = i
    · subst hown
      cases hget.symm.trans hj
      refine ⟨other', ?_, hstep.listener hclosed, ?_⟩
      · rw [hstep.loops, Threads.get_set hget]
      · rw [MultiListenerAction.isTurnOf, decide_eq_true rfl]
        exact hless hdone (hreports j result preferDone loop rfl hget hclosed)
    · refine ⟨loop, ?_, hclosed, ?_⟩
      · rw [hstep.loops, getElem?_set_ne hown, hget]
      · rw [MultiListenerAction.isTurnOf, decide_eq_false hown]
        exact le_rfl

theorem Orderly.done_step (h : m.Orderly) (hdone : m.done = true) (a : MultiListenerAction) :
    (m.step a).done = true := by
  rcases h.step_cases a with hkeeps | ⟨_, _, _, _, _, -, -, hstep, -⟩
  · exact hkeeps.1.done hdone
  · exact hstep.done.trans hdone

theorem Orderly.wg_step (h : m.Orderly) (hwg : m.wg = 0) (a : MultiListenerAction) :
    (m.step a).wg = 0 := by
  cases a with
  | turn j result preferDone => rw [MultiListener.step, h.turn_idle hwg, hwg]
  | _ => exact (keeps_step m (fun _ _ _ h ↦ MultiListenerAction.noConfusion h)).wg.trans hwg

theorem Orderly.length_step (h : m.Orderly) (a : MultiListenerAction) :
    (m.step a).loops.length = m.loops.length := by
  rcases h.step_cases a with hkeeps | ⟨_, _, _, _, _, -, -, hstep, -⟩
  · exact hkeeps.1.length_eq
  · rw [hstep.loops, length_set]

/-- Along a run every turn of a loop whose listener is closed counts. -/
theorem Orderly.loop_run (h : m.Orderly) (hdone : m.done = true) (hget : m.loops[i]? = some loop)
    (hclosed : loop.listenerClosed = true) {later : List MultiListenerAction}
    (hreports : Along MultiListener.step ReportsClosed m later) :
    ∃ loop', (run MultiListener.step m later).loops[i]? = some loop' ∧
      loop'.phase.stepsLeft ≤ loop.phase.stepsLeft - later.countP (·.isTurnOf i) := by
  induction later generalizing m loop with
  | nil => exact ⟨loop, hget, le_rfl⟩
  | cons a rest ih =>
    rcases h.loop_step hdone hget hclosed a hreports.1 with ⟨loop', hget', hclosed', hless⟩
    rcases ih (h.step a) (h.done_step hdone a) hget' hclosed' hreports.2 with
      ⟨loop'', hget'', hless'⟩
    have hcount : (a :: rest).countP (·.isTurnOf i) =
        rest.countP (·.isTurnOf i) + (a.isTurnOf i).toNat := by
      rw [countP_cons]
      cases a.isTurnOf i <;> rfl
    refine ⟨loop'', hget'', hless'.trans ?_⟩
    omega

/-! ## The end of the call -/

/-- The call that runs the function of `closeOnce` is late in it, or behind it. -/
inductive Underway (m : MultiListener) (call : ℕ) : Prop
  | running (phase : ClosePhase) : m.closes[call]? = some .calling →
      m.closeOnce = .running call phase → phase.late = true → Underway m call
  | finished : m.closes[call]? = some .calling → m.closeOnce = .finished → Underway m call
  | returned : m.closes[call]? = some .returned → Underway m call

/-- How many steps the call takes at most when no accept loop is left. -/
def closeLeft (m : MultiListener) (call : ℕ) : ℕ :=
  if m.closes[call]? = some .returned then 0
  else
    match m.closeOnce with
    | .running _ phase => phase.stepsLeft m.connCh.length
    | _ => 1

theorem closeLeft_running {phase : ClosePhase} (hcall : m.closes[call]? = some .calling)
    (hphase : m.closeOnce = .running call phase) :
    m.closeLeft call = phase.stepsLeft m.connCh.length := by
  rw [closeLeft, hcall, hphase, if_neg (by simp)]

theorem closeLeft_finished (hcall : m.closes[call]? = some .calling)
    (hfinished : m.closeOnce = .finished) : m.closeLeft call = 1 := by
  rw [closeLeft, hcall, hfinished, if_neg (by simp)]

theorem closeLeft_returned (hcall : m.closes[call]? = some .returned) : m.closeLeft call = 0 := by
  rw [closeLeft, if_pos hcall]

theorem Underway.congr (h : m.Underway call) (hcall : m'.closes[call]? = m.closes[call]?)
    (honce : m'.closeOnce = m.closeOnce) : m'.Underway call := by
  cases h with
  | running phase hcalling hphase hlate =>
    exact .running phase (hcall.trans hcalling) (honce.trans hphase) hlate
  | finished hcalling hfinished => exact .finished (hcall.trans hcalling) (honce.trans hfinished)
  | returned hreturned => exact .returned (hcall.trans hreturned)

/-- A step that keeps the call and does not fill the channel. -/
theorem closeLeft_le (hcall : m'.closes[call]? = m.closes[call]?)
    (honce : m'.closeOnce = m.closeOnce) (hch : m'.connCh.length ≤ m.connCh.length) :
    m'.closeLeft call ≤ m.closeLeft call := by
  rw [closeLeft, closeLeft, hcall, honce]
  split
  · exact Nat.le_refl 0
  · cases m.closeOnce with
    | running runner phase => cases phase <;> simp only [ClosePhase.stepsLeft] <;> omega
    | unused | finished => exact Nat.le_refl 1

/-- A step of the call itself. It has to wait for the accept loops only. -/
theorem Underway.closeStep_own (h : m.Underway call) :
    (m.closeStep call).Underway call ∧
      (m.wg = 0 → (m.closeStep call).closeLeft call ≤ m.closeLeft call - 1) := by
  cases h with
  | running phase hcall hphase hlate =>
    have hstep : m.closeStep call = m.closeBody call phase := by
      rw [closeStep, hcall, hphase]
      exact if_pos rfl
    rw [hstep, closeLeft_running hcall hphase]
    have hset : ∀ (m' : MultiListener) (next : ClosePhase), m'.closes = m.closes →
        next.late = true →
        next.stepsLeft m'.connCh.length ≤ phase.stepsLeft m.connCh.length - 1 →
        (m'.setClose call next).Underway call ∧ (m.wg = 0 →
          (m'.setClose call next).closeLeft call ≤ phase.stepsLeft m.connCh.length - 1) := by
      intro m' next hcloses hnext hless
      have hcall' : (m'.setClose call next).closes[call]? = some .calling := by
        rw [setClose, hcloses, hcall]
      exact ⟨.running next hcall' rfl hnext, fun _ ↦ (closeLeft_running hcall' rfl).trans_le hless⟩
    cases phase with
    | closingDone | closingListeners => cases hlate
    | waiting =>
      simp only [closeBody]
      split
      · exact hset m .closingConnCh rfl rfl le_rfl
      · next hwg => exact ⟨.running .waiting hcall hphase rfl, fun h ↦ absurd h hwg⟩
    | closingConnCh =>
      exact hset { m with connChClosed := true, crashed := m.crashed || m.connChClosed } .draining
        rfl rfl le_rfl
    | draining =>
      simp only [closeBody]
      split
      · next id rest hch =>
        refine hset { m with connCh := rest } (.dropping id) rfl rfl ?_
        rw [hch]
        simp only [ClosePhase.stepsLeft, length_cons]
        omega
      · have hdone : ({ m with closeOnce := .finished } : MultiListener).closeLeft call = 1 :=
          closeLeft_finished hcall rfl
        refine ⟨.finished hcall rfl, fun _ ↦ ?_⟩
        simp only [ClosePhase.stepsLeft]
        omega
    | dropping id =>
      exact hset { m with closed := m.closed ++ [id] } .draining rfl rfl le_rfl
  | finished hcall hfinished =>
    have hreturned : (m.closeStep call).closes[call]? = some .returned := by
      rw [closeStep, hcall, hfinished]
      exact Threads.get_set hcall
    refine ⟨.returned hreturned, fun _ ↦ ?_⟩
    rw [closeLeft_returned hreturned]
    exact Nat.zero_le _
  | returned hreturned =>
    have hsame : m.closeStep call = m := by rw [closeStep, hreturned]
    rw [hsame, closeLeft_returned hreturned]
    exact ⟨.returned hreturned, fun _ ↦ le_rfl⟩

/-- Another call waits as long as the call runs. -/
theorem Underway.closeStep_other (h : m.Underway call) (horderly : m.Orderly) {other : ℕ}
    (hother : other ≠ call) :
    (m.closeStep other).Underway call ∧ (m.closeStep other).closeLeft call ≤ m.closeLeft call := by
  have hsame : ∀ m' : MultiListener, m' = m →
      m'.Underway call ∧ m'.closeLeft call ≤ m.closeLeft call := by
    intro m' heq
    rw [heq]
    exact ⟨h, le_rfl⟩
  unfold closeStep
  split
  · split
    · next hunused =>
      cases h with
      | running phase _ hphase _ => cases hunused.symm.trans hphase
      | finished _ hfinished => cases hunused.symm.trans hfinished
      | returned hreturned =>
        have hfinished := horderly.returned (mem_of_getElem? hreturned)
        cases hunused.symm.trans hfinished
    · next runner phase hrunning =>
      cases h with
      | running _ _ hphase _ =>
        rw [hrunning, Once.running.injEq] at hphase
        rw [if_neg (by rw [hphase.1]; exact Ne.symm hother)]
        exact hsame m rfl
      | finished _ hfinished => cases hrunning.symm.trans hfinished
      | returned hreturned =>
        have hfinished := horderly.returned (mem_of_getElem? hreturned)
        cases hrunning.symm.trans hfinished
    · have hkept := getElem?_set_ne (a := CallPhase.returned) (l := m.closes) hother
      exact ⟨h.congr hkept rfl, closeLeft_le hkept rfl le_rfl⟩
  · exact hsame m rfl

theorem Underway.step (h : m.Underway call) (horderly : m.Orderly) (a : MultiListenerAction) :
    (m.step a).Underway call ∧ (m.wg = 0 →
      (m.step a).closeLeft call ≤ m.closeLeft call - (decide (a = .closeStep call)).toNat) := by
  have hkept : ∀ m' : MultiListener, m'.closes[call]? = m.closes[call]? →
      m'.closeOnce = m.closeOnce → m'.connCh.length ≤ m.connCh.length →
      m'.Underway call ∧ (m.wg = 0 → m'.closeLeft call ≤ m.closeLeft call) :=
    fun m' hcall honce hch ↦ ⟨h.congr hcall honce, fun _ ↦ closeLeft_le hcall honce hch⟩
  cases a with
  | turn j result preferDone =>
    cases hj : m.loops[j]? with
    | none =>
      have hsame : m.turn j result preferDone = m := by rw [MultiListener.turn, hj]
      rw [MultiListener.step, hsame]
      exact hkept m rfl rfl le_rfl
    | some other =>
      rcases horderly.turn_spec hj result preferDone with ⟨other', hstep, -⟩
      refine ⟨h.congr (congrArg (·[call]?) hstep.closes) hstep.closeOnce, fun hwg ↦ ?_⟩
      rw [MultiListener.step, horderly.turn_idle hwg]
      exact le_rfl
  | accept => exact hkept _ rfl rfl le_rfl
  | receive other =>
    simp only [MultiListener.step, MultiListener.receive]
    split
    · split
      · next id rest hch =>
        exact hkept _ rfl rfl (by rw [hch]; exact Nat.le_succ _)
      · split <;> exact hkept _ rfl rfl le_rfl
    · exact hkept _ rfl rfl le_rfl
  | close =>
    have hcall : (m.step .close).closes[call]? = m.closes[call]? := by
      have hlt : call < m.closes.length := by
        cases h with
        | running _ hcall | finished hcall | returned hcall =>
          exact (List.getElem?_eq_some_iff.mp hcall).1
      exact getElem?_append_left hlt
    exact hkept _ hcall rfl le_rfl
  | closeStep other =>
    by_cases hown : other = call
    · subst hown
      rw [decide_eq_true rfl]
      exact h.closeStep_own
    · have hdiffers : MultiListenerAction.closeStep other ≠ .closeStep call := by
        intro heq
        exact hown (MultiListenerAction.closeStep.inj heq)
      rw [decide_eq_false hdiffers]
      have hother := h.closeStep_other horderly hown
      exact ⟨hother.1, fun _ ↦ hother.2⟩

theorem Orderly.closeLeft_le (h : m.Orderly) (call : ℕ) : m.closeLeft call ≤ 132 := by
  have hroom : m.connCh.length ≤ 64 := h.room
  unfold closeLeft
  split
  · exact Nat.zero_le _
  · cases m.closeOnce with
    | running runner phase => cases phase <;> simp only [ClosePhase.stepsLeft] <;> omega
    | unused | finished => exact Nat.le_of_ble_eq_true rfl

/-- Along a run every step of the call counts, when no accept loop is left. -/
theorem Underway.run (h : m.Underway call) (horderly : m.Orderly) (hwg : m.wg = 0)
    (later : List MultiListenerAction) :
    (TimedRun.run MultiListener.step m later).Underway call ∧
      (TimedRun.run MultiListener.step m later).closeLeft call ≤
        m.closeLeft call - later.count (.closeStep call) := by
  induction later generalizing m with
  | nil => exact ⟨h, le_rfl⟩
  | cons a rest ih =>
    have hstep := h.step horderly a
    have hrest := ih hstep.1 (horderly.step a) (horderly.wg_step hwg a)
    have hless := hstep.2 hwg
    refine ⟨hrest.1, hrest.2.trans ?_⟩
    rw [count_cons]
    by_cases hown : a = .closeStep call
    · rw [decide_eq_true hown, Bool.toNat_true] at hless
      rw [if_pos (beq_iff_eq.mpr hown)]
      omega
    · rw [if_neg (by simpa using hown)]
      omega

theorem Underway.run_anyway (h : m.Underway call) (horderly : m.Orderly)
    (later : List MultiListenerAction) :
    (TimedRun.run MultiListener.step m later).Underway call := by
  have hboth := run_invariant_untimed (fun m : MultiListener ↦ m.Underway call ∧ m.Orderly)
    (fun _ a h ↦ ⟨(h.1.step h.2 a).1, h.2.step a⟩) later ⟨h, horderly⟩
  exact hboth.1

/-- A call that has no step left has returned. -/
theorem Underway.returned_of_closeLeft (h : m.Underway call) (hleft : m.closeLeft call = 0) :
    m.closes[call]? = some .returned := by
  cases h with
  | running phase hcall hphase hlate =>
    rw [closeLeft_running hcall hphase] at hleft
    cases phase <;> simp [ClosePhase.stepsLeft] at hleft
  | finished hcall hfinished =>
    rw [closeLeft_finished hcall hfinished] at hleft
    cases hleft
  | returned hreturned => exact hreturned

/-- No connection is left on its way when `Close` has returned. -/
theorem Orderly.held_returned (h : m.Orderly) (hreturned : .returned ∈ m.closes) : m.held = [] := by
  have hfinished := h.returned hreturned
  have hstaged := h.staged
  rw [hfinished] at hstaged
  have hloops : m.loops.flatMap (·.phase.conns) = [] := by
    apply flatMap_eq_nil_iff.mpr
    intro loop hloop
    rw [h.idle hstaged.1 _ hloop]
    rfl
  rw [held, hloops, hstaged.2.2, hfinished]
  rfl

end MultiListener

theorem multiListenerAfter_append (listeners : ℕ) (actions later : List MultiListenerAction) :
    multiListenerAfter listeners (actions ++ later) =
      run MultiListener.step (multiListenerAfter listeners actions) later :=
  run_append MultiListener.step (.newMultiListener listeners) actions later

theorem multiListenerAfter_length (listeners : ℕ) (actions : List MultiListenerAction) :
    (multiListenerAfter listeners actions).loops.length = listeners := by
  have hboth := run_invariant_untimed
    (fun m : MultiListener ↦ m.Orderly ∧ m.loops.length = listeners)
    (fun _ a h ↦ ⟨h.1.step a, (h.1.length_step a).trans h.2⟩) actions
    ⟨MultiListener.orderly_new _, length_replicate⟩
  exact hboth.2

/-- The run goes on until the accept loops have ended, and then until the call has returned. -/
theorem close_returns {listeners call : ℕ} {actions later last : List MultiListenerAction}
    (hcall : (multiListenerAfter listeners actions).closes[call]? = some .calling)
    (hwaiting : (multiListenerAfter listeners actions).closeOnce = .running call .waiting)
    (hreports : Along MultiListener.step MultiListener.ReportsClosed
      (multiListenerAfter listeners actions) later)
    (hturns : ∀ i < listeners, 3 ≤ later.countP (·.isTurnOf i))
    (hsteps : 132 ≤ last.count (.closeStep call)) :
    (multiListenerAfter listeners (actions ++ later ++ last)).closes[call]? = some .returned := by
  have horderly := multiListenerAfter_orderly listeners actions
  have hstaged := horderly.staged
  rw [hwaiting] at hstaged
  have horderly' := multiListenerAfter_orderly listeners (actions ++ later)
  have hended : (multiListenerAfter listeners (actions ++ later)).wg = 0 := by
    have hnone : (multiListenerAfter listeners (actions ++ later)).loops.countP
        (·.phase.running) = 0 := by
      apply countP_eq_zero.mpr
      intro loop' hloop'
      rcases mem_iff_getElem?.mp hloop' with ⟨i, hget'⟩
      have hi : i < listeners := by
        rw [← multiListenerAfter_length listeners]
        exact (List.getElem?_eq_some_iff.mp hget').1
      rw [← multiListenerAfter_length listeners] at hi
      have hget := getElem?_eq_getElem hi
      have hclosed := hstaged.2.2 _ (mem_of_getElem? hget)
      rcases horderly.loop_run hstaged.1 hget hclosed hreports with ⟨loop'', hget'', hleft⟩
      rw [← multiListenerAfter_append, hget', Option.some.injEq] at hget''
      have hthree := hturns i (multiListenerAfter_length listeners _ ▸ hi)
      have hmost := LoopPhase.stepsLeft_le (multiListenerAfter ..).loops[i].phase
      rw [hget'', LoopPhase.running_of_stepsLeft (by omega)]
      exact Bool.noConfusion
    rw [horderly'.wg, hnone]
    rfl
  have hunderway : (multiListenerAfter listeners (actions ++ later)).Underway call := by
    rw [multiListenerAfter_append]
    exact (MultiListener.Underway.running _ hcall hwaiting rfl).run_anyway horderly later
  have hlast := hunderway.run horderly' hended last
  rw [← multiListenerAfter_append] at hlast
  have hmost := horderly'.closeLeft_le call
  exact hlast.1.returned_of_closeLeft (by omega)

/-- In every state each connection that a listener has returned is held by one goroutine or the
channel, or was closed once, or was returned by one `Accept`, and nothing was sent to a closed channel.
When a `Close` call has returned none is held. It does return, if closed listeners report so. -/
theorem multi_listener_never_leaks (listeners : ℕ) (actions : List MultiListenerAction) :
    let m := multiListenerAfter listeners actions
    m.crashed = false ∧
      (∀ id < m.accepted, m.held.count id + m.closed.count id + m.delivered.count id = 1) ∧
      (.returned ∈ m.closes → ∀ id < m.accepted, m.closed.count id + m.delivered.count id = 1) ∧
      ∀ call, m.closes[call]? = some .calling → m.closeOnce = .running call .waiting →
        ∀ later last : List MultiListenerAction,
          Along MultiListener.step MultiListener.ReportsClosed m later →
          (∀ i < listeners, 3 ≤ later.countP (·.isTurnOf i)) →
          132 ≤ last.count (.closeStep call) →
          (multiListenerAfter listeners (actions ++ later ++ last)).closes[call]? =
            some .returned := by
  intro m
  have horderly : m.Orderly := multiListenerAfter_orderly listeners actions
  have hone : ∀ id < m.accepted,
      m.held.count id + m.closed.count id + m.delivered.count id = 1 := by
    intro id hid
    rw [horderly.custody id]
    exact count_eq_one_of_mem nodup_range (mem_range.mpr hid)
  refine ⟨horderly.intact, hone, ?_, ?_⟩
  · intro hreturned id hid
    have hplace := hone id hid
    rw [horderly.held_returned hreturned, count_nil, Nat.zero_add] at hplace
    exact hplace
  · intro call hcall hwaiting later last hreports hturns hsteps
    exact close_returns hcall hwaiting hreports hturns hsteps

end RanHoneypot.Trap
