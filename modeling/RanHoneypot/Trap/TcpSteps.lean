import RanHoneypot.Data.Threads
import RanHoneypot.Trap.TcpServer

/-!
# What a step of a TCP server does

The phase of a connection decides whether it holds a slot, whether it is in the connection table,
whether the wait group counts it, and what has been done for it so far. `ConnStep` says how one turn of
a connection changes all of this, and it is all that the results about the server use of a turn.
-/

namespace RanHoneypot.Trap

open List

namespace ConnPhase

/-- The connection was admitted by the limiter and has not given its slot back. -/
def holds : ConnPhase → Bool
  | registering | refusing | serving | closing | releasing => true
  | _ => false

/-- The wait group counts the connection. -/
def counted : ConnPhase → Bool
  | serving | closing | releasing | unregistering | finishing => true
  | _ => false

def inTable : ConnPhase → Bool
  | serving | closing | releasing | unregistering => true
  | _ => false

/-- A handler was started for the connection. -/
def handled : ConnPhase → Bool
  | serving | closing | releasing | unregistering | finishing | served => true
  | _ => false

/-- The server has closed the connection. -/
def closed : ConnPhase → Bool
  | releasing | unregistering | finishing | served | turnedAway => true
  | _ => false

/-- How many turns the connection needs at most until it is done with. -/
def stepsLeft : ConnPhase → ℕ
  | checking => 9
  | shunning => 8
  | acquiring => 7
  | registering => 6
  | serving => 5
  | closing => 4
  | releasing => 3
  | unregistering => 2
  | finishing => 1
  | refusing => 2
  | refused => 1
  | rejecting => 1
  | served => 0
  | turnedAway => 0

end ConnPhase

/-! ## The slot of a session -/

/-- The calls made for a session that has ended its use of the limiter: none, or one of each kind with
the same host. -/
def Slot.Settled (slot : Slot) (host : String) : Prop := slot = {} ∨ slot = ⟨[host], [host]⟩

/-- The calls made for a session, which is held or settled. -/
def Slot.Balanced (slot : Slot) (host : String) (holds : Bool) : Prop :=
  if holds then slot = ⟨[host], []⟩ else slot.Settled host

namespace TcpConn

def held (c : TcpConn) : List String := if c.phase.holds then [c.host] else []

/-- The calls made for the connection in each phase. -/
def Account (c : TcpConn) : Prop :=
  match c.phase with
  | .checking | .shunning | .acquiring | .rejecting => c.slot = {}
  | .registering | .refusing | .serving | .closing | .releasing => c.slot = ⟨[c.host], []⟩
  | .refused | .unregistering | .finishing | .served => c.slot = ⟨[c.host], [c.host]⟩
  | .turnedAway => c.slot.Settled c.host

/-- What holds of a single connection. -/
structure Sound (c : TcpConn) : Prop where
  closed : c.phase.closed = true → c.closed = true
  handled : c.handled = c.phase.handled
  account : c.Account

theorem Sound.balanced {c : TcpConn} (h : c.Sound) : c.slot.Balanced c.host c.phase.holds := by
  have haccount := h.account
  unfold Account at haccount
  cases hphase : c.phase with
  | turnedAway =>
    rw [hphase] at haccount
    exact haccount
  | checking | shunning | acquiring | rejecting =>
    rw [hphase] at haccount
    exact .inl haccount
  | registering | refusing | serving | closing | releasing =>
    rw [hphase] at haccount
    exact haccount
  | refused | unregistering | finishing | served =>
    rw [hphase] at haccount
    exact .inr haccount

end TcpConn

/-! ## One turn of a connection -/

/-- One turn takes connection `id` of `s` from `c` to `c'`. -/
structure ConnStep (s : TcpServer) (l : Limiter) (id : ℕ) (c : TcpConn) (s' : TcpServer)
    (l' : Limiter) (c' : TcpConn) : Prop where
  conns : s'.conns = s.conns.set id c' := by rfl
  stopping : s'.stopping = s.stopping := by rfl
  stops : s'.stops = s.stops := by rfl
  host : c'.host = c.host := by rfl
  acquired : c.slot.acquired <+: c'.slot.acquired := by exact List.prefix_refl _
  slots : SlotMove l c.held l' c'.held := by exact .keep (.refl _)
  wg : s'.wg + c.phase.counted.toNat = s.wg + c'.phase.counted.toNat := by rfl
  table : (id ∈ s.table ↔ c.phase.inTable = true) → ∀ other, other ∈ s'.table ↔
    if other = id then c'.phase.inTable = true else other ∈ s.table
  sound : c.Sound → c'.Sound
  less : c'.phase.stepsLeft ≤ c.phase.stepsLeft - 1 := by exact Nat.le_of_ble_eq_true rfl
  admits : s.stopping = true → c'.phase.counted = true → c.phase.counted = true
  starts : s.stopping = true → c'.phase.handled = true → c.phase.handled = true

namespace TcpServer

variable {s : TcpServer} {l : Limiter} {id : ℕ} {c c' : TcpConn}

variable {host : String} {closed handled : Bool} {slot : Slot}

theorem table_same (hinTable : c'.phase.inTable = c.phase.inTable)
    (hregistered : id ∈ s.table ↔ c.phase.inTable = true) (other : ℕ) :
    other ∈ s.table ↔ if other = id then c'.phase.inTable = true else other ∈ s.table := by
  split
  · next hother =>
    rw [hother, hinTable]
    exact hregistered
  · rfl

/-- A turn that keeps the table, the wait group and the limiter. -/
theorem connStep_quiet (hsound : c.Sound → c'.Sound)
    (hless : c'.phase.stepsLeft ≤ c.phase.stepsLeft - 1 := by exact Nat.le_of_ble_eq_true rfl)
    (hhost : c'.host = c.host := by rfl) (hslot : c'.slot = c.slot := by rfl)
    (hholds : c'.phase.holds = c.phase.holds := by rfl)
    (hcounted : c'.phase.counted = c.phase.counted := by rfl)
    (hinTable : c'.phase.inTable = c.phase.inTable := by rfl)
    (hhandled : c'.phase.handled = c.phase.handled := by rfl) :
    ConnStep s l id c (s.setConn id c') l c' where
  host := hhost
  acquired := by rw [hslot]
  slots := by
    apply SlotMove.keep
    rw [TcpConn.held, TcpConn.held, hholds, hhost]
  wg := by
    rw [hcounted]
    rfl
  table := table_same hinTable
  sound := hsound
  less := hless
  admits := fun _ h ↦ hcounted ▸ h
  starts := fun _ h ↦ hhandled ▸ h

/-- The limiter admits the connection. -/
theorem connStep_acquired (hok : (l.acquire host).1 = true) :
    ConnStep s l id ⟨host, .acquiring, closed, handled, slot⟩
      (s.setConn id ⟨host, .registering, closed, handled, slot.take host⟩) (l.acquire host).2
      ⟨host, .registering, closed, handled, slot.take host⟩ where
  acquired := prefix_append ..
  slots := .acquire host hok (.refl _)
  table := table_same rfl
  sound := by
    intro h
    have hunused : slot = {} := h.account
    exact ⟨nofun, h.handled, by rw [hunused]; rfl⟩
  admits := nofun
  starts := nofun

/-- The server is not stopping: the connection is registered and its goroutine started. -/
theorem connStep_registered (hrunning : s.stopping = false) :
    ConnStep s l id ⟨host, .registering, closed, handled, slot⟩
      ({ s with table := s.table ++ [id], wg := s.wg + 1 }.setConn id
        ⟨host, .serving, closed, true, slot⟩) l ⟨host, .serving, closed, true, slot⟩ where
  wg := by simp [setConn, ConnPhase.counted]
  table := by
    intro _ other
    by_cases hother : other = id
    · simp [setConn, hother, ConnPhase.inTable]
    · simp [setConn, hother]
  sound := fun h ↦ ⟨nofun, rfl, h.account⟩
  admits := fun hstopping ↦ absurd (hrunning.symm.trans hstopping) (by decide)
  starts := fun hstopping ↦ absurd (hrunning.symm.trans hstopping) (by decide)

theorem giveBack_held (hslot : slot = ⟨[host], []⟩) : slot.giveBack host = ⟨[host], [host]⟩ := by
  rw [hslot]
  rfl

/-- The slot is given back. -/
theorem connStep_released (hhost : c'.host = c.host) (hslot : c'.slot = c.slot.giveBack c.host)
    (hholds : c.phase.holds = true) (hgiven : c'.phase.holds = false)
    (hcounted : c'.phase.counted = c.phase.counted) (hinTable : c'.phase.inTable = c.phase.inTable)
    (hhandled : c'.phase.handled = c.phase.handled) (hsound : c.Sound → c'.Sound)
    (hless : c'.phase.stepsLeft ≤ c.phase.stepsLeft - 1) :
    ConnStep s l id c (s.setConn id c') (l.release c.host) c' where
  host := hhost
  acquired := by
    rw [hslot]
    exact prefix_refl _
  slots := by
    apply SlotMove.release c.host
    rw [TcpConn.held, TcpConn.held, hholds, hgiven]
    rfl
  wg := by
    rw [hcounted]
    rfl
  table := table_same hinTable
  sound := hsound
  less := hless
  admits := fun _ h ↦ hcounted ▸ h
  starts := fun _ h ↦ hhandled ▸ h

theorem connStep_unregistered :
    ConnStep s l id ⟨host, .unregistering, closed, handled, slot⟩
      ({ s with table := s.table.filter (· ≠ id) }.setConn id
        ⟨host, .finishing, closed, handled, slot⟩) l ⟨host, .finishing, closed, handled, slot⟩ where
  table := by
    intro _ other
    by_cases hother : other = id
    · simp [setConn, hother, ConnPhase.inTable]
    · simp [setConn, hother]
  sound := fun h ↦ ⟨fun _ ↦ h.closed rfl, h.handled, h.account⟩
  admits := fun _ _ ↦ rfl
  starts := fun _ _ ↦ rfl

theorem connStep_finished :
    ConnStep s l id ⟨host, .finishing, closed, handled, slot⟩
      ({ s with wg := s.wg - 1 }.setConn id ⟨host, .served, closed, handled, slot⟩) l
      ⟨host, .served, closed, handled, slot⟩ where
  wg := by
    simp [setConn, ConnPhase.counted]
  table := table_same rfl
  sound := fun h ↦ ⟨fun _ ↦ h.closed rfl, h.handled, h.account⟩
  admits := nofun
  starts := fun _ _ ↦ rfl

/-- Every turn of a connection is a `ConnStep`. -/
theorem connStep_spec (hget : s.conns[id]? = some c) (shunned : Bool) :
    ∃ c', ConnStep s l id c (s.connStep l id c shunned).1 (s.connStep l id c shunned).2 c' := by
  have hdone : c.phase.stepsLeft = 0 → ConnStep s l id c s l c := by
    intro hleft
    have hsame : s.setConn id c = s := by rw [setConn, Threads.set_self hget]
    have hquiet : ConnStep s l id c (s.setConn id c) l c :=
      connStep_quiet (fun h ↦ h) (by omega)
    rwa [hsame] at hquiet
  rcases c with ⟨host, phase, closed, handled, slot⟩
  unfold connStep
  cases phase with
  | checking | shunning =>
    dsimp only
    split
    · exact ⟨_, connStep_quiet fun h ↦ ⟨fun _ ↦ rfl, h.handled, .inl h.account⟩⟩
    · exact ⟨_, connStep_quiet fun h ↦ ⟨nofun, h.handled, h.account⟩⟩
  | acquiring =>
    dsimp only
    cases hok : (l.acquire host).1 with
    | false =>
      rw [Limiter.acquire_eq_false hok]
      exact ⟨_, connStep_quiet fun h ↦ ⟨nofun, h.handled, h.account⟩⟩
    | true => exact ⟨_, connStep_acquired hok⟩
  | rejecting =>
    exact ⟨_, connStep_quiet fun h ↦ ⟨fun _ ↦ rfl, h.handled, .inl h.account⟩⟩
  | registering =>
    dsimp only [register]
    split
    · exact ⟨_, connStep_quiet fun h ↦ ⟨nofun, h.handled, h.account⟩⟩
    · next hrunning => exact ⟨_, connStep_registered (by simpa using hrunning)⟩
  | refusing =>
    exact ⟨_, connStep_released rfl rfl rfl rfl rfl rfl rfl
      (fun h ↦ ⟨nofun, h.handled, giveBack_held h.account⟩)
      (Nat.le_of_ble_eq_true rfl)⟩
  | refused =>
    exact ⟨_, connStep_quiet fun h ↦ ⟨fun _ ↦ rfl, h.handled, .inr h.account⟩⟩
  | serving =>
    exact ⟨_, connStep_quiet fun h ↦ ⟨nofun, h.handled, h.account⟩⟩
  | closing =>
    exact ⟨_, connStep_quiet fun h ↦ ⟨fun _ ↦ rfl, h.handled, h.account⟩⟩
  | releasing =>
    exact ⟨_, connStep_released rfl rfl rfl rfl rfl rfl rfl
      (fun h ↦ ⟨fun _ ↦ h.closed rfl, h.handled, giveBack_held h.account⟩) (Nat.le_of_ble_eq_true rfl)⟩
  | unregistering => exact ⟨_, connStep_unregistered⟩
  | finishing => exact ⟨_, connStep_finished⟩
  | served | turnedAway => exact ⟨_, hdone rfl⟩

end TcpServer

/-! ## Any step, seen from one connection -/

/-- `c'` is the connection `c` some steps later. -/
structure TcpConn.Later (c c' : TcpConn) : Prop where
  host : c'.host = c.host
  acquired : c.slot.acquired <+: c'.slot.acquired
  less : c'.phase.stepsLeft ≤ c.phase.stepsLeft
  sound : c.Sound → c'.Sound

theorem TcpConn.Later.refl (c : TcpConn) : c.Later c :=
  ⟨rfl, prefix_refl _, le_rfl, fun h ↦ h⟩

theorem TcpConn.Later.setClosed (c : TcpConn) : c.Later { c with closed := true } :=
  ⟨rfl, prefix_refl _, le_rfl, fun h ↦ ⟨fun _ ↦ rfl, h.handled, h.account⟩⟩

theorem ConnStep.later {s s' : TcpServer} {l l' : Limiter} {id : ℕ} {c c' : TcpConn}
    (h : ConnStep s l id c s' l' c') : c.Later c' :=
  ⟨h.host, h.acquired, h.less.trans (Nat.sub_le _ _), h.sound⟩

namespace TcpServer

variable {s s' : TcpServer}

/-- What a step does to the connections and the limiter. The flag of a stopping server stays set. -/
inductive Effect (s : TcpServer) (l : Limiter) (s' : TcpServer) : Limiter → Prop
  | quiet (hconns : s'.conns = s.conns := by rfl)
      (hstopping : s.stopping = true → s'.stopping = true := by exact fun h ↦ h) : Effect s l s' l
  | closed {id : ℕ} {c : TcpConn} (hget : s.conns[id]? = some c)
      (hconns : s'.conns = s.conns.set id { c with closed := true } := by rfl)
      (hstopping : s'.stopping = s.stopping := by rfl) : Effect s l s' l
  | turn {id : ℕ} {c c' : TcpConn} {s'' : TcpServer} {l' : Limiter} (hget : s.conns[id]? = some c)
      (hstep : ConnStep s l id c s'' l' c') (hconns : s'.conns = s''.conns)
      (hstopping : s'.stopping = s''.stopping) : Effect s l s' l'
  | accepted (host : String) (hconns : s'.conns = s.conns ++ [{ host := host }] := by rfl)
      (hstopping : s'.stopping = s.stopping := by rfl) : Effect s l s' l

theorem conns_resumeStart (s : TcpServer) (id : ℕ) : (s.resumeStart id).conns = s.conns := by
  unfold resumeStart
  split <;> rfl

theorem stopping_resumeStart (s : TcpServer) (id : ℕ) :
    (s.resumeStart id).stopping = s.stopping := by
  unfold resumeStart
  split <;> rfl

theorem effect_stopStep (s : TcpServer) (l : Limiter) (call : ℕ) :
    Effect s l (s.stopStep call) l := by
  unfold stopStep
  split
  · exact .quiet rfl fun _ ↦ rfl
  · exact .quiet
  · next id rest _ =>
    unfold closeConn
    cases hget : s.conns[id]? with
    | none => exact .quiet
    | some c => exact .closed hget
  · split <;> exact .quiet
  · exact .quiet
  · exact .quiet

theorem effect_step (s : TcpServer) (l : Limiter) (a : TcpAction) :
    Effect s l (s.step l a).1 (s.step l a).2 := by
  cases a with
  | turn id shunned =>
    simp only [step, turn]
    cases hget : s.conns[id]? with
    | none => exact .quiet
    | some c =>
      rcases connStep_spec (l := l) hget shunned with ⟨c', hstep⟩
      exact .turn hget hstep (conns_resumeStart ..) (stopping_resumeStart ..)
  | stopStep call => exact effect_stopStep s l call
  | accept host =>
    simp only [step, accept]
    split
    · exact .accepted host
    · exact .quiet
  | afterFunc id =>
    simp only [step, afterFunc]
    cases hget : s.conns[id]? with
    | none => exact .quiet
    | some c =>
      dsimp only
      split
      · exact .closed hget
      · exact .quiet
  | listen | bind | acceptError | stopTimeout =>
    simp only [step, listen, bind, acceptError, stopTimeout]
    split <;> exact .quiet
  | stop | cancel => exact .quiet

theorem Effect.stopping {l l' : Limiter} (h : Effect s l s' l') (hstopping : s.stopping = true) :
    s'.stopping = true := by
  cases h with
  | quiet _ hkept => exact hkept hstopping
  | turn _ hstep _ hkept => rw [hkept, hstep.stopping, hstopping]
  | closed _ _ hkept | accepted _ _ hkept => exact hkept.trans hstopping

/-- What happens to the connection with number `id`: it goes on, or it is accepted now. -/
inductive Passes (s s' : TcpServer) (id : ℕ) : Prop
  | goesOn {c c' : TcpConn} : s.conns[id]? = some c → s'.conns[id]? = some c' → c.Later c' →
      (s.stopping = true → c'.phase.handled = true → c.phase.handled = true) → Passes s s' id
  | absent : s.conns[id]? = none → s'.conns[id]? = none → Passes s s' id
  | accepted (host : String) : s.conns[id]? = none → s'.conns[id]? = some { host := host } →
      Passes s s' id

theorem passes_same (hconns : s'.conns = s.conns) (id : ℕ) : Passes s s' id := by
  cases hget : s.conns[id]? with
  | none => exact .absent hget (by rw [hconns, hget])
  | some c => exact .goesOn hget (by rw [hconns, hget]) (.refl c) (fun _ h ↦ h)

theorem passes_set {other : ℕ} {c c' : TcpConn} (hget : s.conns[other]? = some c)
    (hconns : s'.conns = s.conns.set other c') (hlater : c.Later c')
    (hstarts : s.stopping = true → c'.phase.handled = true → c.phase.handled = true) (id : ℕ) :
    Passes s s' id := by
  by_cases hid : id = other
  · refine .goesOn (hid ▸ hget) ?_ hlater hstarts
    rw [hconns, hid, Threads.get_set hget]
  · have hsame : s'.conns[id]? = s.conns[id]? := by
      rw [hconns, getElem?_set_ne (Ne.symm hid)]
    cases hget' : s.conns[id]? with
    | none => exact .absent hget' (hsame.trans hget')
    | some other => exact .goesOn hget' (hsame.trans hget') (.refl other) (fun _ h ↦ h)

theorem Effect.passes {l l' : Limiter} (h : Effect s l s' l') (id : ℕ) : Passes s s' id := by
  cases h with
  | quiet hconns => exact passes_same hconns id
  | closed hget hconns => exact passes_set hget hconns (.setClosed _) (fun _ h ↦ h) id
  | turn hget hstep hconns =>
    exact passes_set hget (hconns.trans hstep.conns) hstep.later hstep.starts id
  | accepted host hconns =>
    have hnext := Threads.get_concat s.conns { host := host } id
    rw [← hconns] at hnext
    split at hnext
    · next hid => exact .accepted host (by rw [hid, getElem?_eq_none le_rfl]) hnext
    · cases hget : s.conns[id]? with
      | none => exact .absent hget (hnext.trans hget)
      | some c => exact .goesOn hget (hnext.trans hget) (.refl c) (fun _ h ↦ h)

theorem sound_fresh (host : String) : ({ host := host } : TcpConn).Sound :=
  ⟨nofun, rfl, rfl⟩

theorem Effect.sound {l l' : Limiter} (heffect : Effect s l s' l') (h : ∀ c ∈ s.conns, c.Sound) :
    ∀ c ∈ s'.conns, c.Sound := by
  cases heffect with
  | quiet hconns =>
    rw [hconns]
    exact h
  | closed hget hconns =>
    rw [hconns]
    exact Threads.forall_set h ((TcpConn.Later.setClosed _).sound (h _ (mem_of_getElem? hget)))
  | turn hget hstep hconns =>
    rw [hconns, hstep.conns]
    exact Threads.forall_set h (hstep.sound (h _ (mem_of_getElem? hget)))
  | accepted host hconns =>
    rw [hconns]
    exact Threads.forall_concat h (sound_fresh host)

end TcpServer

end RanHoneypot.Trap
