import RanHoneypot.Trap.ListenerCustody
import RanHoneypot.Trap.ProxyListener

/-!
# Safety of the PROXY listener

The phase of a raw connection decides whether it holds a place in the semaphore, whether it is
registered for `Close`, and what has become of it. From a peer that is not trusted nothing is read: its
connection goes straight from the check of the accept loop to its end. Every other connection is handed
to one `Accept` call or closed before its handshake gives its place back.
-/

namespace RanHoneypot.Trap

open TimedRun List RawConn Threads

open Config (SocketAddr)

namespace RawPhase

/-- The handshake of the connection runs. -/
def running : RawPhase → Bool
  | checking | admitting | ended => false
  | _ => true

/-- The handshake is registered for `Close`. -/
def registered : RawPhase → Bool
  | reading | unregistering _ => true
  | _ => false

/-- How many turns the connection needs at most, if it does not have to wait for the mutex. -/
def stepsLeft : RawPhase → ℕ
  | checking => 8
  | admitting => 7
  | registering => 6
  | reading => 5
  | unregistering _ => 4
  | offering => 3
  | refusing | rejecting | abandoning => 2
  | releasing => 1
  | ended => 0

end RawPhase

namespace RawConn

/-- What has become of the connection in each phase. A connection that is on its way, or was handed
over, is closed only by `Close`, which has closed `done` before. -/
def Account (done : Bool) (c : RawConn) : Prop :=
  match c.phase with
  | .checking | .admitting | .registering | .refusing =>
    c.read = 0 ∧ c.handed = false ∧ c.reason = none ∧ (c.closed = true → done = true)
  | .reading | .unregistering _ | .rejecting | .offering | .abandoning =>
    c.handed = false ∧ c.reason = none ∧ (c.closed = true → done = true)
  | .releasing | .ended =>
    (c.handed = true ∨ c.closed = true) ∧ (c.handed = true → c.closed = true → done = true)

/-- What holds of a single connection. -/
structure Sound (trusts : SocketAddr → Bool) (done : Bool) (c : RawConn) : Prop where
  account : c.Account done
  untrusted : trusts c.peer = false → c.read = 0 ∧ c.handed = false ∧
    (c.phase = .checking ∨ c.phase = .ended ∧ c.reason = some .untrustedPeer)

variable {trusts : SocketAddr → Bool} {done : Bool} {c : RawConn}

theorem sound_of_trusted (hpeer : trusts c.peer = true) (haccount : c.Account done) :
    c.Sound trusts done :=
  ⟨haccount, fun huntrusted ↦ Bool.noConfusion (hpeer.symm.trans huntrusted)⟩

/-- Behind the check the peer is trusted. -/
theorem Sound.trusted (h : c.Sound trusts done) (hchecked : c.phase ≠ .checking)
    (hopen : c.phase ≠ .ended) : trusts c.peer = true := by
  apply Bool.of_not_eq_false
  intro huntrusted
  rcases (h.untrusted huntrusted).2.2 with hphase | hphase
  · exact hchecked hphase
  · exact hopen hphase.1

/-- A turn behind the check. -/
theorem Sound.next {c' : RawConn} (h : c.Sound trusts done) (haccount : c'.Account done)
    (hchecked : c.phase ≠ .checking := by simp) (hopen : c.phase ≠ .ended := by simp)
    (hpeer : c'.peer = c.peer := by rfl) : c'.Sound trusts done :=
  sound_of_trusted (hpeer ▸ h.trusted hchecked hopen) haccount

/-- Once `done` is closed, `Close` can close the connection at any time. -/
theorem Sound.close (h : c.Sound trusts done) {closed : Bool} (hclosed : c.closed = true → closed = true) :
    ({ c with closed := closed } : RawConn).Sound trusts true := by
  refine ⟨?_, h.untrusted⟩
  have haccount := h.account
  rcases c with ⟨peer, phase, closed', read, handed, reason⟩
  cases phase with
  | releasing | ended => exact ⟨haccount.1.imp_right hclosed, fun _ _ ↦ rfl⟩
  | checking | admitting | registering | refusing =>
    exact ⟨haccount.1, haccount.2.1, haccount.2.2.1, fun _ ↦ rfl⟩
  | reading | unregistering ok | rejecting | offering | abandoning =>
    exact ⟨haccount.1, haccount.2.1, fun _ ↦ rfl⟩

end RawConn

namespace ProxyListener

variable {trusts : SocketAddr → Bool} {p p' : ProxyListener} {id : ℕ} {c c' : RawConn}

/-- The connections that `Accept` calls have returned. -/
def delivered (p : ProxyListener) : List ℕ := p.accepts.flatMap ReceivePhase.conns

/-! ## One turn of a connection -/

theorem pending_same (hregistered : c'.phase.registered = c.phase.registered)
    (hpending : id ∈ p.pending ↔ c.phase.registered = true) (other : ℕ) : other ∈ p.pending ↔
      if other = id then c'.phase.registered = true else other ∈ p.pending := by
  by_cases hown : other = id
  · rw [if_pos hown, hown, hregistered, hpending]
  · rw [if_neg hown]

theorem delivered_same (hhanded : c'.handed = c.handed) (other : ℕ) : p.delivered.count other =
    p.delivered.count other + if other = id ∧ c.handed = false then c'.handed.toNat else 0 := by
  split
  · next h => rw [hhanded, h.2, Bool.toNat_false, Nat.add_zero]
  · rfl

/-- One turn takes connection `id` of `p` from `c` to `c'`. -/
structure RawStep (trusts : SocketAddr → Bool) (p : ProxyListener) (id : ℕ) (c : RawConn)
    (p' : ProxyListener) (c' : RawConn) : Prop where
  conns : p'.conns = p.conns.set id c' := by rfl
  done : p'.done = p.done := by rfl
  mu : p'.mu = p.mu := by rfl
  closeOnce : p'.closeOnce = p.closeOnce := by rfl
  closes : p'.closes = p.closes := by rfl
  sem : p'.sem + c.phase.running.toNat = p.sem + c'.phase.running.toNat := by rfl
  room : p.sem ≤ maxPendingHandshakes → p'.sem ≤ maxPendingHandshakes := by exact fun h ↦ h
  pending : (id ∈ p.pending ↔ c.phase.registered = true) → ∀ other, other ∈ p'.pending ↔
    if other = id then c'.phase.registered = true else other ∈ p.pending := by
      exact pending_same rfl
  shrinks : p.done = true → p'.pending ⊆ p.pending := by exact fun _ _ h ↦ h
  locked : p.mu = true → p'.pending = p.pending := by exact fun _ ↦ rfl
  delivered : ∀ other, p'.delivered.count other =
    p.delivered.count other + if other = id ∧ c.handed = false then c'.handed.toNat else 0 := by
      exact delivered_same rfl
  keeps : c.handed = true → c'.handed = true := by exact fun h ↦ h
  dropped : p'.dropped + c.reason.isSome.toNat = p.dropped + c'.reason.isSome.toNat := by rfl
  sound : c'.Sound trusts p.done
  closed : c.closed = true → c'.closed = true := by exact fun h ↦ h

/-- A turn that only moves the connection, without a change of its place and its registration. -/
theorem rawStep_quiet (hsound : c'.Sound trusts p.done)
    (hclosed : c.closed = true → c'.closed = true := by exact fun h ↦ h)
    (hrunning : c'.phase.running = c.phase.running := by rfl)
    (hregistered : c'.phase.registered = c.phase.registered := by rfl)
    (hhanded : c'.handed = c.handed := by rfl) (hreason : c'.reason = c.reason := by rfl) :
    RawStep trusts p id c (p.setConn id c') c' where
  sem := by rw [hrunning]; rfl
  pending := pending_same hregistered
  delivered := delivered_same hhanded
  keeps := fun h ↦ hhanded.trans h
  dropped := by rw [hreason]; rfl
  sound := hsound
  closed := hclosed

/-- The connection waits for the mutex, or has ended. -/
theorem rawStep_none (hget : p.conns[id]? = some c) (hsound : c.Sound trusts p.done) :
    RawStep trusts p id c p c where
  conns := (set_self hget).symm
  sound := hsound

/-- The connection is dropped, by the accept loop or by its handshake. -/
theorem rawStep_drop (loop : RawLoopPhase) (reason : DropReason) {next : RawPhase}
    (hreason : c.reason = none)
    (hsound :
      ({ c with closed := true, reason := some reason, phase := next } : RawConn).Sound trusts p.done)
    (hrunning : next.running = c.phase.running := by rfl)
    (hregistered : next.registered = c.phase.registered := by rfl) :
    RawStep trusts p id c ({ p with loop := loop }.drop id c reason next)
      { c with closed := true, reason := some reason, phase := next } where
  sem := by rw [hrunning]; rfl
  pending := pending_same hregistered
  dropped := by rw [hreason]; rfl
  sound := hsound
  closed := fun _ ↦ rfl

theorem rawStep_registered (hphase : c.phase = .registering) (hfree : p.mu = false)
    (hopen : p.done = false)
    (hsound : ({ c with phase := .reading } : RawConn).Sound trusts p.done) :
    RawStep trusts p id c
      ({ p with pending := p.pending ++ [id] }.setConn id { c with phase := .reading })
      { c with phase := .reading } where
  sem := by rw [hphase]; rfl
  pending := by
    intro _ other
    simp only [setConn, mem_append]
    by_cases hown : other = id
    · simp [hown, RawPhase.registered]
    · simp [hown]
  shrinks := fun hdone ↦ Bool.noConfusion (hopen.symm.trans hdone)
  locked := fun hmu ↦ Bool.noConfusion (hfree.symm.trans hmu)
  sound := hsound

theorem rawStep_unregistered {ok : Bool} (hphase : c.phase = .unregistering ok)
    (hfree : p.mu = false) {next : RawPhase} (hrunning : next.running = true)
    (hregistered : next.registered = false)
    (hsound : ({ c with phase := next } : RawConn).Sound trusts p.done) :
    RawStep trusts p id c
      ({ p with pending := p.pending.filter (· ≠ id) }.setConn id { c with phase := next })
      { c with phase := next } where
  sem := by rw [hphase, hrunning]; rfl
  pending := by
    intro _ other
    simp only [setConn, hregistered]
    by_cases hown : other = id
    · simp [hown]
    · simp [hown]
  shrinks := fun _ ↦ filter_subset_self _
  locked := fun hmu ↦ Bool.noConfusion (hfree.symm.trans hmu)
  sound := hsound

/-- The connection meets an `Accept` call. -/
theorem rawStep_handed {call : ℕ} (hphase : c.phase = .offering) (hunhanded : c.handed = false)
    (hcall : p.accepts[call]? = some .receiving)
    (hsound : ({ c with handed := true, phase := .releasing } : RawConn).Sound trusts p.done) :
    RawStep trusts p id c
      ({ p with accepts := p.accepts.set call (.returned (some id)) }.setConn id
        { c with handed := true, phase := .releasing })
      { c with handed := true, phase := .releasing } where
  sem := by rw [hphase]; rfl
  pending := pending_same (by rw [hphase]; rfl)
  delivered := by
    intro other
    have hcount := count_flatMap_set ReceivePhase.conns hcall (.returned (some id)) other
    simp only [ReceivePhase.conns, count_nil] at hcount
    simp only [hunhanded]
    by_cases hown : id = other
    · simp [hown] at hcount ⊢
      exact hcount
    · simp [hown, Ne.symm hown] at hcount ⊢
      exact hcount
  keeps := fun _ ↦ rfl
  sound := hsound

/-- Every turn of a connection is a `RawStep`, and brings it closer to its end if it does not have to
wait for the mutex. -/
theorem connStep_spec (hget : p.conns[id]? = some c) (hsound : c.Sound trusts p.done)
    (hheld : c.phase.running = true → 0 < p.sem) (ok : Bool) (choice : HandOff) :
    ∃ c', RawStep trusts p id c (p.connStep trusts id c ok choice) c' ∧
      (p.mu = false → c'.phase.stepsLeft ≤ c.phase.stepsLeft - 1) := by
  have haccount := hsound.account
  rcases c with ⟨peer, phase, closed, read, handed, reason⟩
  have hunhanded : handed = false → handed = true → true = true → p.done = true :=
    fun hfalse htrue ↦ Bool.noConfusion (hfalse.symm.trans htrue)
  cases phase with
  | checking =>
    simp only [connStep]
    split
    · refine ⟨_, rawStep_drop _ _ haccount.2.2.1
        ⟨⟨.inr rfl, hunhanded haccount.2.1⟩, ?_⟩,
        fun _ ↦ Nat.zero_le _⟩
      exact fun _ ↦ ⟨haccount.1, haccount.2.1, .inr ⟨rfl, rfl⟩⟩
    · next htrusts =>
      have hpeer : trusts peer = true := by simpa using htrusts
      exact ⟨_, rawStep_quiet (sound_of_trusted hpeer haccount),
        fun _ ↦ Nat.le_refl 7⟩
  | admitting =>
    simp only [connStep]
    split
    · next hroom =>
      exact ⟨⟨peer, .registering, closed, read, handed, reason⟩,
        { room := fun _ ↦ hroom, sound := hsound.next haccount }, fun _ ↦ Nat.le_refl 6⟩
    · exact ⟨_, rawStep_drop _ .handshakeLimit haccount.2.2.1
        (hsound.next ⟨.inr rfl, hunhanded haccount.2.1⟩), fun _ ↦ Nat.zero_le _⟩
  | registering =>
    simp only [connStep]
    split
    · next hmu =>
      exact ⟨_, rawStep_none hget hsound, fun h ↦ Bool.noConfusion (h.symm.trans hmu)⟩
    · next hmu =>
      split
      · exact ⟨_, rawStep_quiet (hsound.next haccount),
          fun _ ↦ Nat.le_of_ble_eq_true rfl⟩
      · next hopen =>
        exact ⟨_, rawStep_registered rfl (by simpa using hmu) (by simpa using hopen)
          (hsound.next haccount.2), fun _ ↦ Nat.le_refl 5⟩
  | refusing =>
    exact ⟨_, rawStep_quiet (hsound.next ⟨.inr rfl, hunhanded haccount.2.1⟩) (fun _ ↦ rfl),
      fun _ ↦ Nat.le_refl 1⟩
  | reading =>
    exact ⟨_, rawStep_quiet (hsound.next haccount),
      fun _ ↦ Nat.le_refl 4⟩
  | unregistering found =>
    simp only [connStep]
    split
    · next hmu =>
      exact ⟨_, rawStep_none hget hsound, fun h ↦ Bool.noConfusion (h.symm.trans hmu)⟩
    · next hmu =>
      have hfree : p.mu = false := by simpa using hmu
      cases found with
      | false | true =>
        exact ⟨_, rawStep_unregistered rfl hfree rfl rfl (hsound.next haccount),
          fun _ ↦ Nat.le_of_ble_eq_true rfl⟩
  | rejecting =>
    exact ⟨_, rawStep_drop _ _ haccount.2.1
      (hsound.next ⟨.inr rfl, hunhanded haccount.1⟩), fun _ ↦ Nat.le_refl 1⟩
  | offering =>
    have htimer : RawStep trusts p id ⟨peer, .offering, closed, read, handed, reason⟩
        (p.drop id ⟨peer, .offering, closed, read, handed, reason⟩ .handoffTimeout .releasing)
        ⟨peer, .releasing, true, read, handed, some .handoffTimeout⟩ :=
      rawStep_drop p.loop .handoffTimeout haccount.2.1
        (hsound.next ⟨.inr rfl, hunhanded haccount.1⟩)
    simp only [connStep]
    cases choice with
    | timer => exact ⟨_, htimer, fun _ ↦ Nat.le_of_ble_eq_true rfl⟩
    | ready call =>
      simp only [handOff]
      split
      · next hcall =>
        exact ⟨_, rawStep_handed rfl haccount.1 hcall
          (hsound.next ⟨.inl rfl, fun _ ↦ haccount.2.2⟩),
          fun _ ↦ Nat.le_of_ble_eq_true rfl⟩
      · exact ⟨_, htimer, fun _ ↦ Nat.le_of_ble_eq_true rfl⟩
    | done =>
      simp only [handOff]
      split
      · exact ⟨_, rawStep_quiet (hsound.next haccount),
          fun _ ↦ Nat.le_refl 2⟩
      · exact ⟨_, htimer, fun _ ↦ Nat.le_of_ble_eq_true rfl⟩
  | abandoning =>
    exact ⟨_, rawStep_quiet (hsound.next ⟨.inr rfl, hunhanded haccount.1⟩) (fun _ ↦ rfl),
      fun _ ↦ Nat.le_refl 1⟩
  | releasing =>
    exact ⟨⟨peer, .ended, closed, read, handed, reason⟩,
      { sem := Nat.sub_add_cancel (hheld rfl), room := (Nat.sub_le ..).trans
        sound := hsound.next haccount }, fun _ ↦ Nat.zero_le _⟩
  | ended => exact ⟨_, rawStep_none hget hsound, fun _ ↦ Nat.zero_le _⟩

/-! ## The books of the listener -/

/-- Connection `id` is closed. -/
def ClosedAt (p : ProxyListener) (id : ℕ) : Prop :=
  ∃ c, p.conns[id]? = some c ∧ c.closed = true

/-- How far `Close` has come with the registered connections. -/
def Staged (p : ProxyListener) : Once ProxyClosePhase → Prop
  | .unused => True
  | .running _ .locking => True
  | .running _ .closingDone => True
  | .running _ (.closingPending rest) =>
    p.done = true ∧ ∀ id ∈ p.pending, id ∈ rest ∨ p.ClosedAt id
  | .running _ .unlocking => p.done = true ∧ ∀ id ∈ p.pending, p.ClosedAt id
  | .running _ .closingListener => p.done = true ∧ ∀ id ∈ p.pending, p.ClosedAt id
  | .finished => p.done = true ∧ ∀ id ∈ p.pending, p.ClosedAt id

/-- No connection is registered behind the back of `Close`. -/
theorem Staged.mono {once : Once ProxyClosePhase} (h : p.Staged once) (hdone : p'.done = p.done)
    (hpending : p.done = true → p'.pending ⊆ p.pending)
    (hclosed : ∀ id, p.ClosedAt id → p'.ClosedAt id) : p'.Staged once := by
  have hall : (p.done = true ∧ ∀ id ∈ p.pending, p.ClosedAt id) →
      p'.done = true ∧ ∀ id ∈ p'.pending, p'.ClosedAt id := by
    intro hstaged
    refine ⟨hdone.trans hstaged.1, ?_⟩
    intro id hid
    exact hclosed id (hstaged.2 id (hpending hstaged.1 hid))
  cases once with
  | unused => trivial
  | finished => exact hall h
  | running call phase =>
    cases phase with
    | locking | closingDone => trivial
    | closingPending rest =>
      refine ⟨hdone.trans h.1, ?_⟩
      intro id hid
      rcases h.2 id (hpending h.1 hid) with hrest | hclosedAt
      · exact .inl hrest
      · exact .inr (hclosed id hclosedAt)
    | unlocking | closingListener => exact hall h

structure Guarded (trusts : SocketAddr → Bool) (p : ProxyListener) : Prop where
  sound : ∀ c ∈ p.conns, c.Sound trusts p.done
  sem : p.sem = p.conns.countP (·.phase.running)
  room : p.sem ≤ maxPendingHandshakes
  pending : ∀ id, id ∈ p.pending ↔ ∃ c, p.conns[id]? = some c ∧ c.phase.registered = true
  delivered : ∀ id, p.delivered.count id = (p.conns[id]?.any (·.handed)).toNat
  dropped : p.dropped = p.conns.countP (·.reason.isSome)
  staged : p.Staged p.closeOnce

theorem guarded_fresh : ({} : ProxyListener).Guarded trusts where
  sound := by simp
  sem := rfl
  room := Nat.zero_le _
  pending := by simp
  delivered := by simp [ProxyListener.delivered]
  dropped := rfl
  staged := trivial

/-- A step that leaves the connections alone. -/
theorem Guarded.frame (h : p.Guarded trusts) (hstaged : p'.Staged p'.closeOnce)
    (hdelivered : ∀ id, p'.delivered.count id = p.delivered.count id := by exact fun _ ↦ rfl)
    (hconns : p'.conns = p.conns := by rfl) (hdone : p'.done = p.done := by rfl)
    (hsem : p'.sem = p.sem := by rfl) (hpending : p'.pending = p.pending := by rfl)
    (hdropped : p'.dropped = p.dropped := by rfl) : p'.Guarded trusts where
  sound := by rw [hconns, hdone]; exact h.sound
  sem := by rw [hconns, hsem]; exact h.sem
  room := hsem.le.trans h.room
  pending := by rw [hconns, hpending]; exact h.pending
  delivered := by
    intro id
    rw [hconns, hdelivered]
    exact h.delivered id
  dropped := by rw [hconns, hdropped]; exact h.dropped
  staged := hstaged

theorem closedAt_set (hget : p.conns[id]? = some c) (hconns : p'.conns = p.conns.set id c')
    (hclosed : c.closed = true → c'.closed = true) {other : ℕ} (hother : p.ClosedAt other) :
    p'.ClosedAt other := by
  rcases hother with ⟨d, hd, hdclosed⟩
  by_cases hown : other = id
  · subst hown
    rw [hget, Option.some.injEq] at hd
    refine ⟨c', ?_, hclosed (hd ▸ hdclosed)⟩
    rw [hconns, get_set hget]
  · refine ⟨d, ?_, hdclosed⟩
    rw [hconns, getElem?_set_ne (Ne.symm hown), hd]

section

variable (h : p.Guarded trusts) (hget : p.conns[id]? = some c)

include h hget

theorem Guarded.pending_iff : id ∈ p.pending ↔ c.phase.registered = true := by
  rw [h.pending id, hget]
  simp

theorem Guarded.rawStep (hstep : RawStep trusts p id c p' c') : p'.Guarded trusts where
  sound := by
    rw [hstep.conns, hstep.done]
    exact forall_set h.sound hstep.sound
  sem := by
    have hcount := countP_set (fun c : RawConn ↦ c.phase.running) hget c'
    have hbefore := h.sem
    have hafter := hstep.sem
    rw [hstep.conns]
    omega
  room := hstep.room h.room
  pending := by
    intro other
    rw [hstep.pending (h.pending_iff hget) _, hstep.conns]
    split
    · next hown =>
      rw [hown, get_set hget]
      simp
    · next hother => rw [getElem?_set_ne (Ne.symm hother), h.pending]
  delivered := by
    intro other
    rw [hstep.delivered, h.delivered, hstep.conns]
    by_cases hown : other = id
    · subst hown
      rw [get_set hget, hget]
      cases hhanded : c.handed with
      | false => simp [hhanded]
      | true => simp [hhanded, hstep.keeps hhanded]
    · rw [getElem?_set_ne (Ne.symm hown), if_neg (fun h ↦ hown h.1), Nat.add_zero]
  dropped := by
    have hcount := countP_set (fun c : RawConn ↦ c.reason.isSome) hget c'
    have hbefore := h.dropped
    have hafter := hstep.dropped
    rw [hstep.conns]
    omega
  staged := by
    rw [hstep.closeOnce]
    exact h.staged.mono hstep.done hstep.shrinks fun _ ↦ closedAt_set hget hstep.conns hstep.closed

/-- The place of a running handshake is taken. -/
theorem Guarded.held (hrunning : c.phase.running = true) : 0 < p.sem := by
  rw [h.sem]
  exact countP_pos_iff.mpr ⟨c, mem_of_getElem? hget, hrunning⟩

theorem Guarded.turn_spec (ok : Bool) (choice : HandOff) :
    ∃ c', RawStep trusts p id c (p.turn trusts id ok choice) c' ∧
      (p.mu = false → c'.phase.stepsLeft ≤ c.phase.stepsLeft - 1) := by
  have hturn : p.turn trusts id ok choice = p.connStep trusts id c ok choice := by
    rw [turn, hget]
  rw [hturn]
  exact connStep_spec hget (h.sound c (mem_of_getElem? hget)) (h.held hget) ok _

end

section

variable (h : p.Guarded trusts)

include h

theorem Guarded.turn (id : ℕ) (ok : Bool) (choice : HandOff) :
    (p.turn trusts id ok choice).Guarded trusts := by
  cases hget : p.conns[id]? with
  | none =>
    have hsame : p.turn trusts id ok choice = p := by rw [ProxyListener.turn, hget]
    rw [hsame]
    exact h
  | some c =>
    rcases h.turn_spec hget ok choice with ⟨c', hstep, -⟩
    exact h.rawStep hget hstep

/-! ### The other steps -/

/-- Reading changes nothing but the count of bytes, and only behind the check. -/
theorem Guarded.read_spec (hget : p.conns[id]? = some c) (hreading : c.phase = .reading) (bytes : ℕ) :
    RawStep trusts p id c (p.setConn id { c with read := c.read + bytes })
      { c with read := c.read + bytes } := by
  have hsound := h.sound c (mem_of_getElem? hget)
  have hpeer := hsound.trusted (by rw [hreading]; simp) (by rw [hreading]; simp)
  have haccount := hsound.account
  have haccount' : ({ c with read := c.read + bytes } : RawConn).Account p.done := by
    unfold RawConn.Account at haccount ⊢
    rw [hreading] at haccount ⊢
    exact haccount
  exact rawStep_quiet (sound_of_trusted hpeer haccount')

theorem Guarded.close_spec (hdone : p.done = true) (hget : p.conns[id]? = some c) :
    RawStep trusts p id c (p.setConn id { c with closed := true }) { c with closed := true } := by
  have hsound := h.sound c (mem_of_getElem? hget)
  exact rawStep_quiet (hdone.symm ▸ hsound.close fun _ ↦ rfl) (fun _ ↦ rfl)

theorem Guarded.read (id bytes : ℕ) : (p.read id bytes).Guarded trusts := by
  unfold ProxyListener.read
  cases hget : p.conns[id]? with
  | none => exact h
  | some c =>
    dsimp only
    split
    · next hreading => exact h.rawStep hget (h.read_spec hget hreading _)
    · exact h

theorem Guarded.rawConn (peer : SocketAddr) : (p.rawConn peer).Guarded trusts := by
  unfold ProxyListener.rawConn
  split
  · have hlookup := get_concat p.conns { peer := peer }
    have hbeyond : p.conns[p.conns.length]? = none := getElem?_eq_none le_rfl
    exact
      { h with
        sound := forall_concat h.sound
          ⟨⟨rfl, rfl, rfl, nofun⟩, fun _ ↦ ⟨rfl, rfl, .inl rfl⟩⟩
        sem := by
          rw [countP_concat, h.sem]
          rfl
        pending := by
          intro id
          rw [hlookup id, h.pending id]
          split
          · next hnew =>
            rw [hnew]
            simp [RawPhase.registered]
          · rfl
        delivered := by
          intro id
          rw [hlookup id]
          split
          · next hnew =>
            have hbefore := h.delivered id
            rw [hnew, hbeyond] at hbefore
            rw [hnew]
            exact hbefore
          · exact h.delivered id
        dropped := by
          rw [countP_concat, h.dropped]
          rfl
        staged := h.staged.mono rfl (fun _ _ hid ↦ hid) fun id hid ↦ by
          rcases hid with ⟨c, hget, hclosed⟩
          exact ⟨c, get_of_longer (prefix_append ..) hget, hclosed⟩ }
  · exact h

/-- One more of the registered connections is closed. -/
theorem Guarded.closeConn {rest : List ℕ}
    (hstaged : p.done = true ∧ ∀ other ∈ p.pending, other ∈ id :: rest ∨ p.ClosedAt other) :
    (p.closeConn id).Guarded trusts ∧ (p.closeConn id).done = true ∧
      ∀ other ∈ (p.closeConn id).pending, other ∈ rest ∨ (p.closeConn id).ClosedAt other := by
  unfold ProxyListener.closeConn
  cases hget : p.conns[id]? with
  | none =>
    refine ⟨h, hstaged.1, ?_⟩
    intro other hother
    rcases hstaged.2 other hother with hrest | hclosed
    · rcases mem_cons.mp hrest with hown | hrest
      · rcases (h.pending _).mp hother with ⟨c, hc, -⟩
        rw [hown, hget] at hc
        cases hc
      · exact .inl hrest
    · exact .inr hclosed
  | some c =>
    have hstep := h.close_spec hstaged.1 hget
    refine ⟨h.rawStep hget hstep, hstaged.1, ?_⟩
    intro other hother
    rcases hstaged.2 other hother with hrest | hclosed
    · rcases mem_cons.mp hrest with hown | hrest
      · right
        rw [hown]
        exact ⟨_, get_set hget, rfl⟩
      · exact .inl hrest
    · exact .inr (closedAt_set hget hstep.conns hstep.closed hclosed)

theorem Guarded.closeBody {call : ℕ} {phase : ProxyClosePhase}
    (hphase : p.closeOnce = .running call phase) : (p.closeBody call phase).Guarded trusts := by
  have hstaged := h.staged
  rw [hphase] at hstaged
  cases phase with
  | locking =>
    simp only [ProxyListener.closeBody]
    split
    · exact h
    · exact h.frame trivial
  | closingDone =>
    exact
      { h with
        sound := fun c hc ↦ (h.sound c hc).close fun h ↦ h
        staged := ⟨rfl, fun id hid ↦ .inl hid⟩ }
  | closingPending rest =>
    cases rest with
    | nil =>
      refine h.frame ⟨hstaged.1, fun id hid ↦ ?_⟩
      exact (hstaged.2 id hid).resolve_left not_mem_nil
    | cons id rest =>
      have hclosed := h.closeConn hstaged
      exact hclosed.1.frame hclosed.2
  | unlocking | closingListener => exact h.frame hstaged

theorem Guarded.closeStep (call : ℕ) : (p.closeStep call).Guarded trusts := by
  unfold ProxyListener.closeStep
  split
  · split
    · exact h.frame trivial
    · next other phase hphase =>
      split
      · next hown =>
        subst hown
        exact h.closeBody hphase
      · exact h
    · exact h.frame h.staged
  · exact h

theorem Guarded.acceptFails (call : ℕ) : (p.acceptFails call).Guarded trusts := by
  unfold ProxyListener.acceptFails
  split
  · next hcall =>
    split
    · refine h.frame h.staged fun id ↦ ?_
      have hcount := count_flatMap_set ReceivePhase.conns hcall (.returned none) id
      exact hcount
    · exact h
  · exact h

theorem Guarded.step (a : ProxyAction) : (p.step trusts a).Guarded trusts := by
  cases a with
  | accept =>
    refine h.frame h.staged fun id ↦ ?_
    simp [ProxyListener.step, ProxyListener.accept, ProxyListener.delivered, ReceivePhase.conns]
  | acceptFails call => exact h.acceptFails _
  | rawConn peer => exact h.rawConn _
  | rawError final =>
    simp only [ProxyListener.step, rawError]
    split
    · split <;> exact h.frame h.staged
    · exact h
  | backOff preferDone =>
    simp only [ProxyListener.step, ProxyListener.backOff]
    split
    · split <;> exact h.frame h.staged
    · exact h
  | read id bytes => exact h.read id bytes
  | turn id ok choice => exact h.turn id ok choice
  | close => exact h.frame h.staged
  | closeStep call => exact h.closeStep _

end

end ProxyListener

theorem proxyListenerAfter_guarded (net : Netip) (trust : Option Config.ProxyTrust)
    (actions : List ProxyAction) :
    (proxyListenerAfter net trust actions).Guarded (Config.trusts net trust) :=
  run_invariant_untimed (ProxyListener.Guarded (Config.trusts net trust)) (fun _ a h ↦ h.step a)
    actions ProxyListener.guarded_fresh

end RanHoneypot.Trap
