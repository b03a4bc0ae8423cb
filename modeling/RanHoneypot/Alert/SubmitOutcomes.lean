import RanHoneypot.Alert.PipelineAccounting
import RanHoneypot.Alert.PipelineFrame

/-!
# What becomes of every Submit call

The totals of the alert pipeline over whole runs. The account of every call stays balanced along a
run, a call that gets its turns returns, and the worker ends only after it has emptied the channel of
a closed sink, so nothing is left between the outcome of a call and the outcome of its alert.
-/

namespace RanHoneypot.Alert

open TimedRun List Undoing

/-! ## The end of the worker -/

namespace Pipeline

variable {p : Pipeline}

section

variable (hd : p.Drains)

include hd

theorem Drains.submitStep (hprov : Provenance p.books) {net : Netip} {call now : ℕ} {phase : Phase}
    (hphase : p.threads[call]? = some phase) : (p.submitStep net call now phase).Drains := by
  have hframe := submitStep_frame net p call now phase
  intro hdraining
  rw [hframe.worker] at hdraining
  have hdrained := hd hdraining
  rw [hframe.closed, hframe.ch]
  · exact hdrained
  · intro msg hsending
    have hlocks := hprov.locks hdrained.1 _ (mem_of_getElem? hphase)
    rw [hsending] at hlocks
    cases hlocks

theorem Drains.step (hprov : Provenance p.books) (net : Netip) (a : Action) :
    (p.step net a).Drains := by
  cases a with
  | thread call now =>
    simp only [Pipeline.step]
    split
    · exact hd
    · next phase hphase => exact hd.submitStep hprov hphase
  | _ =>
    refine (moved_step net p ?_).drains hd
    exact fun _ _ ↦ Action.noConfusion

end

end Pipeline

/-! ## The progress of a call -/

def Action.isStepOf (call : ℕ) : Action → Bool
  | thread other _ => other == call
  | _ => false

namespace Pipeline

variable {p : Pipeline} {call : ℕ} {phase : Phase}

/-- No step takes a call back. -/
theorem stepsLeft_step (net : Netip) (hphase : p.threads[call]? = some phase) (a : Action) :
    ∃ after, (p.step net a).threads[call]? = some after ∧ after.stepsLeft ≤ phase.stepsLeft := by
  have hcases := (step_books net p a).threads call
  rcases hcases with hsame | ⟨ev, hnone, _⟩ | ⟨before, after, _, _, hbefore, hafter, hmoves, _⟩
  · exact ⟨phase, hsame.trans hphase, le_rfl⟩
  · cases hphase.symm.trans hnone
  · have heq : before = phase := Option.some.inj (hbefore.symm.trans hphase)
    exact ⟨after, hafter, heq ▸ hmoves.stepsLeft_lt.le⟩

theorem stepsLeft_submitStep (net : Netip) (hphase : p.threads[call]? = some phase) (now : ℕ) :
    ∃ after, (p.submitStep net call now phase).threads = p.threads.set call after ∧
      after.stepsLeft ≤ phase.stepsLeft - 1 := by
  cases phase with
  | parsing ev =>
    simp only [submitStep]
    split
    · exact ⟨_, rfl, Nat.zero_le _⟩
    · exact ⟨_, rfl, Nat.le_refl 6⟩
  | locking ev ip =>
    simp only [submitStep]
    repeat' split
    · exact ⟨_, rfl, Nat.zero_le _⟩
    · exact ⟨_, rfl, Nat.zero_le _⟩
    · exact ⟨_, rfl, Nat.le_refl 5⟩
  | allowing ev ip =>
    simp only [submitStep]
    split
    · exact ⟨_, rfl, Nat.zero_le _⟩
    · exact ⟨_, rfl, Nat.le_refl 4⟩
  | accepting ev ip allowance => exact ⟨_, rfl, Nat.le_refl 3⟩
  | sending msg =>
    simp only [submitStep]
    split
    · exact ⟨_, rfl, Nat.le_succ 1⟩
    · exact ⟨_, rfl, Nat.le_refl 2⟩
  | releasing msg => exact ⟨_, rfl, Nat.le_refl 1⟩
  | counting | reverting => exact ⟨_, rfl, Nat.zero_le _⟩
  | returned outcome =>
    refine ⟨.returned outcome, ?_, Nat.zero_le _⟩
    rcases List.getElem?_eq_some_iff.mp hphase with ⟨hlt, hget⟩
    simp [submitStep, ← hget]

/-- A call that gets as many turns as it has steps left returns, whatever else happens. -/
theorem returned_of_steps (net : Netip) (later : List Action) (hphase : p.threads[call]? = some phase)
    (hsteps : phase.stepsLeft ≤ later.countP (Action.isStepOf call)) :
    ∃ outcome, (run (step net) p later).threads[call]? = some (.returned outcome) := by
  induction later generalizing p phase with
  | nil =>
    have hzero : phase.stepsLeft = 0 := Nat.le_zero.mp hsteps
    cases phase with
    | returned outcome => exact ⟨outcome, hphase⟩
    | _ => cases hzero
  | cons a rest ih =>
    rw [countP_cons] at hsteps
    by_cases hown : Action.isStepOf call a = true
    · rw [if_pos hown] at hsteps
      cases a with
      | thread other now =>
        have heq : other = call := eq_of_beq hown
        rcases stepsLeft_submitStep net hphase now with ⟨after, hthreads, hle⟩
        have hstep : p.step net (.thread other now) = p.submitStep net call now phase := by
          rw [heq]
          simp only [step, hphase]
        have hafter : (p.step net (.thread other now)).threads[call]? = some after := by
          rw [hstep, hthreads, getElem?_set_self (List.getElem?_eq_some_iff.mp hphase).1]
        exact ih hafter (by omega)
      | _ => cases hown
    · rw [if_neg hown] at hsteps
      rcases stepsLeft_step net hphase a with ⟨after, hafter, hle⟩
      exact ih hafter (by omega)

end Pipeline

/-! ## A call without interruption -/

namespace Pipeline

variable {p : Pipeline} {call : ℕ} {phase : Phase}

variable (net : Netip)

/-- The pipeline after `n` steps of one call at one time. -/
def turns (net : Netip) (p : Pipeline) (call now n : ℕ) : Pipeline :=
  run (step net) p (List.replicate n (.thread call now))

theorem turns_succ (hphase : p.threads[call]? = some phase) (now n : ℕ) :
    p.turns net call now (n + 1) = (p.submitStep net call now phase).turns net call now n := by
  rw [turns, replicate_succ, run_cons]
  simp only [step, hphase]
  rfl

theorem turns_returned {outcome : Stage} (hphase : p.threads[call]? = some (.returned outcome))
    (now n : ℕ) : p.turns net call now n = p := by
  induction n with
  | zero => rfl
  | succ n ih =>
    rw [turns_succ _ hphase]
    exact ih

/-- The call returned in `outcome` and left `sink` behind. -/
def Ends (p : Pipeline) (call : ℕ) (result : Stage × CrowdSecAlerter) : Prop :=
  p.threads[call]? = some (.returned result.1) ∧ p.sink = result.2

theorem ends_returned {outcome : Stage} (hphase : p.threads[call]? = some (.returned outcome))
    (now n : ℕ) : (p.turns net call now n).Ends call (outcome, p.sink) := by
  rw [turns_returned _ hphase]
  exact ⟨hphase, rfl⟩

/-- The phase that a step has set. -/
theorem phase_set (hphase : p.threads[call]? = some phase) {q : Pipeline} {after : Phase}
    (hthreads : q.threads = p.threads.set call after) : q.threads[call]? = some after := by
  rw [hthreads, getElem?_set_self (List.getElem?_eq_some_iff.mp hphase).1]

/-! What `submit` does from each of its phases on. -/

def sendResult (a : CrowdSecAlerter) (msg : AlertMsg) (now : ℕ) : Stage × CrowdSecAlerter :=
  if a.hasRoom then (.queued, { a with ch := a.ch ++ [msg] })
  else (.dropped, (a.release msg.cooldownKey msg.slot).revert msg.mark now)

def allowResult (net : Netip) (a : CrowdSecAlerter) (call : ℕ) (ev : Event) (ip : String) (now : ℕ) :
    Stage × CrowdSecAlerter :=
  let (allowance, taken) := a.allow net ip ev.cls now
  if !allowance.ok then (.cooldown, taken)
  else
    let (msg, recorded) := taken.record net call ev ip allowance now
    sendResult recorded msg now

def lockResult (net : Netip) (a : CrowdSecAlerter) (call : ℕ) (ev : Event) (ip : String) (now : ℕ) :
    Stage × CrowdSecAlerter :=
  if a.closed then (.closed, a)
  else
    let ev' := CrowdSecAlerter.downgrade a.banOn ev
    if ev'.cls ∉ a.banOn then (.filtered, a) else allowResult net a call ev' ip now

theorem submit_eq (a : CrowdSecAlerter) (call : ℕ) (ev : Event) (now : ℕ) :
    a.submit net call ev now =
      match parseBannableIP net ev.info.sourceIP with
      | none => (.invalid, a)
      | some addr => lockResult net a call ev (net.string addr) now := rfl

theorem ends_sending {msg : AlertMsg} (hphase : p.threads[call]? = some (.sending msg)) (now : ℕ) :
    (p.turns net call now 3).Ends call (sendResult p.sink msg now) := by
  rw [turns_succ _ hphase]
  simp only [submitStep, sendResult]
  by_cases hroom : p.sink.hasRoom = true
  · rw [if_pos hroom, if_pos hroom]
    have hcounting := phase_set hphase (q := { p with
      sink := { p.sink with ch := p.sink.ch ++ [msg] } }.setPhase call .counting) rfl
    rw [turns_succ _ hcounting]
    exact ends_returned _ (phase_set hcounting rfl) _ 1
  · rw [if_neg hroom, if_neg hroom]
    have hreleasing := phase_set hphase (q := p.setPhase call (.releasing msg)) rfl
    rw [turns_succ _ hreleasing]
    have hreverting := phase_set hreleasing
      (q := (p.setPhase ..).submitStep net call now (.releasing msg)) rfl
    rw [turns_succ _ hreverting]
    exact ends_returned _ (phase_set hreverting rfl) _ 0

theorem ends_allowing {ev : Event} {ip : String}
    (hphase : p.threads[call]? = some (.allowing ev ip)) (now : ℕ) :
    (p.turns net call now 5).Ends call (allowResult net p.sink call ev ip now) := by
  rw [turns_succ _ hphase]
  simp only [submitStep, allowResult]
  rcases p.sink.allow net ip ev.cls now with ⟨allowance, taken⟩
  by_cases hrefused : (!allowance.ok) = true
  · rw [if_pos hrefused, if_pos hrefused]
    exact ends_returned _ (phase_set hphase rfl) _ 4
  · rw [if_neg hrefused, if_neg hrefused]
    have haccepting := phase_set hphase
      (q := { p with sink := taken }.setPhase call (.accepting ev ip allowance)) rfl
    rw [turns_succ _ haccepting]
    exact ends_sending _ (phase_set haccepting rfl) _

theorem ends_locking {ev : Event} {ip : String} (hphase : p.threads[call]? = some (.locking ev ip))
    (now : ℕ) : (p.turns net call now 6).Ends call (lockResult net p.sink call ev ip now) := by
  rw [turns_succ _ hphase]
  simp only [submitStep, lockResult]
  by_cases hclosed : p.sink.closed = true
  · rw [if_pos hclosed, if_pos hclosed]
    exact ends_returned _ (phase_set hphase rfl) _ 5
  rw [if_neg hclosed, if_neg hclosed]
  by_cases hfiltered : (CrowdSecAlerter.downgrade p.sink.banOn ev).cls ∉ p.sink.banOn
  · rw [if_pos hfiltered, if_pos hfiltered]
    exact ends_returned _ (phase_set hphase rfl) _ 5
  rw [if_neg hfiltered, if_neg hfiltered]
  exact ends_allowing _ (phase_set hphase rfl) _

/-- Seven steps of a call in a row are `submit`. -/
theorem ends_parsing {ev : Event} (hphase : p.threads[call]? = some (.parsing ev)) (now : ℕ) :
    (p.turns net call now 7).Ends call (p.sink.submit net call ev now) := by
  rw [turns_succ _ hphase, submit_eq]
  simp only [submitStep]
  cases parseBannableIP net ev.info.sourceIP with
  | none => exact ends_returned _ (phase_set hphase rfl) _ 6
  | some addr => exact ends_locking _ (phase_set hphase rfl) _

/-- A call that is not interrupted is `submit`. -/
theorem callSubmit_turns (p : Pipeline) (ev : Event) (now : ℕ) :
    ((p.callSubmit ev).turns net p.threads.length now 7).Ends p.threads.length
      (p.sink.submit net p.threads.length ev now) := by
  have hphase : (p.callSubmit ev).threads[p.threads.length]? = some (.parsing ev) :=
    getElem?_concat_length
  exact ends_parsing _ hphase _

end Pipeline

/-! ## Whole runs -/

/-- The pipeline after a run of any actions from its start. -/
def pipelineAfter (net : Netip) (cfg : CrowdSecConfig) (actions : List Action) : Pipeline :=
  run (Pipeline.step net) (Pipeline.start cfg) actions

theorem provenance_start (cfg : CrowdSecConfig) : Provenance (Pipeline.start cfg).books := by
  constructor <;> simp [Pipeline.start, Pipeline.books, newCrowdSec, Worker.held, Worker.undoing,
    alert?]

theorem balanced_start (cfg : CrowdSecConfig) (call : ℕ) :
    ((Pipeline.start cfg).books.account call).Balanced := by
  constructor <;> simp [Pipeline.start, Pipeline.books, Books.account, newCrowdSec, Worker.held,
    Worker.undoing, revertDue, releaseDue]

structure Pipeline.Sound (p : Pipeline) : Prop where
  provenance : Provenance p.books
  balanced : ∀ call, (p.books.account call).Balanced
  drains : p.Drains

theorem Pipeline.Sound.step {p : Pipeline} (h : p.Sound) (net : Netip) (a : Action) :
    (p.step net a).Sound where
  provenance := h.provenance.step (step_books net p a)
  balanced call := Account.Balanced.step h.provenance (step_books net p a) (h.balanced call)
  drains := h.drains.step h.provenance net a

theorem pipelineAfter_sound (net : Netip) (cfg : CrowdSecConfig) (actions : List Action) :
    (pipelineAfter net cfg actions).Sound := by
  refine run_invariant_untimed _ (fun p a h ↦ h.step net a) _ ?_
  exact ⟨provenance_start _, balanced_start _, nofun⟩

/-! ## The totals -/

namespace Pipeline

/-- How often a call was counted in a stage. -/
def tally (p : Pipeline) (call : ℕ) (stage : Stage) : ℕ := p.log.count (.counted call stage)

def hasReturned (p : Pipeline) (call : ℕ) : Bool :=
  p.threads[call]?.any fun phase ↦ outcomes.any fun stage ↦ phase.returnedIn stage

/-- The alert of the call had its record reverted once and its slot, if it took one, released once. -/
def Undone (p : Pipeline) (call : ℕ) : Prop :=
  ∃ msg, .recorded msg ∈ p.log ∧ msg.call = call ∧ p.log.count (.reverted call msg.mark) = 1 ∧
    (msg.cooldownKey ≠ "" → p.log.count (.released call msg.cooldownKey msg.slot) = 1)

/-- What the log says about one call. -/
structure Accounted (p : Pipeline) (call : ℕ) : Prop where
  received : p.tally call .received = if call < p.threads.length then 1 else 0
  outcome : (outcomes.map (p.tally call)).sum = if p.hasReturned call then 1 else 0
  once : p.tally call .sent + p.tally call .failed ≤ 1
  queued : p.worker = .ended → p.tally call .sent + p.tally call .failed = p.tally call .queued
  dropped : p.tally call .dropped ≠ 0 → p.Undone call
  failed : p.worker = .ended → p.tally call .failed ≠ 0 → p.Undone call
  sent : p.tally call .sent ≠ 0 →
    (∀ mark, .reverted call mark ∉ p.log) ∧ ∀ key slot, .released call key slot ∉ p.log

variable {p : Pipeline} {call : ℕ}

theorem Sound.received (h : p.Sound) (call : ℕ) :
    p.tally call .received = if call < p.threads.length then 1 else 0 := by
  have hbal : p.tally call .received = flag (fun _ ↦ true) p.threads[call]? :=
    (h.balanced _).received
  rw [hbal]
  split
  · next hlt => simp [getElem?_eq_getElem hlt]
  · next hge => simp [getElem?_eq_none (not_lt.mp hge)]

theorem Sound.outcome (h : p.Sound) (call : ℕ) :
    (outcomes.map (p.tally call)).sum = if p.hasReturned call then 1 else 0 := by
  have hbal : ∀ stage ∈ outcomes, p.tally _ _ = flag (·.returnedIn stage) p.threads[call]? :=
    (h.balanced _).outcome
  have hfinished : ∀ stage, p.threads[call]? = some (.returned stage) → stage ∈ outcomes :=
    (h.balanced _).finished
  rw [map_congr_left hbal, hasReturned]
  cases hphase : p.threads[call]? with
  | none => rfl
  | some phase =>
    cases phase with
    | returned stage =>
      have hmem := hfinished stage hphase
      clear hbal hfinished hphase
      revert stage
      decide
    | _ => rfl

/-- The worker has ended: no alert of the call is on its way and none is being undone. -/
theorem Sound.settled (h : p.Sound) (hended : p.worker = .ended) (call : ℕ) :
    (p.books.account call).carried = 0 ∧ (p.books.account call).revertDue = 0 ∧
      (p.books.account call).releaseDue = 0 := by
  have hch : p.sink.ch = [] := (h.drains (by rw [hended]; rfl)).2
  simp [Books.account, books, hended, hch, Worker.held, Worker.undoing, revertDue,
    releaseDue]

/-- A call whose alert did not fail has nothing of it being undone. -/
theorem Sound.nothing_due (h : p.Sound) (hfailed : p.tally call .failed = 0) :
    (p.books.account call).revertDue = 0 ∧ (p.books.account call).releaseDue = 0 := by
  have hother : ∀ m, p.books.undoing.alert? = some m → m.call ≠ call := by
    intro m hm hcall
    have hcounted := (h.provenance.undoing m hm).2
    rw [hcall] at hcounted
    exact count_eq_zero.mp hfailed hcounted
  simp only [Books.account]
  cases hundoing : p.books.undoing with
  | nothing => exact ⟨rfl, rfl⟩
  | revert m =>
    have hne := hother m (by rw [hundoing]; rfl)
    simp [revertDue, releaseDue, hne]
  | release m =>
    have hne := hother m (by rw [hundoing]; rfl)
    simp [revertDue, releaseDue, hne]

theorem count_eq_countP {α : Type*} [DecidableEq α] {l : List α} {f : α → Bool} {x : α}
    (hx : f x = true) (honly : ∀ y ∈ l, f y = true → y = x) : l.count x = l.countP f := by
  refine countP_congr fun y hy ↦ ?_
  rw [beq_iff_eq]
  constructor
  · intro heq
    rwa [heq]
  · exact honly y hy

section

variable (h : p.Sound)

include h

theorem Sound.undone (hreverts : (p.books.account call).reverts = 1)
    (hreleases : (p.books.account call).slotted = true → (p.books.account call).releases = 1) :
    p.Undone call := by
  have hsome : ∃ entry ∈ p.log, LogEntry.reverts call entry = true := by
    apply countP_pos_iff.mp
    change 0 < (p.books.account _).reverts
    omega
  have hmarked : ∃ mark, .reverted call mark ∈ p.log := by
    rcases hsome with ⟨entry, hentry, hreverts⟩
    cases entry with
    | reverted other mark => exact ⟨mark, eq_of_beq hreverts ▸ hentry⟩
    | _ => cases hreverts
  rcases hmarked with ⟨mark, hmark⟩
  rcases h.provenance.reverted call mark hmark with ⟨msg, hmsg, hcall, _⟩
  refine ⟨msg, hmsg, hcall, ?_, ?_⟩
  · rw [count_eq_countP (f := LogEntry.reverts call) (by exact beq_self_eq_true _)]
    · exact hreverts
    · intro entry hentry hown
      cases entry with
      | reverted other mark' =>
        have hother : other = call := eq_of_beq hown
        rcases h.provenance.reverted other mark' hentry with ⟨msg', hmsg', hcall', hmark'⟩
        have heq := h.provenance.once msg' msg hmsg' hmsg (hcall'.trans (hother.trans hcall.symm))
        rw [hother, ← hmark', heq]
      | _ => cases hown
  · intro hkey
    rw [count_eq_countP (f := LogEntry.releases call) (by exact beq_self_eq_true _)]
    · refine hreleases ?_
      rw [← hcall, h.provenance.slotted hmsg]
      exact decide_eq_true hkey
    · intro entry hentry hown
      cases entry with
      | released other key slot =>
        have hother : other = call := eq_of_beq hown
        rcases h.provenance.released other key slot hentry with ⟨msg', hmsg', hcall', hkey', hslot'⟩
        have heq := h.provenance.once msg' msg hmsg' hmsg (hcall'.trans (hother.trans hcall.symm))
        rw [hother, ← hkey', ← hslot', heq]
      | _ => cases hown

theorem Sound.dropped (hdropped : p.tally call .dropped ≠ 0) : p.Undone call := by
  have hbal := h.balanced call
  have hphase : (p.books.account call).phase = some (.returned .dropped) := by
    have hcount : p.tally call .dropped = flag (·.returnedIn .dropped) p.threads[call]? :=
      hbal.outcome .dropped (by decide)
    rw [hcount] at hdropped
    change p.threads[call]? = _
    cases hthread : p.threads[call]? with
    | none => simp [hthread] at hdropped
    | some phase => cases phase <;> simp_all [Phase.returnedIn]
  have hdelivered := hbal.delivered
  have hreverted := hbal.reverted
  have hreleased := hbal.released
  simp only [hphase, flag_some, onChannel_returned, dropReleased_returned, returnedIn_returned,
    reduceCtorEq, decide_false, decide_true, Bool.toNat_false, Bool.toNat_true]
    at hdelivered hreverted hreleased
  have hfailed : (p.books.account call).count .failed = 0 := by omega
  rcases h.nothing_due hfailed with ⟨hrevertDue, hreleaseDue⟩
  rw [hfailed, Bool.cond_self] at hreleased
  exact h.undone (by omega) fun _ ↦ by omega

/-- The alert of the call was taken over by the worker, so the call did not drop it. -/
theorem Sound.not_dropped (call : ℕ) (hcounted : p.tally call .sent + p.tally call .failed ≠ 0) :
    p.tally call .sent + p.tally call .failed = 1 ∧
      flag (·.returnedIn .dropped) p.threads[call]? = 0 ∧
      flag Phase.dropReleased p.threads[call]? = 0 := by
  have hdelivered : p.tally call .sent + p.tally call .failed + (p.books.account _).carried =
    flag Phase.onChannel p.threads[call]? := (h.balanced _).delivered
  cases hthread : p.threads[call]? with
  | none =>
    simp only [hthread, flag_none] at hdelivered
    omega
  | some phase =>
    rw [hthread, flag_some] at hdelivered
    have hchannel : phase.onChannel = true := by
      cases hoff : phase.onChannel with
      | true => rfl
      | false =>
        rw [hoff, Bool.toNat_false] at hdelivered
        omega
    rw [hchannel, Bool.toNat_true] at hdelivered
    refine ⟨by omega, ?_⟩
    cases phase with
    | returned outcome =>
      have hqueued : outcome = .queued := of_decide_eq_true hchannel
      rw [hqueued]
      exact ⟨rfl, rfl⟩
    | counting => exact ⟨rfl, rfl⟩
    | _ => cases hchannel

theorem Sound.failed (hended : p.worker = .ended) (hfailed : p.tally call .failed ≠ 0) :
    p.Undone call := by
  rcases h.not_dropped call (by omega) with ⟨hone, hdropped, hdropReleased⟩
  rcases h.settled hended call with ⟨_, hrevertDue, hreleaseDue⟩
  have hreverted : (p.books.account _).reverts + (p.books.account _).revertDue =
    p.tally call .failed + flag (·.returnedIn .dropped) p.threads[call]? := (h.balanced _).reverted
  have hreleased : (p.books.account _).releases + (p.books.account _).releaseDue =
    (bif (p.books.account _).slotted then p.tally call .failed else 0) +
      flag Phase.dropReleased p.threads[call]? := (h.balanced _).released
  refine h.undone (by omega) fun hslotted ↦ ?_
  rw [hslotted, cond_true] at hreleased
  omega

theorem Sound.sent (hsent : p.tally call .sent ≠ 0) :
    (∀ mark, .reverted call mark ∉ p.log) ∧ ∀ key slot, .released call key slot ∉ p.log := by
  rcases h.not_dropped call (by omega) with ⟨hone, hdropped, hdropReleased⟩
  have hfailed : p.tally call .failed = 0 := by omega
  have hreverted : (p.books.account _).reverts + (p.books.account _).revertDue =
    p.tally call .failed + flag (·.returnedIn .dropped) p.threads[call]? := (h.balanced _).reverted
  have hreleased : (p.books.account _).releases + (p.books.account _).releaseDue =
    (bif (p.books.account _).slotted then p.tally call .failed else 0) +
      flag Phase.dropReleased p.threads[call]? := (h.balanced _).released
  rw [hfailed, hdropped] at hreverted
  rw [hfailed, hdropReleased, Bool.cond_self] at hreleased
  have hnoReverts : p.log.countP (LogEntry.reverts _) = 0 := Nat.eq_zero_of_add_eq_zero_right hreverted
  have hnoReleases : p.log.countP (LogEntry.releases _) = 0 :=
    Nat.eq_zero_of_add_eq_zero_right hreleased
  constructor
  · intro mark hmem
    exact countP_eq_zero.mp hnoReverts _ hmem (beq_self_eq_true _)
  · intro key slot hmem
    exact countP_eq_zero.mp hnoReleases _ hmem (beq_self_eq_true _)

theorem Sound.queued (hended : p.worker = .ended) :
    p.tally call .sent + p.tally call .failed = p.tally call .queued := by
  have hclosed : p.sink.closed = true := (h.drains (by rw [hended]; rfl)).1
  have hdelivered : p.tally call .sent + p.tally call .failed + (p.books.account _).carried =
    flag Phase.onChannel p.threads[call]? := (h.balanced _).delivered
  have hqueued : p.tally call .queued = flag (·.returnedIn .queued) p.threads[call]? :=
    (h.balanced _).outcome .queued (by decide)
  rw [(h.settled hended _).1, Nat.add_zero] at hdelivered
  rw [hdelivered, hqueued]
  cases hthread : p.threads[call]? with
  | none => rfl
  | some phase =>
    have hlock := h.provenance.locks hclosed phase (mem_of_getElem? hthread)
    cases phase with
    | counting => cases hlock
    | _ => rfl

theorem Sound.accounted (call : ℕ) : p.Accounted call where
  received := h.received call
  outcome := h.outcome call
  once := by
    by_contra hmore
    have hone := (h.not_dropped call (by omega)).1
    omega
  queued := h.queued
  dropped := h.dropped
  failed := h.failed
  sent := h.sent

end

end Pipeline

end RanHoneypot.Alert
