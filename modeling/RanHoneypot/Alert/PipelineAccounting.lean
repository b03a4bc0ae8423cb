import RanHoneypot.Data.TimedRun
import RanHoneypot.Alert.PipelineBooks

/-!
# Every alert is accounted for

From the book steps follow first where the alerts in the pipeline come from (`Provenance`) and then,
for each single `Submit` call, an account that always balances: the call was counted once when it was
received and once when it returned, its alert is either still carried or was counted as sent or as
failed, and what was counted as failed or dropped is undone.
-/

namespace RanHoneypot.Alert

open TimedRun List LogEntry Phase Books Undoing

/-- The alert that a call has recorded and not handed on. -/
def Phase.alert? : Phase → Option AlertMsg
  | sending msg => some msg
  | releasing msg => some msg
  | reverting msg => some msg
  | _ => none

def Undoing.alert? : Undoing → Option AlertMsg
  | nothing => none
  | revert msg => some msg
  | release msg => some msg

/-! ## What a book step leaves and adds -/

section

variable {b b' : Books} {i : ℕ} {phase : Phase} {msg : AlertMsg}

variable {before after : Phase} {entries : List LogEntry} {added : List AlertMsg}

theorem getElem?_set_phase {threads : List Phase} (h : threads[i]? = some before) (j : ℕ) :
    (threads.set i after)[j]? = if j = i then some after else threads[j]? := by
  have hlt : i < threads.length := (List.getElem?_eq_some_iff.mp h).1
  by_cases hj : j = i
  · simp [hj, hlt]
  · simp [hj, Ne.symm hj]

theorem getElem?_concat_phase {threads : List Phase} (after : Phase) (j : ℕ) :
    (threads ++ [after])[j]? = if j = threads.length then some after else threads[j]? := by
  by_cases hj : j = threads.length
  · simp [hj]
  · rw [if_neg hj]
    rcases Nat.lt_or_gt_of_ne hj with hlt | hgt
    · exact getElem?_append_left hlt
    · rw [getElem?_eq_none (by simp; omega), getElem?_eq_none (by omega)]

/-- Call `i` holds the alert, or the worker is undoing it. -/
def Books.Holds (b : Books) (i : ℕ) (msg : AlertMsg) : Prop :=
  (∃ phase, b.threads[i]? = some phase ∧ phase.alert? = some msg) ∨
    (b.undoing.alert? = some msg ∧ msg.call = i)

/-- What a step from `b` to `b'` needs for writing the entry. -/
def Books.Writes (b b' : Books) : LogEntry → Prop
  | counted _ _ => True
  | recorded msg => msg.plain = msg ∧ ∃ before, b.threads[msg.call]? = some before ∧
      before.early = true ∧ b'.threads = b.threads.set msg.call (.sending msg)
  | released i key slot => ∃ msg, b.Holds i msg ∧ msg.cooldownKey = key ∧ msg.slot = slot
  | reverted i mark => ∃ msg, b.Holds i msg ∧ msg.mark = mark
  | posted batch => batch.map AlertMsg.plain ⊆ b.carried

theorem BookStep.writes (h : BookStep b b') :
    ∃ entries, b'.log = b.log ++ entries ∧ ∀ entry ∈ entries, b.Writes b' entry := by
  cases h with
  | idle | close | slotless => exact ⟨[], (append_nil _).symm, forall_mem_nil _⟩
  | call | failed => exact ⟨_, rfl, forall_mem_singleton.mpr trivial⟩
  | posted hsub => exact ⟨_, rfl, forall_mem_singleton.mpr hsub⟩
  | thread hphase hmoves _ =>
    refine ⟨_, rfl, ?_⟩
    cases hmoves with
    | record hearly _ hcall hplain =>
      subst hcall
      exact forall_mem_singleton.mpr ⟨hplain, _, hphase, hearly, rfl⟩
    | release => exact forall_mem_singleton.mpr ⟨_, .inl ⟨_, hphase, rfl⟩, rfl, rfl⟩
    | revert =>
      have hholds : b.Holds _ _ := .inl ⟨_, hphase, rfl⟩
      exact forall_mem_cons.mpr ⟨⟨_, hholds, rfl⟩, forall_mem_singleton.mpr trivial⟩
    | _ => simp [Writes]
  | @sent batch rest hperm =>
    have hsub : batch.map AlertMsg.plain ⊆ b.carried := fun _ hx ↦
      hperm.mem_iff.mpr (mem_append_left _ hx)
    refine ⟨_, rfl, forall_mem_cons.mpr ⟨hsub, forall_mem_map.mpr ?_⟩⟩
    exact fun _ _ ↦ trivial
  | reverted hundoing =>
    have hholds : b.Holds _ _ := .inr ⟨congrArg Undoing.alert? hundoing, rfl⟩
    exact ⟨_, rfl, forall_mem_singleton.mpr ⟨_, hholds, rfl⟩⟩
  | released hundoing _ =>
    have hholds : b.Holds _ _ := .inr ⟨congrArg Undoing.alert? hundoing, rfl⟩
    exact ⟨_, rfl, forall_mem_cons.mpr ⟨⟨_, hholds, rfl, rfl⟩, forall_mem_singleton.mpr trivial⟩⟩

theorem BookStep.log_subset (h : BookStep b b') : b.log ⊆ b'.log := by
  rcases h.writes with ⟨entries, hlog, _⟩
  rw [hlog]
  exact subset_append_left ..

theorem BookStep.written (h : BookStep b b') {entry : LogEntry} (hmem : entry ∈ b'.log) :
    entry ∈ b.log ∨ b.Writes b' entry := by
  rcases h.writes with ⟨entries, hlog, hwrites⟩
  rw [hlog] at hmem
  exact (mem_append.mp hmem).imp_right (hwrites entry)

/-- A call stays, starts or moves. -/
theorem BookStep.threads (h : BookStep b b') (j : ℕ) : b'.threads[j]? = b.threads[j]? ∨
    (∃ ev, b.threads[j]? = none ∧ b'.threads[j]? = some (.parsing ev)) ∨
    ∃ before after entries added, b.threads[j]? = some before ∧ b'.threads[j]? = some after ∧
      Moves j b.closed before after entries added ∧ b'.log = b.log ++ entries := by
  cases h with
  | call ev =>
    rw [getElem?_concat_phase]
    by_cases hj : j = b.threads.length
    · rw [if_pos hj, hj]
      exact .inr (.inl ⟨ev, getElem?_eq_none le_rfl, rfl⟩)
    · rw [if_neg hj]
      exact .inl rfl
  | @thread i before after entries added _ hphase hmoves _ =>
    rw [getElem?_set_phase hphase]
    by_cases hj : j = i
    · rw [if_pos hj, hj]
      exact .inr (.inr ⟨before, after, entries, added, hphase, rfl, hmoves, rfl⟩)
    · rw [if_neg hj]
      exact .inl rfl
  | _ => exact .inl rfl

section

variable {closed : Bool} (h : Moves i closed before after entries added)

include h

theorem Moves.early (hlate : before.early = false) : after.early = false := by
  cases h with
  | advance hearly => cases hearly.symm.trans hlate
  | _ => rfl

theorem Moves.stepsLeft_lt : after.stepsLeft < before.stepsLeft := by
  cases h with
  | advance _ _ _ hlt => exact hlt
  | stop | record => cases before <;> simp_all [Phase.early, Phase.stepsLeft]
  | _ => simp [Phase.stepsLeft]

theorem Moves.alert (halert : after.alert? = some msg) :
    before.alert? = some msg ∨ (.recorded msg ∈ entries ∧ msg.call = i) := by
  cases h with
  | @advance before after _ hearly _ _ => cases after <;> simp_all [Phase.early, Phase.alert?]
  | record _ _ hcall _ =>
    have heq := Option.some.inj halert
    rw [← heq]
    exact .inr ⟨by simp, hcall⟩
  | full | release => exact .inl halert
  | _ => cases halert

end

theorem Moves.lock (h : Moves i true before after entries added) (hlock : after.holdsLock = true) :
    before.holdsLock = true := by
  cases h with
  | advance _ _ himp => exact himp rfl hlock
  | stop => cases hlock
  | record _ hheld => exact hheld
  | _ => rfl

section

variable (h : BookStep b b')

include h

theorem BookStep.carried (hmem : msg ∈ b'.carried) :
    msg ∈ b.carried ∨ ∃ (i : ℕ) (raw : AlertMsg), b.threads[i]? = some (.sending raw) ∧
      msg = raw.plain := by
  cases h with
  | idle hperm => exact .inl (hperm.mem_iff.mp hmem)
  | thread hphase hmoves hperm =>
    have hin := hperm.mem_iff.mp hmem
    cases hmoves with
    | @enqueue raw =>
      rcases mem_cons.mp hin with heq | hold
      · exact .inr ⟨_, raw, hphase, heq⟩
      · exact .inl hold
    | _ => exact .inl hin
  | sent hperm => exact .inl (hperm.mem_iff.mpr (mem_append_right _ hmem))
  | failed hperm => exact .inl (hperm.mem_iff.mpr (mem_cons_of_mem _ hmem))
  | _ => exact .inl hmem

theorem BookStep.undoing (halert : b'.undoing.alert? = some msg) :
    b.undoing.alert? = some msg ∨ (msg ∈ b.carried ∧ .counted msg.call .failed ∈ b'.log) := by
  cases h with
  | failed hperm =>
    have heq := Option.some.inj halert
    rw [← heq]
    exact .inr ⟨hperm.mem_iff.mpr (by simp), by simp⟩
  | reverted hundoing =>
    rw [hundoing]
    exact .inl halert
  | released | slotless => cases halert
  | _ => exact .inl halert

theorem BookStep.locks (hclosed : b'.closed = true) :
    b.closed = true ∨ ∀ phase ∈ b'.threads, phase.holdsLock = false := by
  cases h with
  | close hfree => exact .inr hfree
  | _ => exact .inl hclosed

end

end

/-! ## Provenance -/

/-- Every alert in the books was recorded by its call, and everything undone is its own. -/
structure Provenance (b : Books) : Prop where
  once : ∀ m m' : AlertMsg, .recorded m ∈ b.log → .recorded m' ∈ b.log → m.call = m'.call → m = m'
  plain : ∀ m : AlertMsg, .recorded m ∈ b.log → m.plain = m
  placed : ∀ m : AlertMsg, .recorded m ∈ b.log →
    ∃ phase, b.threads[m.call]? = some phase ∧ phase.early = false
  thread : ∀ (i : ℕ) (phase : Phase) (m : AlertMsg), b.threads[i]? = some phase →
    phase.alert? = some m → .recorded m ∈ b.log ∧ m.call = i
  carried : ∀ m ∈ b.carried, .recorded m ∈ b.log
  undoing : ∀ m, b.undoing.alert? = some m →
    .recorded m ∈ b.log ∧ .counted m.call .failed ∈ b.log
  posted : ∀ batch, .posted batch ∈ b.log → ∀ m ∈ batch, .recorded m.plain ∈ b.log
  reverted : ∀ (i : ℕ) (mark : AcceptMark), .reverted i mark ∈ b.log →
    ∃ m, .recorded m ∈ b.log ∧ m.call = i ∧ m.mark = mark
  released : ∀ (i : ℕ) (key : String) (slot : ℕ), .released i key slot ∈ b.log →
    ∃ m, .recorded m ∈ b.log ∧ m.call = i ∧ m.cooldownKey = key ∧ m.slot = slot
  locks : b.closed = true → ∀ phase ∈ b.threads, phase.holdsLock = false

section

variable {b b' : Books}

variable {m : AlertMsg}

/-- A recorded alert belongs to a call that is past recording, so a call records once. -/
theorem Provenance.early (hb : Provenance b) {i : ℕ} {phase : Phase}
    (hphase : b.threads[i]? = some phase) (hearly : phase.early = true) (hmem : .recorded m ∈ b.log) :
    m.call ≠ i := by
  intro hcall
  rcases hb.placed m hmem with ⟨other, hother, hlate⟩
  rw [hcall, hphase, Option.some.injEq] at hother
  rw [← hother, hearly] at hlate
  cases hlate

theorem Provenance.holds (hb : Provenance b) {i : ℕ} (h : b.Holds i m) :
    .recorded m ∈ b.log ∧ m.call = i := by
  rcases h with ⟨phase, hphase, halert⟩ | ⟨hundoing, hcall⟩
  · exact hb.thread i phase m hphase halert
  · exact ⟨(hb.undoing m hundoing).1, hcall⟩

section

variable (hb : Provenance b) (h : BookStep b b')

include hb h

theorem Provenance.step_once {m' : AlertMsg} (hm : .recorded m ∈ b'.log)
    (hm' : .recorded m' ∈ b'.log) (hcall : m.call = m'.call) : m = m' := by
  rcases h.written hm with hold | ⟨_, before, hphase, hearly, hset⟩
  · rcases h.written hm' with hold' | ⟨_, before, hphase, hearly, _⟩
    · exact hb.once m m' hold hold' hcall
    · exact absurd hcall (hb.early hphase hearly hold)
  · rcases h.written hm' with hold' | ⟨_, before', hphase', _, hset'⟩
    · exact absurd hcall.symm (hb.early hphase hearly hold')
    · have hthreads := hset.symm.trans hset'
      rw [← hcall] at hthreads
      have hget := congrArg (fun threads : List Phase ↦ threads[m.call]?) hthreads
      simp only [getElem?_set_phase hphase, if_true, Option.some.injEq, sending.injEq] at hget
      exact hget

theorem Provenance.step_placed (hm : .recorded m ∈ b'.log) :
    ∃ phase, b'.threads[m.call]? = some phase ∧ phase.early = false := by
  rcases h.written hm with hold | ⟨_, before, hphase, _, hset⟩
  · rcases hb.placed m hold with ⟨phase, hphase, hlate⟩
    rcases h.threads m.call with hsame | ⟨_, hnone, _⟩ | ⟨before, after, _, _, hbefore, hafter, hmoves, _⟩
    · exact ⟨phase, hsame.trans hphase, hlate⟩
    · rw [hnone] at hphase
      cases hphase
    · rw [hphase, Option.some.injEq] at hbefore
      exact ⟨after, hafter, hmoves.early (hbefore ▸ hlate)⟩
  · refine ⟨.sending m, ?_, rfl⟩
    rw [hset, getElem?_set_phase hphase, if_pos rfl]

theorem Provenance.step_thread {i : ℕ} {phase : Phase} (hphase : b'.threads[i]? = some phase)
    (halert : phase.alert? = some m) : .recorded m ∈ b'.log ∧ m.call = i := by
  rcases h.threads i with hsame | ⟨ev, _, hnew⟩ | ⟨before, after, _, _, hbefore, hafter, hmoves, hlog⟩
  · rcases hb.thread i phase m (hsame ▸ hphase) halert with ⟨hmem, hcall⟩
    exact ⟨h.log_subset hmem, hcall⟩
  · rw [hnew, Option.some.injEq] at hphase
    rw [← hphase] at halert
    cases halert
  · rw [hafter, Option.some.injEq] at hphase
    rw [← hphase] at halert
    rcases hmoves.alert halert with hold | ⟨hnew, hcall⟩
    · rcases hb.thread i before m hbefore hold with ⟨hmem, hcall⟩
      exact ⟨h.log_subset hmem, hcall⟩
    · exact ⟨hlog ▸ mem_append_right _ hnew, hcall⟩

theorem Provenance.step_locks (hclosed : b'.closed = true) :
    ∀ phase ∈ b'.threads, phase.holdsLock = false := by
  rcases h.locks hclosed with hbefore | hfree
  swap
  · exact hfree
  intro phase hphase
  rcases mem_iff_getElem?.mp hphase with ⟨j, hj⟩
  rcases h.threads j with hsame | ⟨ev, _, hnew⟩ | ⟨before, after, _, _, hold, hafter, hmoves, _⟩
  · exact hb.locks hbefore _ (mem_of_getElem? (hsame ▸ hj))
  · rw [hnew, Option.some.injEq] at hj
    rw [← hj]
    rfl
  · rw [hafter, Option.some.injEq] at hj
    rw [← hj]
    by_contra hlock
    rw [hbefore] at hmoves
    have hheld := hmoves.lock (Bool.not_eq_false _ ▸ hlock)
    rw [hb.locks hbefore _ (mem_of_getElem? hold)] at hheld
    cases hheld

theorem Provenance.step : Provenance b' where
  once := fun _ _ hm hm' hcall ↦ hb.step_once h hm hm' hcall
  plain := by
    intro m hm
    rcases h.written hm with hold | ⟨hplain, _⟩
    · exact hb.plain m hold
    · exact hplain
  placed := fun _ hm ↦ hb.step_placed h hm
  thread := fun _ _ _ hphase halert ↦ hb.step_thread h hphase halert
  carried := by
    intro m hm
    rcases h.carried hm with hold | ⟨i, raw, hphase, rfl⟩
    · exact h.log_subset (hb.carried m hold)
    · have hmem := (hb.thread i _ _ hphase rfl).1
      rw [hb.plain _ hmem]
      exact h.log_subset hmem
  undoing := by
    intro m hm
    rcases h.undoing hm with hold | ⟨hcarried, hcounted⟩
    · rcases hb.undoing m hold with ⟨hrecorded, hcounted⟩
      exact ⟨h.log_subset hrecorded, h.log_subset hcounted⟩
    · exact ⟨h.log_subset (hb.carried m hcarried), hcounted⟩
  posted := by
    intro batch hbatch m hm
    rcases h.written hbatch with hold | hsub
    · exact h.log_subset (hb.posted _ hold m hm)
    · exact h.log_subset (hb.carried _ (hsub (mem_map_of_mem hm)))
  reverted := by
    intro i mark hmem
    rcases h.written hmem with hold | ⟨m, hholds, hmark⟩
    · rcases hb.reverted i mark hold with ⟨m, hm, hown⟩
      exact ⟨m, h.log_subset hm, hown⟩
    · rcases hb.holds hholds with ⟨hm, hcall⟩
      exact ⟨m, h.log_subset hm, hcall, hmark⟩
  released := by
    intro i key slot hmem
    rcases h.written hmem with hold | ⟨m, hholds, hslot⟩
    · rcases hb.released i key slot hold with ⟨m, hm, hown⟩
      exact ⟨m, h.log_subset hm, hown⟩
    · rcases hb.holds hholds with ⟨hm, hcall⟩
      exact ⟨m, h.log_subset hm, hcall, hslot⟩
  locks := hb.step_locks h

end

end

/-! ## The account of one call -/

/-- The stages that a call can be counted in when it returns. -/
def outcomes : List Stage := [.invalid, .closed, .filtered, .cooldown, .queued, .dropped]

def LogEntry.reverts (i : ℕ) : LogEntry → Bool
  | reverted call _ => call == i
  | _ => false

def LogEntry.releases (i : ℕ) : LogEntry → Bool
  | released call _ _ => call == i
  | _ => false

/-- The call recorded an alert that holds a cooldown slot. -/
def LogEntry.takesSlot (i : ℕ) : LogEntry → Bool
  | recorded msg => msg.call == i && msg.cooldownKey != ""
  | _ => false

def Undoing.revertDue (i : ℕ) : Undoing → ℕ
  | revert msg => if msg.call = i then 1 else 0
  | _ => 0

def Undoing.releaseDue (i : ℕ) : Undoing → ℕ
  | nothing => 0
  | revert msg => if msg.call = i ∧ msg.cooldownKey ≠ "" then 1 else 0
  | release msg => if msg.call = i ∧ msg.cooldownKey ≠ "" then 1 else 0

def Phase.returnedIn (stage : Stage) : Phase → Bool
  | returned outcome => decide (outcome = stage)
  | _ => false

/-- The alert of the call was put on the channel. -/
def Phase.onChannel : Phase → Bool
  | counting => true
  | returned outcome => decide (outcome = .queued)
  | _ => false

/-- The call has released the slot of its alert because the channel was full. -/
def Phase.dropReleased : Phase → Bool
  | reverting _ => true
  | returned outcome => decide (outcome = .dropped)
  | _ => false

section

variable (msg : AlertMsg) (stage outcome : Stage)

@[simp] theorem returnedIn_returned :
    (returned outcome).returnedIn stage = decide (outcome = stage) := rfl
@[simp] theorem onChannel_returned :
    (returned outcome).onChannel = decide (outcome = .queued) := rfl
@[simp] theorem dropReleased_returned :
    (returned outcome).dropReleased = decide (outcome = .dropped) := rfl
@[simp] theorem returnedIn_sending : (sending msg).returnedIn stage = false := rfl
@[simp] theorem onChannel_sending : (sending msg).onChannel = false := rfl
@[simp] theorem dropReleased_sending : (sending msg).dropReleased = false := rfl

end

theorem Phase.early_flags {before : Phase} (hearly : before.early = true) :
    before.onChannel = false ∧ before.dropReleased = false ∧
      (∀ stage, before.returnedIn stage = false) ∧ ∀ outcome, before ≠ .returned outcome := by
  cases before with
  | parsing | locking | allowing | accepting =>
    exact ⟨rfl, rfl, fun _ ↦ rfl, nofun⟩
  | _ => cases hearly

theorem ne_of_mem_outcomes {stage other : Stage} (hstage : stage ∈ outcomes)
    (hother : other ∉ outcomes := by decide) : other ≠ stage :=
  fun heq ↦ hother (heq ▸ hstage)

/-- Everything the books hold about one call. -/
structure Account where
  phase : Option Phase
  count : Stage → ℕ
  reverts : ℕ
  releases : ℕ
  carried : ℕ
  revertDue : ℕ
  releaseDue : ℕ
  slotted : Bool

def Books.account (b : Books) (i : ℕ) : Account where
  phase := b.threads[i]?
  count stage := b.log.count (.counted i stage)
  reverts := b.log.countP (reverts i)
  releases := b.log.countP (releases i)
  carried := b.carried.countP fun msg ↦ msg.call == i
  revertDue := b.undoing.revertDue i
  releaseDue := b.undoing.releaseDue i
  slotted := b.log.any (takesSlot i)

/-- 1 if the call is in such a phase, else 0. -/
def flag (f : Phase → Bool) (phase : Option Phase) : ℕ := (phase.any f).toNat

@[simp] theorem flag_none (f : Phase → Bool) : flag f none = 0 := rfl

@[simp] theorem flag_some (f : Phase → Bool) (phase : Phase) :
    flag f (some phase) = (f phase).toNat := rfl

structure Account.Balanced (a : Account) : Prop where
  received : a.count .received = flag (fun _ ↦ true) a.phase
  outcome : ∀ stage ∈ outcomes, a.count stage = flag (·.returnedIn stage) a.phase
  finished : ∀ stage, a.phase = some (.returned stage) → stage ∈ outcomes
  delivered : a.count .sent + a.count .failed + a.carried = flag onChannel a.phase
  reverted : a.reverts + a.revertDue = a.count .failed + flag (·.returnedIn .dropped) a.phase
  released : a.releases + a.releaseDue =
    (bif a.slotted then a.count .failed else 0) + flag dropReleased a.phase

section

variable {b b' : Books} {i j : ℕ}

variable {before after : Phase} {entries : List LogEntry} {added : List AlertMsg}

variable {a : Account} {msg : AlertMsg}

/-- What is written for call `i` does not concern another call. -/
theorem Moves.other {closed : Bool} (h : Moves i closed before after entries added) (hj : j ≠ i)
    (halert : ∀ msg, before.alert? = some msg → msg.call = i) :
    (∀ stage, entries.count (.counted j stage) = 0) ∧ entries.countP (reverts j) = 0 ∧
      entries.countP (releases j) = 0 ∧ entries.any (takesSlot j) = false ∧
      (added.countP fun msg ↦ msg.call == j) = 0 := by
  have hne : i ≠ j := Ne.symm hj
  cases h with
  | enqueue =>
    have hcall := halert _ rfl
    simp [AlertMsg.plain, hcall, hne]
  | record _ _ hcall _ => simp [reverts, releases, takesSlot, hcall, hne]
  | _ => simp [reverts, releases, takesSlot, hne]

theorem account_thread_other (hb : Provenance b) {carried : List AlertMsg}
    (hphase : b.threads[i]? = some before) (hmoves : Moves i b.closed before after entries added)
    (hperm : carried.Perm (added ++ b.carried)) (hj : j ≠ i) :
    ({ b with threads := b.threads.set i after, carried := carried, log := b.log ++ entries } :
      Books).account j = b.account j := by
  have halert (msg : AlertMsg) (h : before.alert? = some msg) : msg.call = i :=
    (hb.thread i _ _ hphase h).2
  rcases hmoves.other hj halert with ⟨hcount, hreverts, hreleases, hslot, hadded⟩
  simp [account, getElem?_set_phase hphase, hj, hcount, hreverts, hreleases, hslot,
    hperm.countP_eq, hadded]

/-- The account of call `i` after its own step. -/
def Account.move (a : Account) (i : ℕ) (after : Phase) (entries : List LogEntry)
    (added : List AlertMsg) : Account :=
  { a with
    phase := some after
    count := fun stage ↦ a.count stage + entries.count (.counted i stage)
    reverts := a.reverts + entries.countP (LogEntry.reverts i)
    releases := a.releases + entries.countP (LogEntry.releases i)
    carried := (added.countP fun msg ↦ msg.call == i) + a.carried
    slotted := a.slotted || entries.any (LogEntry.takesSlot i) }

theorem account_thread_self {carried : List AlertMsg} (hphase : b.threads[i]? = some before)
    (hperm : carried.Perm (added ++ b.carried)) :
    ({ b with threads := b.threads.set i after, carried := carried, log := b.log ++ entries } :
      Books).account i = (b.account i).move i after entries added := by
  simp [account, Account.move, getElem?_set_phase hphase, hperm.countP_eq]

theorem count_counted (i : ℕ) (outcome stage : Stage) :
    [counted i outcome].count (.counted i stage) = if outcome = stage then 1 else 0 := by
  simp [count_cons]

/-- What a call writes when it changes its phase is what the new phase has more than the old one. A slot is
recorded only before the call can have failed. -/
structure Matches (i : ℕ) (before after : Phase) (entries : List LogEntry) (added : List AlertMsg) :
    Prop where
  received : entries.count (.counted i .received) = 0
  sent : entries.count (.counted i .sent) = 0
  failed : entries.count (.counted i .failed) = 0
  outcome : ∀ stage ∈ outcomes, (before.returnedIn stage).toNat + entries.count (.counted i stage) =
    (after.returnedIn stage).toNat
  finished : ∀ stage, after = .returned stage → stage ∈ outcomes
  delivered : (added.countP fun msg ↦ msg.call == i) + before.onChannel.toNat = after.onChannel.toNat
  reverted : entries.countP (reverts i) + (before.returnedIn .dropped).toNat =
    (after.returnedIn .dropped).toNat
  released : entries.countP (releases i) + before.dropReleased.toNat = after.dropReleased.toNat
  slot : entries.any (takesSlot i) = true → before.onChannel = false

theorem Account.Balanced.of_matches (hbal : a.Balanced) (hphase : a.phase = some before)
    (h : Matches i before after entries added) : (a.move i after entries added).Balanced := by
  rcases hbal with ⟨hreceived, houtcome, _, hdelivered, hreverted, hreleased⟩
  rw [hphase, flag_some] at hreceived hdelivered hreverted hreleased
  have hfailed := h.failed
  constructor
  · simp only [Account.move, flag_some]
    rw [hreceived, h.received, Nat.add_zero]
  · intro stage hstage
    have hcount := houtcome stage hstage
    rw [hphase, flag_some] at hcount
    simp only [Account.move, flag_some]
    rw [hcount, h.outcome _ hstage]
  · intro stage hstage
    exact h.finished _ (Option.some.inj hstage)
  · have hsent := h.sent
    have hmore := h.delivered
    simp only [Account.move, flag_some]
    omega
  · have hmore := h.reverted
    simp only [Account.move, flag_some]
    omega
  · have hmore := h.released
    have hslotted : (bif a.slotted || entries.any (takesSlot i) then a.count .failed else 0) =
        bif a.slotted then a.count .failed else 0 := by
      cases hany : entries.any (takesSlot i) with
      | false => rw [Bool.or_false]
      | true =>
        have hzero : a.count .failed = 0 := by
          rw [h.slot hany] at hdelivered
          simp only [Bool.toNat_false] at hdelivered
          omega
        rw [hzero, Bool.cond_self, Bool.cond_self]
    simp only [Account.move, flag_some, hfailed, Nat.add_zero]
    omega

/-- Every move of a call writes what its phases require. -/
theorem Moves.matches {closed : Bool} (h : Moves i closed before after entries added)
    (halert : ∀ msg, before.alert? = some msg → msg.call = i) :
    Matches i before after entries added := by
  cases h with
  | advance hearly hafter _ =>
    rcases early_flags hearly with ⟨hchannel, hdrop, hflag, hreturned⟩
    rcases early_flags hafter with ⟨hchannel', hdrop', hflag', hreturned'⟩
    constructor <;> simp [hchannel, hdrop, hflag, hchannel', hdrop', hflag', hreturned']
  | stop outcome hearly hstage =>
    rcases early_flags hearly with ⟨hchannel, hdrop, hflag, hreturned⟩
    have hmem : outcome ∈ outcomes ∧ outcome ≠ .received ∧ outcome ≠ .sent ∧ outcome ≠ .failed ∧
        outcome ≠ .queued ∧ outcome ≠ .dropped := by
      revert hstage
      cases outcome <;> decide
    constructor <;> simp [hchannel, hdrop, hflag, hmem, count_counted, reverts,
      releases, Bool.toNat]
  | record hearly _ hcall _ =>
    rcases early_flags hearly with ⟨hchannel, hdrop, hflag, hreturned⟩
    constructor <;> simp [hchannel, hdrop, hflag, reverts, releases]
  | enqueue =>
    have hcall := halert _ rfl
    constructor <;> simp [AlertMsg.plain, hcall, onChannel, dropReleased, returnedIn]
  | full => constructor <;> simp [onChannel, dropReleased, returnedIn]
  | count | release | revert =>
    constructor <;>
      simp [reverts, releases, takesSlot, outcomes, onChannel, dropReleased, returnedIn]

theorem Account.Balanced.call (hbal : (b.account j).Balanced) (ev : Event) :
    (({ b with
        threads := b.threads ++ [.parsing ev]
        log := b.log ++ [.counted b.threads.length .received] } : Books).account j).Balanced := by
  rcases hbal with ⟨hreceived, houtcome, hfinished, hdelivered, hreverted, hreleased⟩
  by_cases hj : j = b.threads.length
  · have hnone : (b.account j).phase = none := by
      rw [hj]
      exact getElem?_eq_none le_rfl
    rw [hnone] at hreceived houtcome hdelivered hreverted hreleased
    have hafter : ({ b with
        threads := b.threads ++ [.parsing ev]
        log := b.log ++ [.counted b.threads.length .received] } : Books).account j =
        { b.account j with
          phase := some (.parsing ev)
          count := fun stage ↦ (b.account j).count stage + if .received = stage then 1 else 0 } := by
      rw [hj]
      simp [account, count_counted, LogEntry.reverts, LogEntry.releases, LogEntry.takesSlot]
    rcases early_flags (show (parsing ev).early = true from rfl) with
      ⟨hchannel, hdrop, hflag, hreturned⟩
    rw [hafter]
    constructor
    · simp [hreceived]
    · intro stage hstage
      have hother : Stage.received ≠ stage := ne_of_mem_outcomes hstage
      simp [houtcome stage hstage, hother, hflag]
    · exact fun stage hstage ↦ absurd (Option.some.inj hstage) (hreturned stage)
    · simpa [hchannel] using hdelivered
    · simpa [hflag] using hreverted
    · simpa [hdrop] using hreleased
  · have hsame : ({ b with
        threads := b.threads ++ [.parsing ev]
        log := b.log ++ [.counted b.threads.length .received] } : Books).account j = b.account j := by
      have hne : b.threads.length ≠ j := Ne.symm hj
      simp [account, getElem?_concat_phase, hj, hne, LogEntry.reverts, LogEntry.releases,
        LogEntry.takesSlot]
    rw [hsame]
    exact ⟨hreceived, houtcome, hfinished, hdelivered, hreverted, hreleased⟩

/-- `n` alerts of the call are counted in a stage and leave the books. -/
def Account.settle (a : Account) (stage : Stage) (n carried : ℕ) : Account :=
  { a with
    count := fun other ↦ a.count other + if stage = other then n else 0
    carried := carried }

theorem account_sent {batch rest : List AlertMsg}
    (hperm : b.carried.Perm (batch.map AlertMsg.plain ++ rest)) :
    ∃ n carried, (b.account j).carried = n + carried ∧
      ({ b with
        carried := rest
        log := b.log ++ .posted batch :: batch.map fun msg ↦ .counted msg.call .sent } :
      Books).account j = (b.account j).settle .sent n carried := by
  refine ⟨batch.countP fun msg ↦ msg.call == j, rest.countP fun msg ↦ msg.call == j, ?_, ?_⟩
  · simp only [account, hperm.countP_eq, countP_append, countP_map]
    rfl
  have hcount (stage : Stage) : (batch.map fun msg ↦ counted msg.call .sent).count
      (.counted j stage) = if .sent = stage then batch.countP fun msg ↦ msg.call == j else 0 := by
    rw [List.count, countP_map]
    by_cases hstage : Stage.sent = stage
    · rw [if_pos hstage]
      congr 1
      funext msg
      simp [hstage]
    · simp [hstage]
  have hnone (f : LogEntry → Bool) (hf : ∀ call, f (.counted call .sent) = false) :
      (batch.map fun msg ↦ counted msg.call .sent).countP f = 0 ∧
      (batch.map fun msg ↦ counted msg.call .sent).any f = false := by
    simp [hf]
  have hslots := (hnone (takesSlot j) fun _ ↦ rfl).2
  simp only [account, Account.settle, count_append, count_cons, countP_append,
    any_append, any_cons, hcount]
  simp [reverts, releases, takesSlot]

theorem Account.Balanced.sent (hbal : a.Balanced) {n carried : ℕ}
    (hcarried : a.carried = n + carried) : (a.settle .sent n carried).Balanced where
  received := by simpa [settle] using hbal.received
  outcome := by
    intro stage hstage
    have hne : .sent ≠ stage := ne_of_mem_outcomes hstage
    simpa [settle, hne] using hbal.outcome stage hstage
  finished := hbal.finished
  delivered := by
    have hdelivered := hbal.delivered
    simp only [settle, if_true, reduceCtorEq, if_false]
    omega
  reverted := by simpa [settle] using hbal.reverted
  released := by simpa [settle] using hbal.released

/-- Whether a call took a slot can be read off its recorded alert. -/
theorem Provenance.slotted (hb : Provenance b) {m : AlertMsg} (hm : .recorded m ∈ b.log) :
    (b.account m.call).slotted = decide (m.cooldownKey ≠ "") := by
  rw [Bool.eq_iff_iff, decide_eq_true_iff]
  simp only [account, any_eq_true]
  constructor
  · intro htakes
    rcases htakes with ⟨entry, hentry, htakes⟩
    cases entry with
    | recorded m' =>
      simp only [takesSlot, Bool.and_eq_true, beq_iff_eq, bne_iff_ne] at htakes
      rw [hb.once m m' hm hentry htakes.1.symm]
      exact htakes.2
    | _ => cases htakes
  · intro hkey
    exact ⟨.recorded m, hm, by simp [takesSlot, hkey]⟩

/-- The alert of the call is counted as failed; its record and its slot are to be undone. -/
def Account.fail (a : Account) (carried : ℕ) : Account :=
  { a.settle .failed 1 carried with revertDue := 1, releaseDue := a.slotted.toNat }

theorem account_failed (hb : Provenance b) {rest : List AlertMsg}
    (hperm : b.carried.Perm (msg :: rest)) (hundoing : b.undoing = .nothing) :
    let after := ({ b with
      carried := rest
      undoing := .revert msg
      log := b.log ++ [.counted msg.call .failed] } : Books).account j
    (msg.call ≠ j ∧ after = b.account j) ∨
      ∃ carried, (b.account j).carried = 1 + carried ∧ (b.account j).revertDue = 0 ∧
        (b.account j).releaseDue = 0 ∧ after = (b.account j).fail carried := by
  have hslotted := hb.slotted (hb.carried msg (hperm.mem_iff.mpr (by simp)))
  by_cases hj : msg.call = j
  · subst hj
    refine .inr ⟨rest.countP fun m ↦ m.call == msg.call, ?_, ?_, ?_, ?_⟩
    · simp [account, hperm.countP_eq, Nat.add_comm]
    · simp [account, hundoing, revertDue]
    · simp [account, hundoing, releaseDue]
    · rw [Account.fail, hslotted]
      simp only [account, Account.settle, count_append, count_counted]
      by_cases hkey : msg.cooldownKey = "" <;>
        simp [reverts, releases, takesSlot, revertDue,
          releaseDue, hkey]
  · refine .inl ⟨hj, ?_⟩
    simp only [account, hperm.countP_eq, hundoing]
    simp [hj, reverts, releases, takesSlot, revertDue,
      releaseDue]

theorem Account.Balanced.fail (hbal : a.Balanced) {carried : ℕ} (hcarried : a.carried = 1 + carried)
    (hrevert : a.revertDue = 0) (hrelease : a.releaseDue = 0) :
    (a.fail carried).Balanced where
  received := by simpa [Account.fail, settle] using hbal.received
  outcome := by
    intro stage hstage
    have hne : .failed ≠ stage := ne_of_mem_outcomes hstage
    simpa [Account.fail, settle, hne] using hbal.outcome stage hstage
  finished := hbal.finished
  delivered := by
    have hdelivered := hbal.delivered
    simp only [Account.fail, settle, if_true, reduceCtorEq, if_false]
    omega
  reverted := by
    have hreverted := hbal.reverted
    simp only [Account.fail, settle, if_true]
    omega
  released := by
    have hreleased := hbal.released
    simp only [Account.fail, settle, if_true]
    cases hslot : a.slotted <;> simp only [hslot, cond_true, cond_false, Bool.toNat_true,
      Bool.toNat_false] at hreleased ⊢ <;> omega

/-- The worker reverts the record of an alert. -/
theorem Account.Balanced.undo_revert (hbal : (b.account j).Balanced)
    (hundoing : b.undoing = .revert msg) :
    (({ b with
        undoing := .release msg
        log := b.log ++ [.reverted msg.call msg.mark] } : Books).account j).Balanced := by
  have haccount : ({ b with
      undoing := .release msg
      log := b.log ++ [.reverted msg.call msg.mark] } : Books).account j =
        { b.account j with
          reverts := (b.account j).reverts + if msg.call = j then 1 else 0
          revertDue := 0 } := by
    simp [account, hundoing, LogEntry.reverts, LogEntry.releases, LogEntry.takesSlot,
      Undoing.revertDue, Undoing.releaseDue]
  have hdue : (b.account j).revertDue = if msg.call = j then 1 else 0 := by
    simp [account, hundoing, Undoing.revertDue]
  have hreverted := hbal.reverted
  rw [hdue] at hreverted
  rw [haccount]
  exact ⟨hbal.received, hbal.outcome, hbal.finished, hbal.delivered, hreverted, hbal.released⟩

/-- The worker releases the slot of an alert. -/
theorem Account.Balanced.undo_release (hbal : (b.account j).Balanced)
    (hundoing : b.undoing = .release msg) (hkey : msg.cooldownKey ≠ "") :
    (({ b with
        undoing := .nothing
        log := b.log ++
          [.released msg.call msg.cooldownKey msg.slot, .counted msg.call .released] } :
      Books).account j).Balanced := by
  have haccount : ({ b with
      undoing := .nothing
      log := b.log ++
        [.released msg.call msg.cooldownKey msg.slot, .counted msg.call .released] } :
      Books).account j =
        { b.account j with
          count := fun stage ↦
            (b.account j).count stage + if msg.call = j ∧ .released = stage then 1 else 0
          releases := (b.account j).releases + if msg.call = j then 1 else 0
          releaseDue := 0 } := by
    simp [account, hundoing, LogEntry.reverts, LogEntry.releases, LogEntry.takesSlot,
      Undoing.revertDue, Undoing.releaseDue, count_cons, countP_cons]
  have hdue : (b.account j).releaseDue = if msg.call = j then 1 else 0 := by
    simp [account, hundoing, Undoing.releaseDue, hkey]
  have hreleased := hbal.released
  rw [hdue] at hreleased
  rw [haccount]
  refine ⟨?_, fun stage hstage ↦ ?_, hbal.finished, ?_, ?_, ?_⟩
  · simpa using hbal.received
  · have hne : .released ≠ stage := ne_of_mem_outcomes hstage
    simpa [hne] using hbal.outcome stage hstage
  · simpa using hbal.delivered
  · simpa using hbal.reverted
  · simpa using hreleased

theorem Account.Balanced.step (hb : Provenance b) (h : BookStep b b')
    (hbal : (b.account j).Balanced) : (b'.account j).Balanced := by
  cases h with
  | @idle carried hperm =>
    have hsame : ({ b with carried := carried } : Books).account j = b.account j := by
      simp only [account, hperm.countP_eq]
    rwa [hsame]
  | close => exact hbal
  | call ev => exact hbal.call ev
  | @thread i before after entries added carried hphase hmoves hperm =>
    by_cases hj : j = i
    · subst hj
      rw [account_thread_self hphase hperm]
      exact hbal.of_matches hphase
        (hmoves.matches fun msg halert ↦ (hb.thread j _ _ hphase halert).2)
    · rwa [account_thread_other hb hphase hmoves hperm hj]
  | @posted batch =>
    have hsame : ({ b with log := b.log ++ [.posted batch] } : Books).account j = b.account j := by
      simp [account, LogEntry.reverts, LogEntry.releases, LogEntry.takesSlot]
    rwa [hsame]
  | sent hperm =>
    rcases account_sent hperm with ⟨n, carried, hcarried, haccount⟩
    rw [haccount]
    exact hbal.sent hcarried
  | failed hperm hundoing =>
    rcases account_failed hb hperm hundoing with
      ⟨_, hsame⟩ | ⟨carried, hcarried, hrevert, hrelease, haccount⟩
    · rwa [hsame]
    · rw [haccount]
      exact hbal.fail hcarried hrevert hrelease
  | reverted hundoing => exact hbal.undo_revert hundoing
  | released hundoing hkey => exact hbal.undo_release hundoing hkey
  | @slotless msg hundoing hkey =>
    have hsame : ({ b with undoing := .nothing } : Books).account j = b.account j := by
      simp [account, hundoing, Undoing.revertDue, Undoing.releaseDue, hkey]
    rwa [hsame]

end

end RanHoneypot.Alert
