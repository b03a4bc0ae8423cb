import RanHoneypot.Alert.Pipeline

/-!
# The books of the pipeline

For the accounting of alerts most of the pipeline does not matter: not the tables, not the batches
and not the reasons for which the worker sends. What matters is how far each `Submit` call has come,
which alerts are on the channel or held by the worker, which alert the worker is undoing, and the
log. These are the `Books`, and `BookStep` lists everything that a step can do to them.
-/

namespace RanHoneypot.Alert

open List AlertMsg Worker

/-- The alert without the cached encoding. -/
def AlertMsg.plain (msg : AlertMsg) : AlertMsg := { msg with raw := none }

theorem AlertMsg.plain_encode (msg : AlertMsg) (size : Option ℕ) :
    (msg.encode size).plain = msg.plain := by
  unfold encode
  split <;> rfl

def Resume.held : Resume → List AlertMsg
  | next batch _ => batch
  | append msg => [msg]
  | finish => []

/-- The alerts that the worker has taken and not counted yet. -/
def Worker.held : Worker → List AlertMsg
  | receiving batch _ => batch
  | posting batch _ _ k => batch ++ k.held
  | loggingIn batch _ k => batch ++ k.held
  | failing rest _ k => rest ++ k.held
  | reverting _ rest _ k => rest ++ k.held
  | releasing _ rest _ k => rest ++ k.held
  | holding k => k.held
  | ended => []

/-- The alert that `failBatch` has counted and not undone completely. -/
inductive Undoing where
  | nothing
  | revert (msg : AlertMsg)
  | release (msg : AlertMsg)

def Worker.undoing : Worker → Undoing
  | reverting msg _ _ _ => .revert msg.plain
  | releasing msg _ _ _ => .release msg.plain
  | _ => .nothing

structure Books where
  threads : List Phase
  carried : List AlertMsg
  undoing : Undoing
  closed : Bool
  log : List LogEntry

/-- The call has not recorded an alert yet. -/
def Phase.early : Phase → Bool
  | parsing _ => true
  | locking _ _ => true
  | allowing _ _ => true
  | accepting _ _ _ => true
  | _ => false

/-- The number of its own steps after which the call has returned. -/
def Phase.stepsLeft : Phase → ℕ
  | parsing _ => 7
  | locking _ _ => 6
  | allowing _ _ => 5
  | accepting _ _ _ => 4
  | sending _ => 3
  | releasing _ => 2
  | counting => 1
  | reverting _ => 1
  | returned _ => 0

/-- What one step of call `i` can do: the phase before and after it, what it writes to the log and
what it puts on the channel. -/
inductive Moves (i : ℕ) (closed : Bool) : Phase → Phase → List LogEntry → List AlertMsg → Prop
  | advance {before after} : before.early = true → after.early = true →
      (closed = true → after.holdsLock = true → before.holdsLock = true) →
      after.stepsLeft < before.stepsLeft → Moves i closed before after [] []
  | stop {before} (outcome : Stage) : before.early = true →
      outcome ∈ [Stage.invalid, .closed, .filtered, .cooldown] →
      Moves i closed before (.returned outcome) [.counted i outcome] []
  | record {before msg} : before.early = true → before.holdsLock = true → msg.call = i →
      msg.plain = msg → Moves i closed before (.sending msg) [.recorded msg] []
  | enqueue {msg} : Moves i closed (.sending msg) .counting [] [msg.plain]
  | full {msg} : Moves i closed (.sending msg) (.releasing msg) [] []
  | count : Moves i closed .counting (.returned .queued) [.counted i .queued] []
  | release {msg} : Moves i closed (.releasing msg) (.reverting msg)
      [.released i msg.cooldownKey msg.slot] []
  | revert {msg} : Moves i closed (.reverting msg) (.returned .dropped)
      [.reverted i msg.mark, .counted i .dropped] []

/-- What one step of the pipeline can do to the books. -/
inductive BookStep (b : Books) : Books → Prop
  | idle {carried} : carried.Perm b.carried → BookStep b { b with carried := carried }
  | close : (∀ phase ∈ b.threads, phase.holdsLock = false) → BookStep b { b with closed := true }
  | call (ev : Event) : BookStep b
      { b with
        threads := b.threads ++ [.parsing ev]
        log := b.log ++ [.counted b.threads.length .received] }
  | thread {i before after entries added carried} : b.threads[i]? = some before →
      Moves i b.closed before after entries added → carried.Perm (added ++ b.carried) →
      BookStep b
        { b with threads := b.threads.set i after, carried := carried, log := b.log ++ entries }
  | posted {batch : List AlertMsg} : batch.map plain ⊆ b.carried →
      BookStep b { b with log := b.log ++ [.posted batch] }
  | sent {batch rest} : b.carried.Perm (batch.map plain ++ rest) →
      BookStep b
        { b with
          carried := rest
          log := b.log ++ .posted batch :: batch.map fun msg ↦ .counted msg.call .sent }
  | failed {msg rest} : b.carried.Perm (msg :: rest) → b.undoing = .nothing →
      BookStep b
        { b with carried := rest, undoing := .revert msg, log := b.log ++ [.counted msg.call .failed] }
  | reverted {msg} : b.undoing = .revert msg →
      BookStep b { b with undoing := .release msg, log := b.log ++ [.reverted msg.call msg.mark] }
  | released {msg} : b.undoing = .release msg → msg.cooldownKey ≠ "" →
      BookStep b
        { b with
          undoing := .nothing
          log := b.log ++
            [.released msg.call msg.cooldownKey msg.slot, .counted msg.call .released] }
  | slotless {msg} : b.undoing = .release msg → msg.cooldownKey = "" →
      BookStep b { b with undoing := .nothing }

namespace Pipeline

def books (p : Pipeline) : Books where
  threads := p.threads
  carried := (p.sink.ch ++ p.worker.held).map plain
  undoing := p.worker.undoing
  closed := p.sink.closed
  log := p.log

/-- The books of `p` if the worker holds `held` and undoes nothing. -/
def booksWith (p : Pipeline) (held : List AlertMsg) : Books :=
  { p.books with carried := (p.sink.ch ++ held).map plain, undoing := .nothing }

variable (p : Pipeline) (batch : List AlertMsg) (msg : AlertMsg) (bytes : ℕ) (final : Bool) (k : Resume)

/-! ## The worker loses no alert -/

theorem books_flushWithin : (p.flushWithin batch final k).books = p.booksWith (batch ++ k.held) := by
  unfold flushWithin
  split <;> rfl

theorem books_sendBatch : (p.sendBatch batch k).books = p.booksWith (batch ++ k.held) := by
  unfold sendBatch
  split
  · split
    · exact books_flushWithin { p with finalTried := true } batch true k
    · rfl
  · exact books_flushWithin p _ _ k

theorem books_append : (p.append batch bytes msg).books = p.booksWith (batch ++ [msg]) := by
  unfold append
  dsimp only
  split
  · rw [books_sendBatch]
    simp [Resume.held]
  · rfl

theorem books_resume : (p.resume k).books = p.booksWith k.held := by
  cases k with
  | next batch bytes => rfl
  | append msg => exact books_append p [] _ 0
  | finish => rfl

theorem books_send : (p.send batch k).books = p.booksWith (batch ++ k.held) := by
  unfold send
  split
  · next hempty => rw [books_resume, hempty, nil_append]
  · exact books_sendBatch p _ k

theorem books_received : ∃ held, held.Perm (batch ++ [msg]) ∧
    (p.received batch bytes msg).books = p.booksWith held := by
  unfold received
  split
  · refine ⟨[msg] ++ batch, perm_append_comm, ?_⟩
    rw [books_send]
    rfl
  · split
    · exact ⟨[msg] ++ batch, perm_append_comm, rfl⟩
    · split
      · exact ⟨_, List.Perm.refl _, books_send p ..⟩
      · exact ⟨_, List.Perm.refl _, books_append p ..⟩

/-! ## Every step is a book step -/

variable {p} {net : Netip}

theorem idle_of_eq {b b' : Books} (h : b' = b) : BookStep b b' := by
  rw [h]
  exact .idle (List.Perm.refl _)

/-- Going on with the alerts that the worker holds anyway. -/
theorem idle_of_booksWith {held : List AlertMsg} {b : Books} (hundoing : p.worker.undoing = .nothing)
    (hheld : held.Perm p.worker.held) (h : b = p.booksWith held) : BookStep p.books b := by
  have hcarried : ((p.sink.ch ++ held).map plain).Perm p.books.carried :=
    (hheld.append_left _).map plain
  have heq : b = { p.books with carried := (p.sink.ch ++ held).map plain } := by
    rw [h, booksWith, ← hundoing]
    rfl
  rw [heq]
  exact .idle hcarried

/-- A step of one call. -/
theorem books_thread {call : ℕ} {before after : Phase} {entries : List LogEntry}
    {added : List AlertMsg} {b' : Books} (hphase : p.threads[call]? = some before)
    (hmoves : Moves call p.sink.closed before after entries added)
    (hthreads : b'.threads = p.threads.set call after) (hlog : b'.log = p.log ++ entries)
    (hcarried : b'.carried.Perm (added ++ p.books.carried))
    (hrest : b'.undoing = p.books.undoing ∧ b'.closed = p.books.closed) : BookStep p.books b' := by
  have heq : b' = { p.books with
      threads := p.books.threads.set call after
      carried := b'.carried
      log := p.books.log ++ entries } := by
    cases b'
    simp_all [books]
  rw [heq]
  exact .thread hphase hmoves hcarried

theorem books_submitStep {call now : ℕ} {phase : Phase} (hphase : p.threads[call]? = some phase) :
    BookStep p.books (p.submitStep net call now phase).books := by
  have hperm := List.Perm.refl p.books.carried
  cases phase with
  | parsing ev =>
    simp only [submitStep]
    split
    · exact books_thread hphase (.stop .invalid rfl (by simp)) rfl rfl hperm ⟨rfl, rfl⟩
    · refine books_thread hphase (.advance rfl rfl ?_ (by exact Nat.lt_succ_self 6)) rfl
        (append_nil _).symm hperm ⟨rfl, rfl⟩
      intro _ hlock
      cases hlock
  | locking ev ip =>
    simp only [submitStep]
    split
    · exact books_thread hphase (.stop .closed rfl (by simp)) rfl rfl hperm ⟨rfl, rfl⟩
    · next hopen =>
      split
      · exact books_thread hphase (.stop .filtered rfl (by simp)) rfl rfl hperm ⟨rfl, rfl⟩
      · refine books_thread hphase (.advance rfl rfl ?_ (by exact Nat.lt_succ_self 5)) rfl
          (append_nil _).symm hperm ⟨rfl, rfl⟩
        intro hclosed _
        exact absurd hclosed hopen
  | allowing ev ip =>
    simp only [submitStep]
    split
    · exact books_thread hphase (.stop .cooldown rfl (by simp)) rfl rfl hperm ⟨rfl, rfl⟩
    · exact books_thread hphase (.advance rfl rfl (fun _ _ ↦ rfl) (by exact Nat.lt_succ_self 4)) rfl
        (append_nil _).symm hperm ⟨rfl, rfl⟩
  | accepting ev ip allowance =>
    exact books_thread hphase (.record rfl rfl rfl rfl) rfl rfl hperm ⟨rfl, rfl⟩
  | sending msg =>
    simp only [submitStep]
    split
    · refine books_thread hphase .enqueue rfl (append_nil _).symm ?_ ⟨rfl, rfl⟩
      have hmoved : ((p.sink.ch ++ [msg]) ++ p.worker.held).Perm
          (msg :: (p.sink.ch ++ p.worker.held)) := by
        rw [append_assoc]
        exact perm_middle
      exact hmoved.map _
    · exact books_thread hphase .full rfl (append_nil _).symm hperm ⟨rfl, rfl⟩
  | counting => exact books_thread hphase .count rfl rfl hperm ⟨rfl, rfl⟩
  | releasing msg => exact books_thread hphase .release rfl rfl hperm ⟨rfl, rfl⟩
  | reverting msg =>
    exact books_thread hphase .revert rfl (append_assoc ..) hperm ⟨rfl, rfl⟩
  | returned outcome => exact idle_of_eq rfl

theorem books_receive (size : Option ℕ) : BookStep p.books (p.receive size).books := by
  unfold receive
  split
  · next batch bytes hworker =>
    have hundoing : p.worker.undoing = .nothing := by rw [hworker]; rfl
    split
    · split
      · refine idle_of_booksWith hundoing ?_ (books_send p ..)
        simp [hworker, Worker.held, Resume.held]
      · exact idle_of_eq rfl
    · next msg rest hch =>
      rcases books_received { p with sink := { p.sink with ch := rest } } batch (msg.encode _) bytes
        with ⟨held, hheld, hbooks⟩
      have hcarried : ((rest ++ held).map plain).Perm p.books.carried := by
        have hmoved : (rest ++ (batch ++ [msg.encode size])).Perm
            (msg.encode size :: (rest ++ batch)) := by
          rw [← append_assoc]
          exact perm_append_singleton ..
        have hplain := ((hheld.append_left _).trans hmoved).map plain
        simpa [books, hch, hworker, Worker.held, plain_encode] using hplain
      have heq : ({ p with sink := { p.sink with ch := rest } } : Pipeline).booksWith held =
          { p.books with carried := (rest ++ held).map plain } := by
        simp only [booksWith, books, hundoing]
      rw [hbooks, heq]
      exact .idle hcarried
  · exact idle_of_eq rfl

theorem books_tick : BookStep p.books p.tick.books := by
  unfold tick
  split
  · next batch bytes hworker =>
    split
    · refine idle_of_booksWith (by rw [hworker]; rfl) ?_ (books_send p ..)
      simp [hworker, held, Resume.held]
    · exact idle_of_eq rfl
  · exact idle_of_eq rfl

theorem books_reply (status : Option ℤ) : BookStep p.books (p.reply status).books := by
  unfold reply
  split
  · next batch final again k hworker =>
    have hnothing : p.worker.undoing = .nothing := by rw [hworker]; rfl
    have hposted : BookStep p.books (p.write [.posted batch]).books := by
      refine .posted ?_
      intro msg hmsg
      rcases mem_map.mp hmsg with ⟨raw, hraw, rfl⟩
      apply mem_map_of_mem
      simp [hworker, held, hraw]
    have hsame {w : Worker} (hheld : w.held = p.worker.held) (hundoing : w.undoing = .nothing) :
        BookStep p.books ({ p.write [.posted batch] with worker := w } : Pipeline).books := by
      have heq : ({ p.write [.posted batch] with worker := w } : Pipeline).books =
          (p.write [.posted batch]).books := by
        simp only [books, write, hheld, hundoing, hnothing]
      rwa [heq]
    split
    · exact hsame (by rw [hworker]; rfl) rfl
    · split
      · have hcarried : p.books.carried.Perm
            (batch.map plain ++ (p.sink.ch ++ k.held).map plain) := by
          have hmoved : (p.sink.ch ++ (batch ++ k.held)).Perm (batch ++ (p.sink.ch ++ k.held)) := by
            rw [← append_assoc, ← append_assoc]
            exact perm_append_comm.append_right k.held
          have hplain := hmoved.map plain
          simpa [books, hworker, held] using hplain
        have heq : ((p.write [.posted batch]).accepted batch final k).books =
            { p.books with
              carried := (p.sink.ch ++ k.held).map plain
              log := p.books.log ++
                .posted batch :: batch.map fun msg ↦ .counted msg.call .sent } := by
          rw [accepted, books_resume]
          simp [booksWith, books, write, hnothing]
        rw [heq]
        exact .sent hcarried
      · exact hsame (by rw [hworker]; rfl) rfl
  · exact idle_of_eq rfl

theorem books_login (ok : Bool) : BookStep p.books (p.login ok).books := by
  unfold login
  split
  · next batch final k hworker =>
    refine idle_of_eq ?_
    split <;> simp [books, hworker, held, undoing]
  · exact idle_of_eq rfl

theorem books_fail (now : ℕ) : BookStep p.books (p.fail now).books := by
  unfold fail
  split
  · next hold k hworker =>
    split
    · exact idle_of_eq (by simp [books, hworker, held, undoing])
    · refine idle_of_booksWith (by rw [hworker]; rfl) ?_ (books_resume p k)
      simp [hworker, held]
  · next msg rest hold k hworker =>
    have hcarried : p.books.carried.Perm
        (msg.plain :: (p.sink.ch ++ (rest ++ k.held)).map plain) := by
      simp [books, hworker, held]
    have hundoing : p.books.undoing = .nothing := by simp [books, hworker, undoing]
    exact .failed hcarried hundoing
  · next msg rest hold k hworker =>
    have hundoing : p.books.undoing = .revert msg.plain := by
      simp [books, hworker, undoing]
    have hstep := BookStep.reverted hundoing
    have heq : ({ p with sink := p.sink.revert msg.mark now
                         worker := .releasing msg rest hold k }.write
        [.reverted msg.call msg.mark] : Pipeline).books =
        { p.books with
          undoing := .release msg.plain
          log := p.books.log ++ [.reverted msg.plain.call msg.plain.mark] } := by
      simp [books, write, hworker, held, undoing, CrowdSecAlerter.revert,
        plain]
    rw [heq]
    exact hstep
  · next msg rest hold k hworker =>
    have hundoing : p.books.undoing = .release msg.plain := by
      simp [books, hworker, undoing]
    split
    · next hkey =>
      have hstep := BookStep.released hundoing hkey
      simpa [books, write, hworker, held, undoing, CrowdSecAlerter.release,
        plain] using hstep
    · next hkey =>
      have hstep := BookStep.slotless hundoing (not_not.mp hkey)
      simpa [books, hworker, held, undoing] using hstep
  · exact idle_of_eq rfl

theorem books_resume_holding {k : Resume} (hworker : p.worker = .holding k) (abandon : Bool) :
    BookStep p.books (({ p with abandon := abandon } : Pipeline).resume k).books := by
  refine idle_of_booksWith (by rw [hworker]; rfl) ?_ (books_resume { p with abandon := abandon } k)
  simp [hworker, held]

theorem books_close : BookStep p.books p.close.books := by
  unfold close
  split
  · exact idle_of_eq rfl
  · next hfree =>
    refine .close fun phase hphase ↦ ?_
    simp only [Bool.or_eq_true, not_or, Bool.not_eq_true, any_eq_false] at hfree
    exact hfree.2 _ hphase

theorem step_books (net : Netip) (p : Pipeline) (a : Action) :
    BookStep p.books (p.step net a).books := by
  cases a with
  | call ev => exact .call ev
  | thread call now =>
    simp only [step]
    split
    · exact idle_of_eq rfl
    · next phase hphase => exact books_submitStep hphase
  | receive size => exact books_receive _
  | tick => exact books_tick
  | reply status => exact books_reply _
  | login ok => exact books_login ok
  | fail now => exact books_fail _
  | holdTimer =>
    simp only [step, holdTimer]
    split
    · next k hworker => exact books_resume_holding hworker _
    · exact idle_of_eq rfl
  | holdStop =>
    simp only [step, holdStop]
    split
    · next k hworker =>
      split
      · exact books_resume_holding hworker _
      · exact idle_of_eq rfl
    · exact idle_of_eq rfl
  | close => exact books_close
  | shunned | rejected | sweep | flush | cleanup => exact idle_of_eq rfl

end Pipeline

end RanHoneypot.Alert
