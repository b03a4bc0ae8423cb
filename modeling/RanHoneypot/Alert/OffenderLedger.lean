import RanHoneypot.Alert.OffenderUpkeep
import RanHoneypot.Alert.ShunWindow

/-!
# The offender table refines one window machine per source

A caller of the offender table keeps the mark of every accepted alert until the alert is pushed,
and hands it back to `revert` if the push fails. A `Ledger` is the table together with these marks.
As long as nothing is evicted and no entry expires, the table behaves for each source like the
machine of `ShunWindow`, where the counters count the alerts that were not taken back and the owner
of a window is the alert whose mark carries its id.
-/

namespace RanHoneypot.Alert

open TimedRun OffenderTable List Offender

/-- A call of the table at a clock reading. The name of an accepted alert stands for its mark. -/
inductive TableOp where
  | accepted (name : ℕ) (ip : String) (cls : Class) (window : ℤ) (now : ℕ)
  | rejected (ip protocol : String) (now : ℕ)
  | shunned (ip : String) (now : ℕ)
  | sweep (now : ℕ)
  | revert (name : ℕ) (now : ℕ)
deriving DecidableEq

namespace TableOp

def time : TableOp → ℕ
  | accepted _ _ _ _ now => now
  | rejected _ _ now => now
  | shunned _ now => now
  | sweep now => now
  | revert _ now => now

/-- The alert that the call accepts or takes back. -/
def alert? : TableOp → Option ℕ
  | accepted name _ _ _ _ => some name
  | revert name _ => some name
  | _ => none

end TableOp

/-- The table and the marks of the alerts that may still be reverted. -/
structure Ledger where
  table : OffenderTable
  inFlight : ℕ → Option AcceptMark

namespace Ledger

variable (s : Ledger) (key : String)

def start (cfg : OffenderConfig) : Ledger where
  table := newOffenderTable cfg
  inFlight := fun _ ↦ none

def step (net : Netip) (s : Ledger) : TableOp → Ledger
  | .accepted name ip cls window now =>
    let (mark, table, _) := s.table.accepted net ip cls window now
    { table := table, inFlight := Function.update s.inFlight name (some mark) }
  | .rejected ip protocol _ => { s with table := s.table.rejected net ip protocol }
  | .shunned ip now => { s with table := (s.table.shunned net ip now).2.1 }
  | .sweep now => { s with table := (s.table.sweep now).1 }
  | .revert name now =>
    match s.inFlight name with
    | none => s
    | some mark =>
      { table := (s.table.revert mark now).1, inFlight := Function.update s.inFlight name none }

/-- The counters of a source; a source without an entry has none. -/
def counts (i : Fin 3) : ℤ :=
  match s.table.table.get? key with
  | none => 0
  | some e => e.counts i

/-- The entry of a source if its window is running. -/
def runningEntry (now : ℕ) : Option Offender :=
  (s.table.table.get? key).filter fun e ↦ e.shunnedAt now

/-- The end of the running window of a source. -/
def runningUntil (now : ℕ) : Option ℕ :=
  (s.runningEntry key now).map shunUntil

/-- No entry is expired, nothing is evicted, and an accepted alert has a name of its own. -/
def calm (net : Netip) (s : Ledger) (op : TableOp) : Bool :=
  s.table.table.vals.all (fun e ↦ !s.table.expired e op.time) &&
    (s.step net op).table.evicted.length == s.table.evicted.length &&
    match op with
    | .accepted name _ _ _ _ => (s.inFlight name).isNone
    | _ => true

/-- `m` is the mark of an alert of the source `key` that was recorded and not taken back. -/
def Mark (name : ℕ) (m : AcceptMark) : Prop :=
  s.inFlight name = some m ∧ m.ok = true ∧ m.key = key

/-- The ids of windows and marks were all handed out by the table. -/
structure Sound (s : Ledger) : Prop where
  wf : s.table.WF
  shun : s.table.shun = true
  winID_le : ∀ key e, s.table.table.get? key = some e → e.winID ≤ s.table.nextWin
  mark_le : ∀ name m, s.inFlight name = some m → m.win ≤ s.table.nextWin

end Ledger

/-- The end of the window that an alert asks for. -/
def shunTill (cls : Class) (window : ℤ) (now : ℕ) : Option ℕ :=
  if cls ≠ .probe ∧ 0 < window then some (advance now window) else none

/-- What a call means to the source `key`. -/
def TableOp.forSource (net : Netip) (key : String) : TableOp → Option (SourceOp ℕ (Fin 3))
  | .accepted name ip cls window now =>
    if normalizeIP net ip = some key
    then some (.alert name cls.index now (shunTill cls window now)) else none
  | .revert name now => some (.revert name now)
  | _ => none

theorem TableOp.time_forSource {net : Netip} {key : String} {op : TableOp} {other}
    (h : op.forSource net key = some other) : other.time = op.time := by
  cases op with
  | accepted name ip cls window now =>
    simp only [forSource] at h
    split at h
    · cases h
      rfl
    · cases h
  | revert name now =>
    cases h
    rfl
  | rejected | shunned | sweep => cases h

/-- The number of alerts of one class that were not taken back. -/
def SourceState.count (t : SourceState ℕ (Fin 3)) (i : Fin 3) : ℤ :=
  (t.live.countP fun x ↦ x.2 = i : ℕ)

/-- The entry `e` holds the window `w`, and the owner's mark carries its id. -/
def SameWindow (s : Ledger) (key : String) (e : Offender) (w : ShunWindow ℕ) : Prop :=
  e.shunUntil = w.till ∧
    ∀ name, w.owner = some name ↔ ∃ m, s.Mark key name m ∧ m.win ≠ 0 ∧ m.win = e.winID

structure Refines (key : String) (now : ℕ) (s : Ledger) (t : SourceState ℕ (Fin 3)) : Prop where
  counts : ∀ i, s.counts key i = t.count i
  live : ∀ name i, (name, i) ∈ t.live ↔ ∃ m, s.Mark key name m ∧ m.idx = i
  nodup : (t.live.map Prod.fst).Nodup
  window : Option.Rel (SameWindow s key) (s.runningEntry key now) (running now t.window)

/-! ## Steps that do not concern the source -/

section

variable {α β γ : Type} {R : α → β → Prop} {x : Option α} {y : Option β} (hxy : Option.Rel R x y)

include hxy

theorem rel_comp {S : β → γ → Prop} {T : α → γ → Prop} {z : Option γ}
    (hcomp : ∀ a b c, R a b → S b c → T a c) (hyz : Option.Rel S y z) : Option.Rel T x z := by
  cases hxy with
  | none =>
    cases hyz
    exact .none
  | some hab =>
    cases hyz with
    | some hbc => exact .some (hcomp _ _ _ hab hbc)

theorem rel_filter {p : α → Bool} {q : β → Bool}
    (hpq : ∀ a b, x = some a → R a b → p a = q b) : Option.Rel R (x.filter p) (y.filter q) := by
  cases hxy with
  | none => exact .none
  | @some a b hab =>
    rw [Option.filter_some, Option.filter_some, hpq a b rfl hab]
    split
    · exact .some hab
    · exact .none

end

section

variable {s s' : Ledger} {t : SourceState ℕ (Fin 3)} {key : String} {now later : ℕ}

/-- The same window of the same id. -/
def SameSpan (e' e : Offender) : Prop := e'.shunUntil = e.shunUntil ∧ e'.winID = e.winID

theorem Refines.congr (hrefines : Refines key now s t) (hcounts : s'.counts key = s.counts key)
    (hmark : ∀ name m, s'.Mark key name m ↔ s.Mark key name m)
    (hwindow : Option.Rel SameSpan (s'.runningEntry key now) (s.runningEntry key now)) :
    Refines key now s' t where
  counts := by
    intro i
    rw [hcounts]
    exact hrefines.counts i
  live := by
    intro name i
    simp only [hmark]
    exact hrefines.live _ i
  nodup := hrefines.nodup
  window := by
    refine rel_comp hwindow (fun e' e w hspan hsame ↦ ?_) hrefines.window
    refine ⟨hspan.1.trans hsame.1, fun name ↦ ?_⟩
    rw [hsame.2, hspan.2]
    simp only [hmark]

theorem sameSpan_refl (r : Option Offender) : Option.Rel SameSpan r r := by
  cases r with
  | none => exact .none
  | some e => exact .some ⟨rfl, rfl⟩

section

variable (hrefines : Refines key now s t)

include hrefines

theorem Refines.congr_get? (hget : s'.table.table.get? key = s.table.table.get? key)
    (hmark : ∀ name m, s'.Mark key name m ↔ s.Mark key name m) : Refines key now s' t := by
  apply hrefines.congr _ hmark
  · unfold Ledger.runningEntry
    rw [hget]
    exact sameSpan_refl _
  · unfold Ledger.counts
    rw [hget]

theorem Refines.wait (hle : now ≤ later) :
    Refines key later s t :=
  { hrefines with
    window := by
      have hentry : s.runningEntry key later =
          (s.runningEntry key now).filter fun e ↦ e.shunnedAt later := by
        unfold Ledger.runningEntry
        rw [Option.filter_filter]
        congr 1
        funext e
        by_cases hlater : later < e.shunUntil
        · have hnow : now < e.shunUntil := hle.trans_lt hlater
          simp [shunnedAt, hnow]
        · simp [shunnedAt, hlater]
      rw [hentry, ← running_running hle]
      refine rel_filter hrefines.window fun e w he hsame ↦ ?_
      have hopen := (shunnedAt_iff.mp (Option.filter_eq_some_iff.mp he).2).1
      rw [shunnedAt, hopen, hsame.1, Bool.true_and] }

/-- Taking back an alert that is not one of the source. -/
theorem Refines.revert_absent {name : ℕ} (habsent : ∀ m, ¬s.Mark key name m) :
    Refines key now s (t.step (.revert name now)) := by
  have hlive : t.live.filter (fun x ↦ x.1 ≠ name) = t.live := by
    apply filter_eq_self.mpr
    intro x hx
    have hne : x.1 ≠ name := by
      intro heq
      rcases (hrefines.live ..).mp hx with ⟨m, hm, _⟩
      exact habsent m (heq ▸ hm)
    simpa using hne
  have hwindow : running now (t.window.filter fun w ↦ w.owner ≠ some name) =
      running now t.window := by
    rw [running_filter_owner]
    have hold := hrefines.window
    generalize s.runningEntry key now = r' at hold
    generalize running now t.window = r at hold ⊢
    cases hold with
    | none => rfl
    | @some e w hsame =>
      have howner : w.owner ≠ some name := by
        intro heq
        rcases (hsame.2 _).mp heq with ⟨m, hm, _⟩
        exact habsent m hm
      simp [howner]
  refine ⟨?_, ?_, ?_, ?_⟩
  · intro i
    rw [hrefines.counts i]
    simp only [SourceState.count, SourceState.step, hlive]
  · intro other i
    simp only [SourceState.step, hlive]
    exact hrefines.live _ i
  · simp only [SourceState.step, hlive]
    exact hrefines.nodup
  · change Option.Rel _ _ (running now (t.window.filter _))
    rw [hwindow]
    exact hrefines.window

/-- Lookups and sweeps. -/
theorem Refines.tidied (htidied : Tidied now s.table s'.table) (hmarks : s'.inFlight = s.inFlight)
    (hsilent : ∀ e, s.table.table.get? key = some e → s.table.expired e now = false) :
    Refines key now s' t := by
  have hmark (name : ℕ) (m : AcceptMark) : s'.Mark key name m ↔ s.Mark key name m := by
    unfold Ledger.Mark
    rw [hmarks]
  rcases htidied.get? key with hsame | ⟨e, he, hended, hclosed⟩ | ⟨_, e, he, hexpired⟩
  · exact hrefines.congr_get? hsame hmark
  · apply hrefines.congr _ hmark
    · have hidle : e.shunnedAt now = false := by
        simp [shunnedAt, not_lt.mpr hended.2]
      simp only [Ledger.runningEntry, hclosed, he, Option.filter, hidle]
      exact .none
    · funext i
      simp only [Ledger.counts, hclosed, he]
      rfl
  · rw [hsilent e he] at hexpired
    cases hexpired

theorem Refines.rejected (hs : s.Sound) (net : Netip) (ip protocol : String) :
    Refines key now { s with table := s.table.rejected net ip protocol } t := by
  rcases hs.wf.rejected_get? net ip protocol key with hsame | ⟨e, he, _, hcounted⟩
  · exact hrefines.congr_get? hsame fun _ _ ↦ Iff.rfl
  · refine hrefines.congr ?_ (fun _ _ ↦ Iff.rfl) ?_
    · funext i
      simp only [Ledger.counts, hcounted, he]
      rfl
    · have hsame : (e.suppress protocol).shunnedAt now = e.shunnedAt now := rfl
      simp only [Ledger.runningEntry, hcounted, he, Option.filter, hsame]
      split
      · exact .some ⟨rfl, rfl⟩
      · exact .none

end

theorem Ledger.Sound.tidied (hs : s.Sound) {o' : OffenderTable} (htidied : Tidied now s.table o') :
    ({ s with table := o' } : Ledger).Sound where
  wf := htidied.wf
  shun := (shun_of_config htidied.frame.config).trans hs.shun
  winID_le := by
    intro key e he
    rw [htidied.frame.nextWin]
    rcases htidied.get? key with hsame | ⟨old, hold, _, hclosed⟩ | ⟨hnone, _⟩
    · exact hs.winID_le _ e (hsame ▸ he)
    · have heq := Option.some.inj (he.symm.trans hclosed)
      rw [heq]
      exact hs.winID_le _ old hold
    · rw [show o'.table.get? key = none from hnone] at he
      cases he
  mark_le := by
    intro name m hm
    rw [htidied.frame.nextWin]
    exact hs.mark_le _ m hm

end

/-! ## Accepted alerts -/

section

variable {s : Ledger} {t : SourceState ℕ (Fin 3)} {key : String} {now : ℕ} {name : ℕ}
  {cls : Class} {window : ℤ}

variable {o : OffenderTable}

/-- The marks of the source after the alert `name` was recorded with the mark `m`. -/
theorem mark_update {m : AcceptMark} (hfresh : s.inFlight name = none) (hok : m.ok = true)
    (hkey : m.key = key) (other : ℕ) (m' : AcceptMark) :
    (Ledger.mk o (Function.update s.inFlight name (some m))).Mark key other m' ↔
      s.Mark key other m' ∨ (other = name ∧ m' = m) := by
  unfold Ledger.Mark
  by_cases hname : other = name
  · subst hname
    simp only [Function.update_self, hfresh, Option.some.injEq, true_and, reduceCtorEq, false_and,
      false_or]
    constructor
    · intro h
      exact h.1.symm
    · intro h
      exact ⟨h.symm, h ▸ hok, h ▸ hkey⟩
  · simp [hname]

/-- A mark that is not one of the source `key`. -/
theorem mark_update_other {m : AcceptMark} (hfresh : s.inFlight name = none)
    (hother : ¬(m.ok = true ∧ m.key = key)) (other : ℕ) (m' : AcceptMark) :
    (Ledger.mk o (Function.update s.inFlight name (some m))).Mark key other m' ↔
      s.Mark key other m' := by
  unfold Ledger.Mark
  by_cases hname : other = name
  · subst hname
    simp only [Function.update_self, hfresh, Option.some.injEq, reduceCtorEq, false_and, iff_false]
    intro h
    exact hother (h.1 ▸ h.2)
  · simp [hname]

/-- Without expiry an alert is recorded in the entry of the source, and a source without an entry
starts with an empty one. -/
theorem startEntry_view (hsilent : ∀ e, s.table.table.get? key = some e →
      s.table.expired e now = false) :
    (s.table.startEntry key now).counts = s.counts key ∧
      s.runningEntry key now =
        (some (s.table.startEntry key now)).filter (fun e ↦ e.shunnedAt now) := by
  unfold startEntry Ledger.counts Ledger.runningEntry
  cases hget : s.table.table.get? key with
  | none => exact ⟨rfl, rfl⟩
  | some e =>
    simp [hsilent e hget]

theorem shunTill_of_shuns (hshuns : o.shuns cls window) :
    shunTill cls window now = some (advance now window) :=
  if_pos hshuns.2

theorem shunTill_of_not_shuns (hshun : o.shun = true) (hquiet : ¬o.shuns cls window) :
    shunTill cls window now = none :=
  if_neg fun h ↦ hquiet ⟨hshun, h⟩

section Accepted

variable {s' : Ledger} {m : AcceptMark}
  (hmark : ∀ other m', s'.Mark key other m' ↔ s.Mark key other m' ∨ (other = name ∧ m' = m))

include hmark

/-- An alert that opens no window owns none. -/
theorem SameWindow.ownerless {e : Offender} {w : ShunWindow ℕ} (hsame : SameWindow s key e w)
    (hwin : m.win = 0) : SameWindow s' key e w := by
  refine ⟨hsame.1, ?_⟩
  intro other
  rw [hsame.2]
  simp only [hmark]
  constructor
  · intro h
    rcases h with ⟨m', hm', hne, hid⟩
    exact ⟨m', .inl hm', hne, hid⟩
  · intro h
    rcases h with ⟨m', hm' | ⟨_, rfl⟩, hne, hid⟩
    · exact ⟨m', hm', hne, hid⟩
    · exact absurd hwin hne

/-- A running window goes on, whoever owns it, when an alert is recorded that opens none. -/
theorem window_kept {e : Offender} {r : Option (ShunWindow ℕ)}
    (hwindow : Option.Rel (SameWindow s key) ((some e).filter fun e ↦ e.shunnedAt now) r)
    (hwin : m.win = 0) :
    Option.Rel (SameWindow s' key) ((some (e.record cls.index now)).filter fun e ↦ e.shunnedAt now) r := by
  have hrunning : (e.record cls.index now).shunnedAt now = e.shunnedAt now := rfl
  simp only [Option.filter, hrunning] at hwindow ⊢
  split at hwindow
  · next hopen =>
    simp only [hopen]
    cases hwindow with
    | some hsame => exact .some (hsame.ownerless hmark hwin)
  · next hidle =>
    simp only [hidle]
    cases hwindow
    exact .none

/-- The next id is carried by the mark of the recorded alert, if at all. -/
theorem eq_of_next_win (hs : s.Sound) {other : ℕ} {m' : AcceptMark} (hm' : s'.Mark key other m')
    (hid : m'.win = s.table.nextWin + 1) : other = name ∧ m' = m := by
  rcases (hmark other m').mp hm' with hold | hnew
  · have hle := hs.mark_le other m' hold.1
    omega
  · exact hnew

end Accepted

/-- The window after an accepted alert. `hmark` describes the marks of the source afterwards. -/
theorem window_accepted {s' : Ledger} {e after : Offender} {m : AcceptMark} {next : ℕ} (hs : s.Sound)
    (hwindow : Option.Rel (SameWindow s key) ((some e).filter fun e ↦ e.shunnedAt now)
      (running now t.window))
    (haccepts : Accepts s.table (e.record cls.index now) cls window now after m.win next)
    (hmark : ∀ other m', s'.Mark key other m' ↔ s.Mark key other m' ∨ (other = name ∧ m' = m)) :
    Option.Rel (SameWindow s' key) ((some after).filter fun e ↦ e.shunnedAt now)
      (running now (t.step (.alert name cls.index now (shunTill cls window now))).window) := by
  have hrunning : (e.record cls.index now).shunnedAt now = e.shunnedAt now := rfl
  generalize hwin : m.win = win at haccepts
  cases haccepts with
  | quiet hquiet =>
    rw [shunTill_of_not_shuns hs.shun hquiet]
    exact window_kept hmark hwindow hwin
  | joins hshuns hopen hle =>
    have hsame : running now (t.step (.alert name cls.index now (shunTill cls window now))).window =
        running now t.window := by
      apply running_alert
      intro till htill
      rw [shunTill_of_shuns hshuns, Option.some.injEq] at htill
      subst htill
      rw [hrunning] at hopen
      simp only [Option.filter, hopen] at hwindow
      generalize running now t.window = r at hwindow ⊢
      cases hwindow with
      | @some _ w hsame => exact ⟨w, rfl, hsame.1 ▸ hle⟩
    rw [hsame]
    exact window_kept hmark hwindow hwin
  | prolongs hshuns hopen hlt =>
    rw [shunTill_of_shuns hshuns]
    rw [hrunning] at hopen
    simp only [Option.filter, hopen] at hwindow
    change Option.Rel _ _ (running now (nextWindow ..))
    have hactive := (shunnedAt_iff.mp hopen).1
    have hnow : now < advance now window := lt_advance hshuns.2.2
    have hafter : ((e.record cls.index now).extendWindow (advance now window)
        (s.table.nextWin + 1)).shunnedAt now = true :=
      shunnedAt_iff.mpr ⟨hactive, hnow⟩
    simp only [Option.filter, hafter]
    unfold nextWindow
    generalize running now t.window = r at hwindow ⊢
    cases hwindow with
    | @some _ w hsame =>
      have hlt' : w.till < advance now window := hsame.1 ▸ hlt
      simp only [hlt', if_true]
      rw [running_eq_some_iff.mpr ⟨rfl, hnow⟩]
      refine .some ⟨rfl, fun other ↦ ⟨fun h ↦ absurd h (by simp), fun h ↦ ?_⟩⟩
      -- The extension has an id that no mark carries.
      rcases h with ⟨m', hm', hne, hid⟩
      rw [(eq_of_next_win hmark hs hm' hid).2] at hne
      exact absurd hwin hne
  | opens hshuns hidle =>
    rw [shunTill_of_shuns hshuns]
    rw [hrunning] at hidle
    simp only [Option.filter, hidle] at hwindow
    change Option.Rel _ _ (running now (nextWindow ..))
    have hnow : now < advance now window := lt_advance hshuns.2.2
    rw [Option.filter_some, if_pos (shunnedAt_iff.mpr ⟨rfl, hnow⟩)]
    unfold nextWindow
    generalize running now t.window = r at hwindow ⊢
    cases hwindow
    rw [running_eq_some_iff.mpr ⟨rfl, hnow⟩]
    refine .some ⟨rfl, fun other ↦ ⟨fun h ↦ ?_, fun h ↦ ?_⟩⟩
    · cases h
      exact ⟨m, (hmark name m).mpr (.inr ⟨rfl, rfl⟩), by omega, hwin⟩
    · rcases h with ⟨m', hm', _, hid⟩
      rw [(eq_of_next_win hmark hs hm' hid).1]

/-- Recording an alert of the source. -/
theorem Refines.accepted (hrefines : Refines key now s t) (hs : s.Sound) {o' : OffenderTable}
    {m : AcceptMark} (haccepted : AcceptedIn s.table key cls.index cls window now o' m.win)
    (hok : m.ok = true) (hkey : m.key = key) (hidx : m.idx = cls.index)
    (hfresh : s.inFlight name = none)
    (hsilent : ∀ e, s.table.table.get? key = some e → s.table.expired e now = false) :
    Refines key now ⟨o', Function.update s.inFlight name (some m)⟩
      (t.step (.alert name cls.index now (shunTill cls window now))) := by
  rcases haccepted.entry with ⟨after, haccepts, hget⟩
  rcases startEntry_view hsilent with ⟨hcounts, hentry⟩
  have hmark := mark_update (o := o') hfresh hok hkey
  have habsent : ∀ x ∈ t.live, x.1 ≠ name := by
    intro x hx heq
    rcases (hrefines.live ..).mp hx with ⟨m', hm', _⟩
    rw [Ledger.Mark, heq, hfresh] at hm'
    cases hm'.1
  refine ⟨?_, ?_, ?_, ?_⟩
  · intro i
    calc
      (Ledger.mk o' _).counts key i = after.counts i := by
        simp only [Ledger.counts, hget]
      _ = Function.update (s.counts _) cls.index (s.counts _ _ + 1) i := by
        rw [haccepts.counts, record, hcounts]
      _ = s.counts key i + if cls.index = i then 1 else 0 := by
        by_cases hi : cls.index = i
        · rw [hi, Function.update_self, if_pos rfl]
        · rw [Function.update_of_ne (Ne.symm hi), if_neg hi, add_zero]
      _ = (t.step _).count i := by
        rw [hrefines.counts i]
        simp only [SourceState.count, SourceState.live_alert, countP_cons, decide_eq_true_eq]
        split <;> simp
  · intro other i
    simp only [SourceState.live_alert, mem_cons, Prod.mk.injEq, hrefines.live, hmark]
    constructor
    · intro h
      rcases h with ⟨rfl, rfl⟩ | ⟨m', hm', hi⟩
      · exact ⟨m, .inr ⟨rfl, rfl⟩, hidx⟩
      · exact ⟨m', .inl hm', hi⟩
    · intro h
      rcases h with ⟨m', hm' | ⟨rfl, rfl⟩, hi⟩
      · exact .inr ⟨m', hm', hi⟩
      · exact .inl ⟨rfl, hi.symm.trans hidx⟩
  · simp only [SourceState.live_alert, map_cons, nodup_cons]
    refine ⟨fun hmem ↦ ?_, hrefines.nodup⟩
    rcases mem_map.mp hmem with ⟨x, hx, heq⟩
    exact habsent x hx heq
  · have hwindow := hrefines.window
    rw [hentry] at hwindow
    rw [Ledger.runningEntry, hget]
    exact window_accepted hs hwindow haccepts hmark

end

/-! ## Reverts -/

section

variable {s : Ledger} {t : SourceState ℕ (Fin 3)} {key : String} {now : ℕ} {name : ℕ}
  {m : AcceptMark}

theorem mark_erase (s : Ledger) (key : String) (name : ℕ) (o : OffenderTable) (other : ℕ) (m' : AcceptMark) :
    (Ledger.mk o (Function.update s.inFlight name none)).Mark key other m' ↔
      s.Mark key other m' ∧ other ≠ name := by
  unfold Ledger.Mark
  by_cases hname : other = name
  · subst hname
    simp
  · simp [hname]

/-- The alert that is taken back is counted once. -/
theorem count_revert (now : ℕ) (hnodup : (t.live.map Prod.fst).Nodup) {idx : Fin 3}
    (hmem : (name, idx) ∈ t.live) (i : Fin 3) :
    t.count i = (t.step (.revert name now)).count i + if idx = i then 1 else 0 := by
  unfold SourceState.count
  rw [SourceState.live_revert]
  generalize t.live = live at hnodup hmem
  induction live with
  | nil => cases hmem
  | cons x rest ih =>
    rw [map_cons, nodup_cons] at hnodup
    have habsent : ∀ y ∈ rest, y.1 ≠ x.1 := fun y hy heq ↦
      hnodup.1 (heq ▸ mem_map_of_mem hy)
    rcases mem_cons.mp hmem with rfl | hrest
    · have hkeep : rest.filter (fun x ↦ x.1 ≠ name) = rest :=
        filter_eq_self.mpr fun y hy ↦ by simpa using habsent y hy
      rw [filter_cons_of_neg (by simp), hkeep, countP_cons]
      simp only [decide_eq_true_eq]
      split <;> simp
    · have hne : x.1 ≠ name := fun heq ↦ habsent (name, idx) hrest heq.symm
      have hold := ih hnodup.2 hrest
      rw [filter_cons_of_pos (by simpa using hne), countP_cons, countP_cons]
      omega

/-- An entry is dropped only if nothing is counted in it. -/
theorem counts_revertEntry (m : AcceptMark) (e : Offender) (i : Fin 3) :
    (match revertEntry m e with
      | none => 0
      | some e' => e'.counts i) = (e.discount m.idx).counts i := by
  have hcounts : (unshunned e m).counts = (e.discount m.idx).counts := by
    unfold unshunned
    split <;> rfl
  unfold revertEntry
  rw [← hcounts]
  split
  · next hnone =>
    split at hnone
    · next hempty => exact (hempty.2 i).symm
    · cases hnone
  · next e' hsome =>
    split at hsome
    · cases hsome
    · cases hsome
      rfl

theorem winID_revertEntry {e e' : Offender} (h : revertEntry m e = some e') : e'.winID = e.winID := by
  unfold revertEntry at h
  split at h
  · cases h
  · cases h
    unfold unshunned
    split <;> rfl

/-- The window after a revert of an alert of the source. -/
theorem window_revert {s' : Ledger} {e : Offender} (hm : s.Mark key name m)
    (hwindow : Option.Rel (SameWindow s key) ((some e).filter fun e ↦ e.shunnedAt now)
      (running now t.window))
    (hmark : ∀ other m', s'.Mark key other m' ↔ s.Mark key other m' ∧ other ≠ name) :
    Option.Rel (SameWindow s' key) ((revertEntry m e).filter fun e ↦ e.shunnedAt now)
      (running now (t.step (.revert name now)).window) := by
  have hunique {m' : AcceptMark} (hm' : s.Mark key name m') : m' = m :=
    Option.some.inj (hm'.1.symm.trans hm.1)
  change Option.Rel _ _ (running now (t.window.filter _))
  rw [running_filter_owner]
  by_cases hopen : e.shunnedAt now
  · have hactive := (shunnedAt_iff.mp hopen).1
    simp only [Option.filter_some, hopen] at hwindow
    generalize running now t.window = r at hwindow ⊢
    cases hwindow with
    | @some _ w hsame =>
      by_cases hown : m.win ≠ 0 ∧ m.win = e.winID
      · -- The window belongs to the alert: both sides close it.
        have howner : w.owner = some name := (hsame.2 _).mpr ⟨m, hm, hown⟩
        have hclosed : unshunned e m = (e.discount _).closeWindow :=
          if_pos ⟨hown.1, hactive, hown.2.symm⟩
        have hnone : (revertEntry m e).filter (fun e ↦ e.shunnedAt now) = none := by
          unfold revertEntry
          rw [hclosed]
          split
          · rfl
          · rfl
        rw [hnone]
        simp only [Option.filter_some, howner, ne_eq, not_true_eq_false]
        exact .none
      · have howner : w.owner ≠ some name := by
          intro heq
          rcases (hsame.2 _).mp heq with ⟨m', hm', hown'⟩
          exact hown (hunique hm' ▸ hown')
        have hkept : unshunned e m = e.discount m.idx :=
          if_neg fun h ↦ hown ⟨h.1, h.2.2.symm⟩
        have hsome : revertEntry m e = some (e.discount m.idx) := by
          unfold revertEntry
          rw [hkept]
          exact if_neg fun h ↦ Bool.false_ne_true (h.1.symm.trans hactive)
        have hopen' : (e.discount m.idx).shunnedAt now = true := hopen
        rw [hsome]
        simp only [Option.filter_some, hopen', howner, ne_eq]
        refine .some ⟨hsame.1, fun other ↦ ?_⟩
        rw [hsame.2]
        simp only [hmark]
        constructor
        · intro h
          rcases h with ⟨m', hm', hown'⟩
          refine ⟨m', ⟨hm', fun heq ↦ ?_⟩, hown'⟩
          subst heq
          exact hown (hunique hm' ▸ hown')
        · intro h
          rcases h with ⟨m', ⟨hm', _⟩, hown'⟩
          exact ⟨m', hm', hown'⟩
  · have hidle : (revertEntry m e).filter (fun e ↦ e.shunnedAt now) = none := by
      have hspan : (unshunned e m).shunnedAt now = false := by
        unfold unshunned
        split
        · rfl
        · exact Bool.eq_false_iff.mpr hopen
      unfold revertEntry
      split
      · rfl
      · simp [hspan]
    simp only [Option.filter_some, hopen] at hwindow
    rw [hidle]
    generalize running now t.window = r at hwindow ⊢
    cases hwindow
    exact .none

/-- Taking back an alert of the source. -/
theorem Refines.revert (hrefines : Refines key now s t) (hs : s.Sound) (hm : s.Mark key name m) :
    Refines key now ⟨(s.table.revert m now).1, Function.update s.inFlight name none⟩
      (t.step (.revert name now)) := by
  have hlive : (name, m.idx) ∈ t.live := (hrefines.live ..).mpr ⟨m, hm, rfl⟩
  have hcount := count_revert now hrefines.nodup hlive
  -- The alert is still counted, so the source has an entry.
  have hpos : 0 < s.counts key m.idx := by
    have hone := hcount m.idx
    have hnonneg : 0 ≤ (t.step (.revert name now)).count m.idx := Int.natCast_nonneg _
    rw [hrefines.counts]
    omega
  rcases hm with ⟨hflight, hok, hkey⟩
  cases hget : s.table.table.get? key with
  | none =>
    simp [Ledger.counts, hget] at hpos
  | some e =>
    have hget' : (s.table.revert m now).1.table.get? key = revertEntry m e := by
      rw [(hs.wf.revert _ m).2 key, if_pos ⟨hok, hkey.symm⟩, hget]
      rfl
    have hmark (other : ℕ) (m' : AcceptMark) := mark_erase s key name (s.table.revert m now).1 other m'
    refine ⟨?_, ?_, ?_, ?_⟩
    · intro i
      have hcounts : s.counts key = e.counts := by
        funext j
        simp only [Ledger.counts, hget]
      have hentry : (Ledger.mk (s.table.revert m now).1 (Function.update s.inFlight name none)).counts
          key i = (e.discount m.idx).counts i := by
        simp only [Ledger.counts, hget']
        exact counts_revertEntry m e i
      have hold := hcount i
      rw [← hrefines.counts i, hcounts] at hold
      rw [hentry, counts_discount (hcounts ▸ hpos)]
      by_cases hi : m.idx = i
      · rw [if_pos hi] at hold
        rw [hi, Function.update_self, hold, add_sub_cancel_right]
      · rw [if_neg hi, add_zero] at hold
        rw [Function.update_of_ne (Ne.symm hi), hold]
    · intro other i
      simp only [SourceState.live_revert, mem_filter, hrefines.live, hmark, decide_not,
        Bool.not_eq_eq_eq_not, Bool.not_true, decide_eq_false_iff_not]
      constructor
      · intro h
        rcases h with ⟨⟨m', hm', hi⟩, hne⟩
        exact ⟨m', ⟨hm', hne⟩, hi⟩
      · intro h
        rcases h with ⟨m', ⟨hm', hne⟩, hi⟩
        exact ⟨⟨m', hm', hi⟩, hne⟩
    · exact hrefines.nodup.sublist (filter_sublist.map _)
    · have hwindow := hrefines.window
      rw [Ledger.runningEntry, hget] at hwindow
      rw [Ledger.runningEntry, hget']
      exact window_revert ⟨hflight, hok, hkey⟩ hwindow hmark

end

/-! ## Whole runs -/

section

variable {s : Ledger} {t : SourceState ℕ (Fin 3)} {net : Netip} {key : String}

theorem Ledger.calm_silent {op : TableOp} (hs : s.Sound) (hcalm : s.calm net op = true) (e : Offender)
    (hget : s.table.table.get? key = some e) : s.table.expired e op.time = false := by
  simp only [Ledger.calm, Bool.and_eq_true, all_eq_true, Bool.not_eq_true'] at hcalm
  exact hcalm.1.1 e ((hs.wf.table.get?_iff _ e).mp hget).1

theorem Ledger.calm_fresh {name : ℕ} {ip : String} {cls : Class} {window : ℤ} {now : ℕ}
    (hcalm : s.calm net (.accepted name ip cls window now) = true) : s.inFlight name = none := by
  simp only [Ledger.calm, Bool.and_eq_true, Option.isNone_iff_eq_none] at hcalm
  exact hcalm.2

/-- In a calm step an accepted alert leaves the entries of all other sources alone. -/
theorem Ledger.calm_others {o' : OffenderTable} {found : String} {idx : Fin 3} {cls : Class}
    {window : ℤ} {now win : ℕ} (haccepted : AcceptedIn s.table found idx cls window now o' win)
    (hevicted : o'.evicted.length = s.table.evicted.length)
    (hsilent : ∀ e, s.table.table.get? key = some e → s.table.expired e now = false)
    (hne : key ≠ found) : o'.table.get? key = s.table.table.get? key := by
  rcases haccepted.others key hne with hsame | ⟨_, e, he, hexpired | hlast⟩
  · exact hsame
  · rw [hsilent e he] at hexpired
    cases hexpired
  · rw [hlast, length_append, length_singleton] at hevicted
    omega

section

variable {name : ℕ} {ip : String} {cls : Class} {window : ℤ} {now : ℕ}

theorem Ledger.step_accepted_none (hkey : normalizeIP net ip = none) :
    s.step net (.accepted name ip cls window now) =
      ⟨s.table, Function.update s.inFlight name (some {})⟩ := by
  simp only [Ledger.step, OffenderTable.accepted, hkey]

theorem Ledger.step_accepted_some (hkey : normalizeIP net ip = some key) :
    s.step net (.accepted name ip cls window now) =
      ⟨(s.table.acceptLocked key cls.index cls window now).1, Function.update s.inFlight name
        (some ⟨key, cls.index, (s.table.acceptLocked key cls.index cls window now).2.1, true⟩)⟩ := by
  simp only [Ledger.step, OffenderTable.accepted, hkey]

theorem Ledger.step_revert {m : AcceptMark} (hflight : s.inFlight name = some m) :
    s.step net (.revert name now) =
      ⟨(s.table.revert m now).1, Function.update s.inFlight name none⟩ := by
  simp only [Ledger.step, hflight]

/-- The marks that are held after one more was recorded or one was used up. -/
theorem win_le_of_update {flights : ℕ → Option AcceptMark} {mark : Option AcceptMark} {bound : ℕ}
    (hold : ∀ other m, flights other = some m → m.win ≤ bound)
    (hmark : ∀ m, mark = some m → m.win ≤ bound) (other : ℕ) (m : AcceptMark)
    (hm : Function.update flights name mark other = some m) : m.win ≤ bound := by
  by_cases hname : other = name
  · subst hname
    rw [Function.update_self] at hm
    exact hmark m hm
  · rw [Function.update_of_ne hname] at hm
    exact hold other m hm

theorem Ledger.Sound.startEntry_winID (hs : s.Sound) (key : String) (now : ℕ) :
    (s.table.startEntry key now).winID ≤ s.table.nextWin := by
  unfold startEntry
  cases hold : s.table.table.get? key with
  | none => exact Nat.zero_le _
  | some e =>
    dsimp only
    split
    · exact Nat.zero_le _
    · exact hs.winID_le _ e hold

theorem Ledger.Sound.accepted (hs : s.Sound) :
    (s.step net (.accepted name ip cls window now)).Sound := by
  cases hkey : normalizeIP net ip with
  | none =>
    rw [Ledger.step_accepted_none hkey]
    refine ⟨hs.wf, hs.shun, hs.winID_le, win_le_of_update hs.mark_le fun m hm ↦ ?_⟩
    cases hm
    exact Nat.zero_le _
  | some found =>
    rw [Ledger.step_accepted_some hkey]
    have haccepted := hs.wf.acceptLocked now found cls.index cls window
    rcases haccepted.entry with ⟨after, haccepts, hget⟩
    rcases haccepts.bounds now (hs.startEntry_winID ..) with ⟨hafter, hwin, hnext⟩
    refine ⟨haccepted.wf, (shun_of_config haccepted.config).trans hs.shun, ?_, ?_⟩
    · intro key e he
      by_cases hsame : key = found
      · subst hsame
        exact Option.some.inj (hget.symm.trans he) ▸ hafter
      · rcases haccepted.others key hsame with hold | ⟨hnone, _⟩
        · exact Nat.le_trans (hs.winID_le _ e (hold ▸ he)) hnext
        · cases hnone.symm.trans he
    · apply win_le_of_update fun other m hm ↦ Nat.le_trans (hs.mark_le _ m hm) hnext
      intro m hm
      cases hm
      exact hwin

theorem Ledger.Sound.rejected (hs : s.Sound) (protocol : String) :
    ({ s with table := s.table.rejected net ip protocol } : Ledger).Sound := by
  have hframe := rejected_frame (o := s.table) net ip protocol
  refine ⟨hs.wf.rejected _ ip _, (shun_of_config hframe.config).trans hs.shun, ?_, ?_⟩
  · intro key e he
    have hold : e.winID ≤ s.table.nextWin := by
      rcases hs.wf.rejected_get? net ip protocol key with hsame | ⟨old, hold, _, hcounted⟩
      · exact hs.winID_le _ e (hsame ▸ he)
      · have heq := Option.some.inj (he.symm.trans hcounted)
        rw [heq]
        exact hs.winID_le _ old hold
    exact hframe.nextWin ▸ hold
  · intro other m hm
    exact hframe.nextWin ▸ hs.mark_le other m hm

theorem Ledger.Sound.revert (hs : s.Sound) : (s.step net (.revert name now)).Sound := by
  cases hflight : s.inFlight name with
  | none =>
    simp only [Ledger.step, hflight]
    exact hs
  | some m =>
    rw [Ledger.step_revert hflight]
    have hframe := revert_frame (o := s.table) now m
    refine ⟨(hs.wf.revert _ m).1, (shun_of_config hframe.config).trans hs.shun, ?_, ?_⟩
    · intro key e he
      have hold : e.winID ≤ s.table.nextWin := by
        rw [(hs.wf.revert _ m).2 key] at he
        split at he
        · rcases Option.bind_eq_some_iff.mp he with ⟨old, hold, hafter⟩
          rw [winID_revertEntry hafter]
          exact hs.winID_le _ _ hold
        · exact hs.winID_le _ e he
      exact hframe.nextWin ▸ hold
    · apply win_le_of_update fun other m' hm' ↦ hframe.nextWin ▸ hs.mark_le other m' hm'
      intro m' hm'
      cases hm'

end

theorem Ledger.Sound.step (hs : s.Sound) (op : TableOp) : (s.step net op).Sound := by
  cases op with
  | accepted name ip cls window now => exact hs.accepted
  | rejected ip protocol now => exact hs.rejected _
  | shunned ip now => exact hs.tidied (hs.wf.shunned_tidied _ _ ip)
  | sweep now => exact hs.tidied (hs.wf.sweep_tidied _)
  | revert name now => exact hs.revert

/-- One call, as the source sees it. -/
theorem Refines.step {op : TableOp} (hrefines : Refines key op.time s t) (hs : s.Sound)
    (hcalm : s.calm net op = true) :
    Refines key op.time (s.step net op) ((op.forSource net key).elim t t.step) := by
  have hsilent (e : Offender) (hget : s.table.table.get? key = some e) :=
    Ledger.calm_silent hs hcalm e hget
  cases op with
  | accepted name ip cls window now =>
    have hfresh := Ledger.calm_fresh hcalm
    simp only [Ledger.calm, Bool.and_eq_true, beq_iff_eq] at hcalm
    have hevicted := hcalm.1.2
    simp only [TableOp.forSource]
    cases hnorm : normalizeIP net ip with
    | none =>
      rw [Ledger.step_accepted_none hnorm]
      refine hrefines.congr_get? ?_ ?_
      · rfl
      · exact mark_update_other hfresh fun h ↦ Bool.false_ne_true h.1
    | some found =>
      rw [Ledger.step_accepted_some hnorm] at hevicted ⊢
      have haccepted := hs.wf.acceptLocked now found cls.index cls window
      by_cases hkey : found = key
      · subst hkey
        rw [if_pos rfl]
        exact hrefines.accepted hs haccepted rfl rfl rfl hfresh hsilent
      · rw [if_neg fun h ↦ hkey (Option.some.inj h)]
        apply hrefines.congr_get? (Ledger.calm_others haccepted hevicted hsilent (Ne.symm hkey))
        exact mark_update_other hfresh fun h ↦ hkey h.2
  | rejected ip protocol now => exact hrefines.rejected hs _ ip _
  | shunned ip now => exact hrefines.tidied (hs.wf.shunned_tidied _ _ ip) rfl hsilent
  | sweep now => exact hrefines.tidied (hs.wf.sweep_tidied _) rfl hsilent
  | revert name now =>
    cases hflight : s.inFlight name with
    | none =>
      have hsame : s.step net (.revert name now) = s := by simp only [Ledger.step, hflight]
      rw [hsame]
      apply hrefines.revert_absent
      intro m hm
      cases hflight.symm.trans hm.1
    | some m =>
      rw [Ledger.step_revert hflight]
      by_cases hmark : m.ok = true ∧ m.key = key
      · exact hrefines.revert hs ⟨hflight, hmark⟩
      · have habsent : ∀ m', ¬s.Mark key name m' := by
          intro m' hm'
          have heq := Option.some.inj (hflight.symm.trans hm'.1)
          exact hmark (heq ▸ hm'.2)
        apply (hrefines.revert_absent habsent).congr_get?
        · rw [(hs.wf.revert _ m).2 key, if_neg fun h ↦ hmark ⟨h.1, h.2.symm⟩]
        · intro other m'
          rw [mark_erase]
          constructor
          · exact And.left
          · intro hm'
            exact ⟨hm', fun heq ↦ habsent m' (heq ▸ hm')⟩

/-- The machine of one source at the start. -/
def SourceState.start : SourceState ℕ (Fin 3) := ⟨[], none⟩

theorem Ledger.start_sound {cfg : OffenderConfig} (hshun : cfg.shun = true) :
    (Ledger.start cfg).Sound where
  wf := newOffenderTable_wf cfg
  shun := hshun
  winID_le := nofun
  mark_le := nofun

theorem start_refines (cfg : OffenderConfig) (key : String) :
    Refines key 0 (Ledger.start cfg) .start where
  counts := fun _ ↦ rfl
  live := by
    intro name i
    simp [SourceState.start, Ledger.start, Ledger.Mark]
  nodup := nodup_nil
  window := .none

/-- The runs that the results are about: a clock that does not go back, and only calm steps. -/
structure CalmRun (net : Netip) (cfg : OffenderConfig) (ops : List TableOp) (now : ℕ) : Prop where
  clock : Clock TableOp.time 0 ops now
  calm : Along (Ledger.step net) (fun s op ↦ s.calm net op = true) (Ledger.start cfg) ops

/-- The ledger after a run. -/
def ledgerAfter (net : Netip) (cfg : OffenderConfig) (ops : List TableOp) : Ledger :=
  run (Ledger.step net) (Ledger.start cfg) ops

/-- The machine of the source `key` after the same run. -/
def sourceAfter (net : Netip) (key : String) (ops : List TableOp) : SourceState ℕ (Fin 3) :=
  run SourceState.step .start (ops.filterMap (TableOp.forSource net key))

theorem CalmRun.refines {cfg : OffenderConfig} {ops : List TableOp} {now : ℕ}
    (hrun : CalmRun net cfg ops now) (hshun : cfg.shun = true) (key : String) :
    (ledgerAfter net cfg ops).Sound ∧
      Refines key now (ledgerAfter net cfg ops) (sourceAfter net key ops) := by
  unfold sourceAfter
  rw [run_filterMap]
  exact run_relation (fun now s t ↦ s.Sound ∧ Refines key now s t)
    (fun _ _ _ _ hle h ↦ ⟨h.1, h.2.wait hle⟩)
    (fun _ _ op hcalm h ↦ ⟨h.1.step op, h.2.step h.1 hcalm⟩) hrun.clock hrun.calm
    ⟨Ledger.start_sound hshun, start_refines ..⟩

end

end RanHoneypot.Alert
