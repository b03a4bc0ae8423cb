import Mathlib.Data.List.Induction
import RanHoneypot.Data.TimedRun

/-!
# The shun window of one source

The abstract machine that the offender table runs for each source. An alert that asks for a window
opens one if none is running. A running window is extended by an alert that asks for a later end,
and left alone by any other. A window belongs to the alert that opened it until it is extended;
after that it belongs to no alert. A revert takes an alert back and closes the window that belongs
to it. Neither the names of alerts nor their classes have any structure here.

The results compare the machine after an alert and its revert with the machine that saw neither.
-/

namespace RanHoneypot.Alert

variable {α ι : Type*} [DecidableEq α]

open TimedRun List

/-- The end of a window and the alert whose revert closes it. -/
structure ShunWindow (α : Type*) where
  till : ℕ
  owner : Option α

/-- `till?` is the end of the window an alert asks for. -/
inductive SourceOp (α ι : Type*) where
  | alert (name : α) (cls : ι) (now : ℕ) (till? : Option ℕ)
  | revert (name : α) (now : ℕ)

namespace SourceOp

def time : SourceOp α ι → ℕ
  | alert _ _ now _ => now
  | revert _ now => now

def name : SourceOp α ι → α
  | alert name _ _ _ => name
  | revert name _ => name

omit [DecidableEq α] in
@[simp] theorem name_alert (name : α) (cls : ι) (now : ℕ) (till? : Option ℕ) :
    (alert name cls now till?).name = name := rfl

omit [DecidableEq α] in
@[simp] theorem name_revert (name : α) (now : ℕ) : (revert name now : SourceOp α ι).name = name :=
  rfl

end SourceOp

/-- The accepted alerts that were not taken back, and the last window. -/
structure SourceState (α ι : Type*) where
  live : List (α × ι)
  window : Option (ShunWindow α)

/-- The window if it has not reached its end. -/
def running (now : ℕ) (window : Option (ShunWindow α)) : Option (ShunWindow α) :=
  window.filter fun w ↦ decide (now < w.till)

/-- The window after the alert `name` asked at `now` for a window up to `till`. -/
def nextWindow (window : Option (ShunWindow α)) (name : α) (now till : ℕ) :
    Option (ShunWindow α) :=
  match running now window with
  | some w => if w.till < till then some ⟨till, none⟩ else some w
  | none => some ⟨till, some name⟩

def SourceState.step (s : SourceState α ι) : SourceOp α ι → SourceState α ι
  | .alert name cls now till? =>
    { live := (name, cls) :: s.live
      window := till?.elim s.window (nextWindow s.window name now) }
  | .revert name _ =>
    { live := s.live.filter fun a ↦ a.1 ≠ name
      window := s.window.filter fun w ↦ w.owner ≠ some name }

namespace SourceState

variable (s : SourceState α ι) (name : α) (cls : ι) (now : ℕ)

@[simp] theorem live_alert (till? : Option ℕ) :
    (s.step (.alert name cls now till?)).live = (name, cls) :: s.live := rfl

@[simp] theorem live_revert :
    (s.step (.revert name now)).live = s.live.filter fun a ↦ a.1 ≠ name := rfl

@[simp] theorem window_alert_none : (s.step (.alert name cls now none)).window = s.window := rfl

@[simp] theorem window_alert_some (till : ℕ) :
    (s.step (.alert name cls now (some till))).window = nextWindow s.window name now till := rfl

@[simp] theorem window_revert :
    (s.step (.revert name now)).window = s.window.filter fun w ↦ w.owner ≠ some name := rfl

end SourceState

/-! ## Running windows -/

section

variable {s r : SourceState α ι} {window : Option (ShunWindow α)} {w : ShunWindow α} {now later : ℕ}
  {name : α}

omit [DecidableEq α] in
theorem running_eq_some_iff : running now window = some w ↔ window = some w ∧ now < w.till := by
  simp [running]

omit [DecidableEq α] in
theorem running_running (hle : now ≤ later) : running later (running now window) =
    running later window := by
  cases window with
  | none => rfl
  | some w =>
    by_cases hlater : later < w.till
    · have hnow : now < w.till := Nat.lt_of_le_of_lt hle hlater
      simp [running, Option.filter, hnow]
    · by_cases hnow : now < w.till <;> simp [running, Option.filter, hlater, hnow]

omit [DecidableEq α] in
theorem running_eq_of_le {window' : Option (ShunWindow α)} (hle : now ≤ later)
    (heq : running now window = running now window') :
    running later window = running later window' := by
  calc
    running later window = running later (running now window) := (running_running hle).symm
    _ = running later (running now window') := by rw [heq]
    _ = running later window' := running_running hle

theorem running_filter_owner : running now (window.filter fun w ↦ decide (w.owner ≠ some name)) =
    (running now window).filter fun w ↦ decide (w.owner ≠ some name) := by
  unfold running
  rw [Option.filter_filter, Option.filter_filter]
  congr 1
  funext w
  exact Bool.and_comm ..

/-- A step only depends on the running window. -/
theorem running_step (op : SourceOp α ι)
    (heq : running op.time s.window = running op.time r.window) :
    running op.time (s.step op).window = running op.time (r.step op).window := by
  cases op with
  | alert name cls now till? =>
    cases till? with
    | none => exact heq
    | some till =>
      have hnext : nextWindow s.window name now till = nextWindow r.window name now till := by
        unfold nextWindow
        rw [show running now s.window = running now r.window from heq]
      exact congrArg _ hnext
  | revert name now =>
    have heq' : running now s.window = running now r.window := heq
    change running now (s.window.filter _) = running now (r.window.filter _)
    rw [running_filter_owner, running_filter_owner, heq']

/-- The running window does not belong to the alert `a`. -/
def Disowned (a : α) (now : ℕ) (s : SourceState α ι) : Prop :=
  ∀ w, running now s.window = some w → w.owner ≠ some a

omit [DecidableEq α] in
theorem Disowned.wait {a : α} (hs : Disowned a now s) (hle : now ≤ later) : Disowned a later s := by
  intro w hw
  rcases running_eq_some_iff.mp hw with ⟨hwindow, hlater⟩
  exact hs w (running_eq_some_iff.mpr ⟨hwindow, Nat.lt_of_le_of_lt hle hlater⟩)

theorem Disowned.step {a : α} (op : SourceOp α ι) (hs : Disowned a op.time s) (hop : op.name ≠ a) :
    Disowned a op.time (s.step op) := by
  cases op with
  | alert name cls now till? =>
    cases till? with
    | none => exact hs
    | some till =>
      intro w hw
      have hnext := (running_eq_some_iff.mp hw).1
      change nextWindow s.window name now till = some w at hnext
      unfold nextWindow at hnext
      cases hrun : running now s.window with
      | none =>
        simp only [hrun, Option.some.injEq] at hnext
        subst hnext
        simpa using hop
      | some old =>
        simp only [hrun] at hnext
        split at hnext
        · cases hnext
          simp
        · cases hnext
          exact hs w hrun
  | revert name now =>
    intro w hw
    change running now (s.window.filter _) = some w at hw
    rw [running_filter_owner, Option.filter_eq_some_iff] at hw
    exact hs w hw.1

/-- Reverting an alert that owns no running window leaves the running window alone. -/
theorem Disowned.running_revert {a : α} (hs : Disowned a now s) :
    running now (s.step (.revert a now)).window = running now s.window := by
  change running now (s.window.filter _) = _
  rw [running_filter_owner]
  cases hrun : running now s.window with
  | none => rfl
  | some w => simp [hs w hrun]

/-- An alert that asks for nothing beyond the running window leaves it alone. -/
theorem running_alert (name : α) (cls : ι) {till? : Option ℕ}
    (hwithin : ∀ till, till? = some till → ∃ w, running now s.window = some w ∧ till ≤ w.till) :
    running now (s.step (.alert name cls now till?)).window = running now s.window := by
  cases till? with
  | none => rfl
  | some till =>
    rcases hwithin till rfl with ⟨w, hrun, hle⟩
    have hnext : nextWindow s.window name now till = some w := by
      unfold nextWindow
      simp [hrun, Nat.not_lt.mpr hle]
    change running now (nextWindow ..) = _
    rw [hnext, hrun]
    exact running_eq_some_iff.mpr ⟨rfl, (running_eq_some_iff.mp hrun).2⟩

end

/-! ## The alerts that were not taken back -/

section

variable {s : SourceState α ι} {a : α} {cls : ι} {till? : Option ℕ} {between after : List (SourceOp α ι)}
  {acceptedAt revertedAt : ℕ}

variable {r : SourceState α ι}

theorem live_step_filter (op : SourceOp α ι) (hop : op.name ≠ a)
    (hlive : s.live.filter (fun x ↦ x.1 ≠ a) = r.live) :
    (s.step op).live.filter (fun x ↦ x.1 ≠ a) = (r.step op).live := by
  cases op with
  | alert name cls now till? =>
    have hname : name ≠ a := hop
    change List.filter _ ((name, cls) :: s.live) = (name, cls) :: r.live
    rw [filter_cons_of_pos (by simpa using hname), hlive]
  | revert name now =>
    change List.filter _ (List.filter ..) = List.filter _ r.live
    rw [← hlive, filter_filter, filter_filter]
    congr 1
    funext x
    exact Bool.and_comm ..

theorem live_run_filter {ops : List (SourceOp α ι)} (hops : ∀ op ∈ ops, op.name ≠ a)
    (hlive : s.live.filter (fun x ↦ x.1 ≠ a) = r.live) :
    (run SourceState.step s ops).live.filter (fun x ↦ x.1 ≠ a) =
      (run SourceState.step r ops).live := by
  induction ops generalizing s r with
  | nil => exact hlive
  | cons op rest ih =>
    exact ih (fun other hother ↦ hops other (by simp [hother]))
      (live_step_filter op (hops op (by simp)) hlive)

theorem live_run_congr (ops : List (SourceOp α ι)) (hlive : s.live = r.live) :
    (run SourceState.step s ops).live = (run SourceState.step r ops).live := by
  induction ops generalizing s r with
  | nil => exact hlive
  | cons op rest ih =>
    apply ih
    cases op <;> simp [hlive]

/-- After its revert an alert is not counted any more, and all others are counted as if it had
never been there. -/
theorem live_failed (hfresh : ∀ x ∈ s.live, x.1 ≠ a) (hbetween : ∀ op ∈ between, op.name ≠ a) :
    (run SourceState.step s
      (.alert a cls acceptedAt till? :: (between ++ .revert a revertedAt :: after))).live =
      (run SourceState.step s (between ++ after)).live := by
  rw [run_cons, run_append, run_append, run_cons]
  apply live_run_congr
  apply live_run_filter hbetween
  change List.filter _ ((a, cls) :: s.live) = s.live
  rw [filter_cons_of_neg (by simp)]
  exact filter_eq_self.mpr fun x hx ↦ by simpa using hfresh x hx

/-- Every alert that still counts was accepted and not reverted since. -/
theorem exists_alert_of_live {ops : List (SourceOp α ι)} {x : α × ι}
    (hx : x ∈ (run SourceState.step s ops).live) (hstart : s.live = []) :
    ∃ first rest now till?, ops = first ++ .alert x.1 x.2 now till? :: rest ∧
      ∀ t, .revert x.1 t ∉ rest := by
  induction ops using List.reverseRecOn with
  | nil => simp [hstart] at hx
  | append_singleton ops op ih =>
    rw [run_append] at hx
    cases op with
    | alert name cls now till? =>
      rcases mem_cons.mp hx with rfl | hold
      · exact ⟨ops, [], now, till?, rfl, by simp⟩
      · rcases ih hold with ⟨first, rest, t, e, hops, hrest⟩
        exact ⟨first, rest ++ [.alert name cls now till?], t, e, by simp [hops], by simpa using hrest⟩
    | revert name now =>
      rcases mem_filter.mp hx with ⟨hold, hne⟩
      rcases ih hold with ⟨first, rest, t, e, hops, hrest⟩
      refine ⟨first, rest ++ [.revert name now], t, e, by simp [hops], fun t' hmem ↦ ?_⟩
      rcases mem_append.mp hmem with hin | hlast
      · exact hrest t' hin
      · simp only [mem_singleton, SourceOp.revert.injEq] at hlast
        simp [hlast.1] at hne

end

/-! ## Windows after a failed alert -/

section

variable {s x y : SourceState α ι} {a : α} {till now later : ℕ} {kept : α → Prop}

/-- The running windows have the same end, and they differ in their owner at most by an alert that
is kept for good. -/
def Agree (kept : α → Prop) (now : ℕ) (x y : SourceState α ι) : Prop :=
  running now x.window = running now y.window ∨
    ∃ e c, running now x.window = some ⟨e, none⟩ ∧ running now y.window = some ⟨e, some c⟩ ∧ kept c

omit [DecidableEq α] in
theorem Agree.wait (hagree : Agree kept now x y) (hle : now ≤ later) : Agree kept later x y := by
  rcases hagree with heq | ⟨e, c, hx, hy, hkept⟩
  · exact .inl (running_eq_of_le hle heq)
  · have hx' := running_eq_some_iff.mp hx
    have hy' := running_eq_some_iff.mp hy
    by_cases hlater : later < e
    · exact .inr ⟨e, c, running_eq_some_iff.mpr ⟨hx'.1, hlater⟩,
        running_eq_some_iff.mpr ⟨hy'.1, hlater⟩, hkept⟩
    · refine .inl ?_
      simp [running, hx'.1, hy'.1, Option.filter, hlater]

theorem Agree.step (op : SourceOp α ι) (hagree : Agree kept op.time x y)
    (hop : ∀ c t, op = .revert c t → ¬kept c) : Agree kept op.time (x.step op) (y.step op) := by
  rcases hagree with heq | ⟨e, c, hx, hy, hkept⟩
  · exact .inl (running_step op heq)
  cases op with
  | alert name cls now till? =>
    cases till? with
    | none => exact .inr ⟨e, c, hx, hy, hkept⟩
    | some till =>
      have hx' : running now x.window = some ⟨e, none⟩ := hx
      have hy' : running now y.window = some ⟨e, some c⟩ := hy
      have hnow : now < e := (running_eq_some_iff.mp hx').2
      by_cases hlonger : e < till
      · refine .inl ?_
        simp [nextWindow, hx', hy', hlonger]
      · refine .inr ⟨e, c, ?_, ?_, hkept⟩
        · change running now (nextWindow ..) = _
          simp only [nextWindow, hx', hlonger]
          exact running_eq_some_iff.mpr ⟨rfl, hnow⟩
        · change running now (nextWindow ..) = _
          simp only [nextWindow, hy', hlonger]
          exact running_eq_some_iff.mpr ⟨rfl, hnow⟩
  | revert name now =>
    have hne : c ≠ name := fun heq ↦ hop name now rfl (heq ▸ hkept)
    refine .inr ⟨e, c, ?_, ?_, hkept⟩
    · change running now (x.window.filter _) = _
      rw [running_filter_owner, show running now x.window = _ from hx]
      rfl
    · change running now (y.window.filter _) = _
      rw [running_filter_owner, show running now y.window = _ from hy]
      simp [hne]

omit [DecidableEq α] in
theorem Agree.ends (hagree : Agree kept now x y) :
    (running now x.window).map ShunWindow.till = (running now y.window).map ShunWindow.till := by
  rcases hagree with heq | ⟨e, c, hx, hy, _⟩
  · rw [heq]
  · rw [hx, hy]
    rfl

/-- The states with and without the alert `a`, when its revert will change nothing any more. -/
structure Settled (kept : α → Prop) (a : α) (now : ℕ) (x y : SourceState α ι) : Prop where
  agree : Agree kept now x y
  disowned : Disowned a now x

omit [DecidableEq α] in
theorem Settled.wait (hsettled : Settled kept a now x y) (hle : now ≤ later) :
    Settled kept a later x y :=
  ⟨hsettled.agree.wait hle, hsettled.disowned.wait hle⟩

theorem Settled.step (op : SourceOp α ι) (hsettled : Settled kept a op.time x y)
    (hname : op.name ≠ a) (hop : ∀ c t, op = .revert c t → ¬kept c) :
    Settled kept a op.time (x.step op) (y.step op) :=
  ⟨hsettled.agree.step op hop, hsettled.disowned.step op hname⟩

theorem Settled.run {ops : List (SourceOp α ι)} {start finish : ℕ}
    (hsettled : Settled kept a start x y) (hclock : Clock SourceOp.time start ops finish)
    (hops : ∀ op ∈ ops, op.name ≠ a ∧ ∀ c t, op = .revert c t → ¬kept c) :
    Settled kept a finish (run SourceState.step x ops) (run SourceState.step y ops) :=
  run_relation (Settled kept a) (fun _ _ _ _ hle h ↦ h.wait hle)
    (fun _ _ op hop h ↦ h.step op hop.1 hop.2) hclock
    (along_of_forall hops) hsettled

theorem Settled.revert (hsettled : Settled kept a now x y) :
    Agree kept now (x.step (.revert a now)) y := by
  unfold Agree
  rw [hsettled.disowned.running_revert]
  exact hsettled.agree

/-- `x` is still in the window up to `till` that `a` opened; without `a` at most shorter windows
are running, and they belong to alerts that are kept. -/
def Opened (kept : α → Prop) (a : α) (till now : ℕ) (x y : SourceState α ι) : Prop :=
  x.window = some ⟨till, some a⟩ ∧
    ∀ w, running now y.window = some w → w.till ≤ till ∧ ∀ c, w.owner = some c → kept c

/-- The states with and without the alert `a` that opened a window, before its revert. -/
def Pending (kept : α → Prop) (a : α) (till now : ℕ) (x y : SourceState α ι) : Prop :=
  Opened kept a till now x y ∨ Settled kept a now x y

omit [DecidableEq α] in
variable {ops : List (SourceOp α ι)} {start finish : ℕ}

theorem Pending.wait (hpending : Pending kept a till now x y) (hle : now ≤ later) :
    Pending kept a till later x y := by
  rcases hpending with ⟨hx, hy⟩ | hsettled
  · refine .inl ⟨hx, fun w hw ↦ ?_⟩
    rcases running_eq_some_iff.mp hw with ⟨hwindow, hlater⟩
    exact hy w (running_eq_some_iff.mpr ⟨hwindow, Nat.lt_of_le_of_lt hle hlater⟩)
  · exact .inr (hsettled.wait hle)

/-- What the operations between the alert and its revert may be. -/
structure Between (kept : α → Prop) (a : α) (till : ℕ) (op : SourceOp α ι) : Prop where
  name : op.name ≠ a
  revert : ∀ c t, op = .revert c t → ¬kept c
  alert : ∀ c cls t e, op = .alert c cls t (some e) → t < till → kept c

/-- An alert inside the window that `a` opened. -/
theorem Opened.alert_inside {c : α} (cls : ι) (e : ℕ) (hopened : Opened kept a till now x y)
    (hkept : kept c) (hinside : now < till) :
    (e ≤ till ∧ Opened kept a till now (x.step (.alert c cls now (some e)))
        (y.step (.alert c cls now (some e)))) ∨
      (till < e ∧ Settled kept a now (x.step (.alert c cls now (some e)))
        (y.step (.alert c cls now (some e)))) := by
  have hx : running now x.window = some ⟨till, some a⟩ :=
    running_eq_some_iff.mpr ⟨hopened.1, hinside⟩
  by_cases hlonger : till < e
  · have hx' : nextWindow x.window c now e = some ⟨e, none⟩ := by
      simp [nextWindow, hx, hlonger]
    have hnow : now < e := Nat.lt_trans hinside hlonger
    refine .inr ⟨hlonger, ?_, ?_⟩
    · cases hy : running now y.window with
      | none =>
        refine .inr ⟨e, c, ?_, ?_, hkept⟩
        · exact running_eq_some_iff.mpr ⟨hx', hnow⟩
        · have hy' : nextWindow y.window c now e = some ⟨e, some c⟩ := by
            simp only [nextWindow, hy]
          exact running_eq_some_iff.mpr ⟨hy', hnow⟩
      | some w =>
        have hle := (hopened.2 w hy).1
        have hy' : nextWindow y.window c now e = some ⟨e, none⟩ := by
          simp [nextWindow, hy, Nat.lt_of_le_of_lt hle hlonger]
        exact .inl (congrArg _ (hx'.trans hy'.symm))
    · intro w hw
      have hw' := (running_eq_some_iff.mp hw).1
      rw [show nextWindow x.window c now e = some w from hw', Option.some.injEq] at hx'
      simp [hx']
  · have hshort : e ≤ till := Nat.le_of_not_lt hlonger
    refine .inl ⟨hshort, ?_, ?_⟩
    · simp [nextWindow, hx, hlonger]
    · intro w hw
      have hw' : nextWindow y.window c now e = some w := (running_eq_some_iff.mp hw).1
      unfold nextWindow at hw'
      cases hy : running now y.window with
      | none =>
        simp only [hy, Option.some.injEq] at hw'
        subst hw'
        refine ⟨hshort, fun d hd ↦ ?_⟩
        cases hd
        exact hkept
      | some old =>
        simp only [hy] at hw'
        split at hw'
        · cases hw'
          exact ⟨hshort, by simp⟩
        · cases hw'
          exact hopened.2 w hy

/-- An alert after the window that `a` opened has reached its end. -/
theorem Opened.alert_outside {c : α} (cls : ι) (e : ℕ) (hopened : Opened kept a till now x y)
    (hne : c ≠ a) (houtside : till ≤ now) :
    Settled kept a now (x.step (.alert c cls now (some e))) (y.step (.alert c cls now (some e))) := by
  have hx : running now x.window = none := by
    simp [running, hopened.1, Option.filter, Nat.not_lt.mpr houtside]
  have hy : running now y.window = none := by
    cases hrun : running now y.window with
    | none => rfl
    | some w =>
      have hend := (running_eq_some_iff.mp hrun).2
      have hle := (hopened.2 w hrun).1
      omega
  have hdisowned : Disowned a now x := by
    intro w hw
    rw [hx] at hw
    cases hw
  exact ⟨.inl (running_step _ (hx.trans hy.symm)),
    hdisowned.step (.alert c cls now (some e)) hne⟩

theorem Pending.step (op : SourceOp α ι) (hpending : Pending kept a till op.time x y)
    (hop : Between kept a till op) : Pending kept a till op.time (x.step op) (y.step op) := by
  rcases hpending with hopened | hsettled
  swap
  · exact .inr (hsettled.step op hop.name hop.revert)
  cases op with
  | alert c cls t till? =>
    cases till? with
    | none => exact .inl hopened
    | some e =>
      by_cases hinside : t < till
      · rcases hopened.alert_inside cls e (hop.alert c _ t e rfl hinside)
          hinside with ⟨_, hstill⟩ | ⟨_, hsettled⟩
        · exact .inl hstill
        · exact .inr hsettled
      · exact .inr (hopened.alert_outside _ e hop.name (Nat.le_of_not_lt hinside))
  | revert c t =>
    have hne : c ≠ a := hop.name
    refine .inl ⟨?_, fun w hw ↦ ?_⟩
    · change x.window.filter _ = _
      rw [hopened.1]
      simp [Ne.symm hne]
    · change running t (y.window.filter _) = some w at hw
      rw [running_filter_owner, Option.filter_eq_some_iff] at hw
      exact hopened.2 w hw.1

theorem Pending.run (hpending : Pending kept a till start x y)
    (hclock : Clock SourceOp.time start ops finish) (hops : ∀ op ∈ ops, Between kept a till op) :
    Pending kept a till finish (run SourceState.step x ops) (run SourceState.step y ops) :=
  run_relation (Pending kept a till) (fun _ _ _ _ hle h ↦ h.wait hle)
    (fun _ _ op hop h ↦ h.step op hop) hclock
    (along_of_forall hops) hpending

/-- An alert that opens a window. -/
theorem pending_alert {cls : ι} (hidle : running now s.window = none) :
    Pending kept a till now (s.step (.alert a cls now (some till))) s := by
  refine .inl ⟨?_, fun w hw ↦ ?_⟩
  · rw [SourceState.window_alert_some, nextWindow, hidle]
  · rw [hidle] at hw
    cases hw

/-- The revert of an alert that asked for nothing beyond the running window changes nothing. -/
theorem agree_of_within {cls : ι} {till? : Option ℕ} (hdisowned : Disowned a start s)
    (hwithin : ∀ till, till? = some till → ∃ w, running start s.window = some w ∧ till ≤ w.till)
    (hclock : Clock SourceOp.time start ops finish) (hops : ∀ op ∈ ops, op.name ≠ a) :
    Agree (fun _ ↦ False) finish
      ((run SourceState.step (s.step (.alert a cls start till?)) ops).step (.revert a finish))
      (run SourceState.step s ops) := by
  have hsame := running_alert a cls hwithin
  have hsettled : Settled (fun _ ↦ False) a start (s.step (.alert a cls start till?)) s := by
    refine ⟨.inl hsame, fun w hw ↦ hdisowned w ?_⟩
    rwa [hsame] at hw
  apply Settled.revert
  exact hsettled.run hclock fun op hop ↦ ⟨hops op hop, fun _ _ _ h ↦ h⟩

/-- Once an alert has extended the window of `a`, its revert changes nothing. -/
theorem agree_of_extended {c : α} {cls : ι} {t e : ℕ} (hpending : Pending kept a till start x y)
    (hclock : Clock SourceOp.time start ops finish) (hops : ∀ op ∈ ops, Between kept a till op)
    (hmem : .alert c cls t (some e) ∈ ops) (hinside : t < till) (hlonger : till < e) :
    Agree kept finish ((run SourceState.step x ops).step (.revert a finish))
      (run SourceState.step y ops) := by
  rcases append_of_mem hmem with ⟨first, rest, rfl⟩
  rcases clock_append.mp hclock with ⟨middle, hfirst, hmiddle, hrest⟩
  have hbefore := (hpending.run hfirst fun op hop ↦ hops op (by simp [hop])).wait hmiddle
  have hkept := (hops _ hmem).alert c cls t e rfl hinside
  -- The extension ends the phase in which the window belongs to `a`.
  have hextended : Settled kept a t ((run SourceState.step x first).step (.alert c cls t (some e)))
      ((run SourceState.step y first).step (.alert c cls t (some e))) := by
    rcases hbefore with hopened | hsettled
    · rcases hopened.alert_inside cls e hkept hinside with ⟨hle, _⟩ | ⟨_, hdone⟩
      · omega
      · exact hdone
    · exact hsettled.step _ (hops _ hmem).name (hops _ hmem).revert
  rw [run_append, run_append, run_cons]
  apply Settled.revert
  apply hextended.run hrest
  intro op hop
  have hbetween := hops op (by simp [hop])
  exact ⟨hbetween.name, hbetween.revert⟩

/-- If no other alert asks for a window while the one of `a` runs, its revert closes the window and
nothing is left. -/
theorem agree_of_alone (hpending : Pending kept a till start x y)
    (hclock : Clock SourceOp.time start ops finish) (hops : ∀ op ∈ ops, Between kept a till op)
    (hidle : running start y.window = none)
    (halone : ∀ c cls t e, .alert c cls t (some e) ∈ ops → till ≤ t) :
    Agree kept finish ((run SourceState.step x ops).step (.revert a finish))
      (run SourceState.step y ops) := by
  rcases hpending.run hclock hops with hopened | hsettled
  swap
  · exact hsettled.revert
  -- Up to the end of the window of `a` nothing runs without it.
  have hquiet : finish < till → running finish (run SourceState.step y ops).window = none := by
    refine run_invariant (fun now (s : SourceState α ι) ↦ now < till → running now s.window = none)
      ?_ ?_ hclock (along_of_forall fun op hop ↦ hop) fun _ ↦ hidle
    · intro s now later hle hs hlater
      rw [← running_running hle, hs (Nat.lt_of_le_of_lt hle hlater)]
      rfl
    · intro s op hop hs hnow
      cases op with
      | alert c cls t till? =>
        cases till? with
        | none => exact hs hnow
        | some e => exact absurd hnow (Nat.not_lt.mpr (halone c cls t e hop))
      | revert c t =>
        change running t (s.window.filter _) = none
        rw [running_filter_owner, show running t s.window = none from hs hnow]
        rfl
  have hy : running finish (run SourceState.step y ops).window = none := by
    cases hrun : running finish (run SourceState.step y ops).window with
    | none => rfl
    | some w =>
      have hend := (running_eq_some_iff.mp hrun).2
      have hle := (hopened.2 w hrun).1
      rw [hquiet (by omega)] at hrun
      cases hrun
  refine .inl ?_
  rw [hy]
  change running finish ((run SourceState.step x ops).window.filter _) = none
  rw [hopened.1]
  simp [running]

theorem Agree.ends_run (hagree : Agree kept start x y)
    (hclock : Clock SourceOp.time start ops finish) (hops : ∀ c t, .revert c t ∈ ops → ¬kept c) :
    (running finish (run SourceState.step x ops).window).map ShunWindow.till =
      (running finish (run SourceState.step y ops).window).map ShunWindow.till := by
  have hfinish : Agree kept finish (run SourceState.step x ops) (run SourceState.step y ops) := by
    refine run_relation _ (fun _ _ _ _ hle h ↦ h.wait hle)
      (fun _ _ op hop h ↦ h.step op ?_) hclock (along_of_forall fun op hop ↦ hop) hagree
    intro c t heq
    exact hops c t (heq ▸ hop)
  exact hfinish.ends

end

/-! ## Windows of alerts that were all reverted, and of alerts that were not -/

section

variable {s : SourceState α ι} {now later : ℕ}

variable {b : α} (op : SourceOp α ι) {till : ℕ}

/-- The operation does not extend a running window. -/
def Unextended (s : SourceState α ι) (op : SourceOp α ι) : Prop :=
  ∀ name cls now till w, op = .alert name cls now (some till) → running now s.window = some w →
    till ≤ w.till

/-- The window belongs to an alert that still counts. -/
def OwnerLive (s : SourceState α ι) : Prop :=
  ∀ w, s.window = some w → ∃ x ∈ s.live, w.owner = some x.1

theorem OwnerLive.step (hs : OwnerLive s) (hop : Unextended s op) : OwnerLive (s.step op) := by
  intro w hw
  cases op with
  | alert name cls now till? =>
    cases till? with
    | none =>
      rcases hs w hw with ⟨x, hx, howner⟩
      exact ⟨x, mem_cons_of_mem _ hx, howner⟩
    | some till =>
      have hnext : nextWindow s.window name now till = some w := hw
      unfold nextWindow at hnext
      cases hrun : running now s.window with
      | none =>
        simp only [hrun, Option.some.injEq] at hnext
        subst hnext
        exact ⟨(name, cls), mem_cons_self, rfl⟩
      | some old =>
        have hwithin := hop name cls now till old rfl hrun
        simp only [hrun, Nat.not_lt.mpr hwithin, if_false, Option.some.injEq] at hnext
        subst hnext
        rcases hs old (running_eq_some_iff.mp hrun).1 with ⟨x, hx, howner⟩
        exact ⟨x, mem_cons_of_mem _ hx, howner⟩
  | revert name now =>
    rcases Option.filter_eq_some_iff.mp hw with ⟨hwindow, hne⟩
    rcases hs w hwindow with ⟨x, hx, howner⟩
    refine ⟨x, mem_filter.mpr ⟨hx, ?_⟩, howner⟩
    simpa [howner] using hne

/-- Up to `till` a window runs that no revert of an alert other than `b` can close. -/
def Secured (b : α) (till now : ℕ) (s : SourceState α ι) : Prop :=
  now < till → ∃ w, s.window = some w ∧ till ≤ w.till ∧ (w.owner = none ∨ w.owner = some b)

/-- An alert that opens or extends a window secures the window it asked for. -/
theorem secured_alert {cls : ι} (hlongest : ∀ w, running now s.window = some w → w.till < till) :
    Secured b till now (s.step (.alert b cls now (some till))) := by
  intro _
  change ∃ w, nextWindow _ b _ _ = some w ∧ _
  unfold nextWindow
  cases hrun : running now s.window with
  | none => exact ⟨⟨till, some b⟩, rfl, Nat.le_refl _, .inr rfl⟩
  | some w =>
    simp only [hlongest w hrun]
    exact ⟨⟨till, none⟩, rfl, Nat.le_refl _, .inl rfl⟩

theorem Secured.step (hs : Secured b till op.time s) (hop : ∀ t, op ≠ .revert b t) :
    Secured b till op.time (s.step op) := by
  intro hnow
  rcases hs hnow with ⟨w, hwindow, hle, howner⟩
  cases op with
  | alert name cls now till? =>
    cases till? with
    | none => exact ⟨w, hwindow, hle, howner⟩
    | some e =>
      have hrun : running now s.window = some w :=
        running_eq_some_iff.mpr ⟨hwindow, Nat.lt_of_lt_of_le hnow hle⟩
      change ∃ w, nextWindow _ _ _ e = some w ∧ _
      simp only [nextWindow, hrun]
      by_cases hlonger : w.till < e
      · simp only [hlonger]
        exact ⟨⟨e, none⟩, rfl, Nat.le_trans hle (Nat.le_of_lt hlonger), .inl rfl⟩
      · simp only [hlonger]
        exact ⟨w, rfl, hle, howner⟩
  | revert name now =>
    have hne : name ≠ b := fun heq ↦ hop now (heq ▸ rfl)
    refine ⟨w, ?_, hle, howner⟩
    change s.window.filter _ = some w
    rw [hwindow]
    rcases howner with hnone | hb
    · simp [hnone]
    · simp [hb, Ne.symm hne]

theorem Secured.run {start finish : ℕ} {ops : List (SourceOp α ι)} (hs : Secured b till start s)
    (hclock : Clock SourceOp.time start ops finish) (hops : ∀ t, .revert b t ∉ ops) :
    Secured b till finish (run SourceState.step s ops) := by
  refine run_invariant _ (fun _ _ _ hle h hlater ↦ h (Nat.lt_of_le_of_lt hle hlater))
    (fun _ op hop h ↦ h.step op ?_) hclock (along_of_forall fun op hop ↦ hop) hs
  intro t heq
  exact hops t (heq ▸ hop)

end

end RanHoneypot.Alert
