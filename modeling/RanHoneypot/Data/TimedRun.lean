import Mathlib.Order.Basic

/-!
# Runs of machines that read a clock

A machine is a step function on states. A run is a list of operations, and each operation carries
the clock reading it makes. `Clock` says that the readings do not go back, and `Along` that a guard
holds at every step of a run, in the state the step is taken from. The rule `run_invariant` lifts an
invariant that may mention the current time from single steps to whole runs.
-/

namespace RanHoneypot.TimedRun

open List

variable {σ ι : Type*}

/-- The state after a list of operations. -/
def run (step : σ → ι → σ) (state : σ) (ops : List ι) : σ := ops.foldl step state

/-- The readings of `ops` do not decrease, start no earlier than `start` and end by `finish`. -/
def Clock (time : ι → ℕ) : ℕ → List ι → ℕ → Prop
  | start, [], finish => start ≤ finish
  | start, op :: rest, finish => start ≤ time op ∧ Clock time (time op) rest finish

/-- `guard` holds of every operation in the state it is applied to. -/
def Along (step : σ → ι → σ) (guard : σ → ι → Prop) : σ → List ι → Prop
  | _, [] => True
  | state, op :: rest => guard state op ∧ Along step guard (step state op) rest

instance decidableClock (time : ι → ℕ) : ∀ start ops finish, Decidable (Clock time start ops finish)
  | start, [], finish => inferInstanceAs (Decidable (start ≤ finish))
  | start, op :: rest, finish =>
    have := decidableClock time (time op) rest finish
    inferInstanceAs (Decidable (start ≤ time op ∧ Clock time (time op) rest finish))

instance decidableAlong (step : σ → ι → σ) (guard : σ → ι → Prop)
    [hguard : ∀ s op, Decidable (guard s op)] : ∀ state ops, Decidable (Along step guard state ops)
  | _, [] => .isTrue trivial
  | state, op :: rest =>
    have := decidableAlong step guard (step state op) rest
    inferInstanceAs (Decidable (guard state op ∧ Along step guard (step state op) rest))

section

variable (step : σ → ι → σ) (state : σ)

@[simp] theorem run_nil : run step state [] = state := rfl

@[simp] theorem run_cons (op : ι) (rest : List ι) :
    run step state (op :: rest) = run step (step state op) rest := rfl

theorem run_append (first second : List ι) :
    run step state (first ++ second) = run step (run step state first) second :=
  foldl_append

end

section

variable {time : ι → ℕ} {step : σ → ι → σ} {guard : σ → ι → Prop}

variable {state : σ} {start : ℕ} {ops : List ι} {finish : ℕ}

variable {τ : Type*} (inv : σ → Prop) {κ : Type*}

theorem Clock.mono_finish {later : ℕ} (hclock : Clock time start ops finish) (hle : finish ≤ later) :
    Clock time start ops later := by
  induction ops generalizing start with
  | nil => exact Nat.le_trans hclock hle
  | cons op rest ih => exact ⟨hclock.1, ih hclock.2⟩

theorem Clock.mono_start {earlier : ℕ} (hclock : Clock time start ops finish)
    (hle : earlier ≤ start) : Clock time earlier ops finish := by
  cases ops with
  | nil => exact Nat.le_trans hle hclock
  | cons op rest => exact ⟨Nat.le_trans hle hclock.1, hclock.2⟩

theorem clock_append {first second : List ι} :
    Clock time start (first ++ second) finish ↔
      ∃ middle, Clock time start first middle ∧ Clock time middle second finish := by
  induction first generalizing start with
  | nil =>
    constructor
    · intro hclock
      exact ⟨start, Nat.le_refl _, hclock⟩
    · intro hsplit
      rcases hsplit with ⟨middle, hstart, hclock⟩
      exact hclock.mono_start hstart
  | cons op rest ih =>
    simp [Clock, ih, and_assoc]

theorem along_append {first second : List ι} :
    Along step guard state (first ++ second) ↔
      Along step guard state first ∧ Along step guard (run step state first) second := by
  induction first generalizing state with
  | nil => simp [Along]
  | cons op rest ih => simp [Along, ih, and_assoc]

/-- An invariant that survives the passing of time and every guarded step holds after every run. -/
theorem run_invariant (inv : ℕ → σ → Prop)
    (hwait : ∀ s now later, now ≤ later → inv now s → inv later s)
    (hstep : ∀ s op, guard s op → inv (time op) s → inv (time op) (step s op))
    (hclock : Clock time start ops finish) (halong : Along step guard state ops)
    (hinit : inv start state) : inv finish (run step state ops) := by
  induction ops generalizing state start with
  | nil => exact hwait _ _ _ hclock hinit
  | cons op rest ih =>
    exact ih hclock.2 halong.2 (hstep _ _ halong.1 (hwait _ _ _ hclock.1 hinit))

theorem along_of_forall {property : ι → Prop} (hops : ∀ op ∈ ops, property op) :
    Along step (fun _ op ↦ property op) state ops := by
  induction ops generalizing state with
  | nil => trivial
  | cons op rest ih =>
    exact ⟨hops op (by simp), ih fun other hother ↦ hops other (by simp [hother])⟩

/-- The two-machine form: a relation that survives the passing of time and every pair of steps
holds between the ends of two runs of the same operations. -/
theorem run_relation {step' : τ → ι → τ} (rel : ℕ → σ → τ → Prop)
    (hwait : ∀ s t now later, now ≤ later → rel now s t → rel later s t)
    (hstep : ∀ s t op, guard s op → rel (time op) s t → rel (time op) (step s op) (step' t op))
    {state' : τ} (hclock : Clock time start ops finish) (halong : Along step guard state ops)
    (hinit : rel start state state') : rel finish (run step state ops) (run step' state' ops) := by
  induction ops generalizing state state' start with
  | nil => exact hwait _ _ _ _ hclock hinit
  | cons op rest ih =>
    exact ih hclock.2 halong.2 (hstep _ _ _ halong.1 (hwait _ _ _ _ hclock.1 hinit))

/-- A machine that skips the operations that `f` drops. -/
theorem run_filterMap (step' : σ → κ → σ) (f : ι → Option κ) (state : σ) (ops : List ι) :
    run step' state (ops.filterMap f) = run (fun s op ↦ (f op).elim s (step' s)) state ops := by
  induction ops generalizing state with
  | nil => rfl
  | cons op rest ih =>
    rw [run_cons, ← ih, filterMap_cons]
    cases f op with
    | none | some => rfl

theorem Clock.filterMap {time' : κ → ℕ} {f : ι → Option κ} (hclock : Clock time start ops finish)
    (htime : ∀ op other, f op = some other → time' other = time op) :
    Clock time' start (ops.filterMap f) finish := by
  induction ops generalizing start with
  | nil => exact hclock
  | cons op rest ih =>
    rw [filterMap_cons]
    cases hf : f op with
    | none => exact ih (hclock.2.mono_start hclock.1)
    | some other =>
      have heq := htime op other hf
      exact ⟨heq ▸ hclock.1, heq ▸ ih hclock.2⟩

/-- The rule for an invariant that does not mention the time. -/
theorem run_invariant_mem (hstep : ∀ s, ∀ op ∈ ops, inv s → inv (step s op)) (hinit : inv state) :
    inv (run step state ops) := by
  induction ops generalizing state with
  | nil => exact hinit
  | cons op rest ih =>
    exact ih (fun s other hother ↦ hstep s other (mem_cons_of_mem op hother))
      (hstep state op mem_cons_self hinit)

theorem run_invariant_untimed (hstep : ∀ s op, inv s → inv (step s op)) (ops : List ι)
    (hinit : inv state) : inv (run step state ops) :=
  run_invariant_mem inv (fun s op _ ↦ hstep s op) hinit

/-- The rule for an invariant that needs a guard at every step. -/
theorem run_invariant_along (hstep : ∀ s op, guard s op → inv s → inv (step s op))
    (halong : Along step guard state ops) (hinit : inv state) : inv (run step state ops) := by
  induction ops generalizing state with
  | nil => exact hinit
  | cons op rest ih => exact ih halong.2 (hstep state op halong.1 hinit)

/-- The two-machine form of it. -/
theorem run_relation_mem {step' : τ → ι → τ} (rel : σ → τ → Prop)
    (hstep : ∀ s t, ∀ op ∈ ops, rel s t → rel (step s op) (step' t op)) {state' : τ}
    (hinit : rel state state') : rel (run step state ops) (run step' state' ops) := by
  induction ops generalizing state state' with
  | nil => exact hinit
  | cons op rest ih =>
    exact ih (fun s t other hother ↦ hstep s t other (mem_cons_of_mem op hother))
      (hstep state state' op mem_cons_self hinit)

/-- A map of states and operations that commutes with single steps commutes with runs. -/
theorem run_map {step' : τ → κ → τ} (f : σ → τ) (g : ι → κ)
    (hstep : ∀ s op, step' (f s) (g op) = f (step s op)) (state : σ) (ops : List ι) :
    run step' (f state) (ops.map g) = f (run step state ops) := by
  induction ops generalizing state with
  | nil => rfl
  | cons op rest ih => rw [map_cons, run_cons, run_cons, hstep, ih]

/-- Deleting operations from a run is skipping them. -/
theorem run_filter (keep : ι → Bool) (state : σ) (ops : List ι) :
    run step state (ops.filter keep) =
      run (fun s op ↦ if keep op then step s op else s) state ops := by
  induction ops generalizing state with
  | nil => rfl
  | cons op rest ih =>
    rw [run_cons, ← ih]
    cases hkeep : keep op with
    | false | true => simp [hkeep]

end

end RanHoneypot.TimedRun
