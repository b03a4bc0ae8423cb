import Mathlib.Tactic.Linarith
import Mathlib.Tactic.Ring
import RanHoneypot.Data.TimedRun

/-!
# Steps that are paid from a level

A machine reads a clock, and some of its steps are counted. A counted step is paid from a level, which
lies between zero and `burst`, grows by at most `rate` for every unit of time and loses at least one at
each counted step. Then any interval of time sees at most `burst` and `rate` times its length of the
counted steps. Between the steps the level may be computed from any part of the state, which may come
and go as long as the level does not rise.
-/

namespace RanHoneypot.TimedRun

variable {σ ι K : Type*} [CommRing K] [LinearOrder K] [IsStrictOrderedRing K]

/-- The number of steps of a run that `counts` marks, each in the state it is taken from. -/
def countAlong (step : σ → ι → σ) (counts : σ → ι → Bool) : σ → List ι → ℕ
  | _, [] => 0
  | state, op :: rest => (counts state op).toNat + countAlong step counts (step state op) rest

/-- The marked steps whose clock reading lies in the interval from `low` to `high`. -/
def within (time : ι → ℕ) (low high : K) (counts : σ → ι → Bool) (state : σ) (op : ι) : Bool :=
  counts state op && (low ≤ (time op : K) && (time op : K) ≤ high)

/-- `level` pays for the steps that `counts` marks. `sound` is what is known of the state at a time. -/
structure Meter (time : ι → ℕ) (step : σ → ι → σ) (counts : σ → ι → Bool) (sound : ℕ → σ → Prop)
    (level : σ → ℕ → K) (rate burst : K) : Prop where
  rate_nonneg : 0 ≤ rate
  nonneg : ∀ s now, sound now s → 0 ≤ level s now
  le_burst : ∀ s now, sound now s → level s now ≤ burst
  wait : ∀ s now later, now ≤ later → sound now s →
    sound later s ∧ level s later ≤ level s now + rate * ((later : K) - now)
  pays : ∀ s op, sound (time op) s → sound (time op) (step s op) ∧
    level (step s op) (time op) + ((counts s op).toNat : K) ≤ level s (time op)

section

variable {time : ι → ℕ} {step : σ → ι → σ} {counts : σ → ι → Bool} {low high : K}

omit [IsStrictOrderedRing K] in
theorem within_of_lt {state : σ} {op : ι} (hlt : high < time op) :
    within time low high counts state op = false := by
  simp [within, not_le.mpr hlt]

omit [IsStrictOrderedRing K] in
theorem within_of_gt {state : σ} {op : ι} (hgt : (time op : K) < low) :
    within time low high counts state op = false := by
  simp [within, not_le.mpr hgt]

theorem toNat_within_le (state : σ) (op : ι) :
    ((within time low high counts state op).toNat : K) ≤ ((counts state op).toNat : K) := by
  rw [Nat.cast_le, within]
  cases counts state op with
  | false => rfl
  | true => exact Bool.toNat_le _

/-- Behind the interval nothing is counted. -/
theorem countAlong_within_of_lt {state : σ} {ops : List ι} {start finish : ℕ}
    (hclock : Clock time start ops finish) (hlt : high < (start : K)) :
    countAlong step (within time low high counts) state ops = 0 := by
  induction ops generalizing state start with
  | nil => rfl
  | cons op rest ih =>
    have hop : high < (time op : K) := lt_of_lt_of_le hlt (Nat.cast_le.mpr hclock.1)
    rw [countAlong, within_of_lt hop, ih hclock.2 hop]
    rfl

variable {sound : ℕ → σ → Prop} {level : σ → ℕ → K} {rate burst : K}

section

variable {state : σ} {ops : List ι} {start finish : ℕ}
  (hmeter : Meter time step counts sound level rate burst) (hclock : Clock time start ops finish)
  (hsound : sound start state)

include hmeter hclock hsound

/-- What is still counted is paid from the level and its growth up to the end of the interval. -/
theorem Meter.count_le_level (hstart : (start : K) ≤ high) :
    (countAlong step (within time low high counts) state ops : K) ≤
      level state start + rate * (high - start) := by
  induction ops generalizing state start with
  | nil =>
    have hlevel := hmeter.nonneg state start hsound
    have hgrowth := mul_nonneg hmeter.rate_nonneg (sub_nonneg.mpr hstart)
    rw [countAlong, Nat.cast_zero]
    exact add_nonneg hlevel hgrowth
  | cons op rest ih =>
    rcases hmeter.wait state start (time op) hclock.1 hsound with ⟨hsound', hwait⟩
    rcases lt_or_ge high (time op : K) with hlate | hopen
    · have hnone : countAlong step (within time low high counts) state (op :: rest) = 0 := by
        rw [countAlong, within_of_lt hlate, countAlong_within_of_lt hclock.2 hlate]
        rfl
      have hlevel := hmeter.nonneg state start hsound
      have hgrowth := mul_nonneg hmeter.rate_nonneg (sub_nonneg.mpr hstart)
      rw [hnone, Nat.cast_zero]
      exact add_nonneg hlevel hgrowth
    · rcases hmeter.pays state op hsound' with ⟨hsound'', hpays⟩
      have hrest := ih hclock.2 hsound'' hopen
      have hcount : ((within time low high counts state op).toNat : K) ≤ (counts state op).toNat :=
        toNat_within_le state op
      rw [countAlong, Nat.cast_add]
      calc _ ≤ ((counts state op).toNat : K) +
            (level (step state op) (time op) + rate * (high - time op)) := add_le_add hcount hrest
        _ ≤ level state (time op) + rate * (high - time op) := by linarith
        _ ≤ level state start + rate * ((time op : K) - start) + rate * (high - time op) := by linarith
        _ = level state start + rate * (high - start) := by ring

/-- Every interval of time sees at most `burst` and `rate` times its length of the counted steps. -/
theorem Meter.count_le (hle : low ≤ high) :
    (countAlong step (within time low high counts) state ops : K) ≤ burst + rate * (high - low) := by
  induction ops generalizing state start with
  | nil =>
    have hlevel := hmeter.nonneg state start hsound
    have hburst := hmeter.le_burst state start hsound
    have hgrowth := mul_nonneg hmeter.rate_nonneg (sub_nonneg.mpr hle)
    rw [countAlong, Nat.cast_zero]
    exact add_nonneg (hlevel.trans hburst) hgrowth
  | cons op rest ih =>
    have hsound' := (hmeter.wait _ _ _ hclock.1 hsound).1
    rcases lt_or_ge (time op : K) low with hearly | hinside
    · rw [countAlong, within_of_gt hearly, Bool.toNat_false, Nat.zero_add]
      exact ih hclock.2 (hmeter.pays _ op hsound').1
    · have hopened : Clock time (time op) (op :: rest) finish := ⟨le_rfl, hclock.2⟩
      rcases lt_or_ge high (time op : K) with hlate | hopen
      · have hnone : countAlong step (within time low high counts) state (op :: rest) = 0 :=
          countAlong_within_of_lt hopened hlate
        have hlevel := hmeter.nonneg state start hsound
        have hburst := hmeter.le_burst state start hsound
        have hgrowth := mul_nonneg hmeter.rate_nonneg (sub_nonneg.mpr hle)
        rw [hnone, Nat.cast_zero]
        exact add_nonneg (hlevel.trans hburst) hgrowth
      · have hburst := hmeter.le_burst state (time op) hsound'
        have hgrowth : rate * (high - time op) ≤ rate * (high - low) :=
          mul_le_mul_of_nonneg_left (by linarith) hmeter.rate_nonneg
        calc _ ≤ level state (time op) + rate * (high - time op) :=
              hmeter.count_le_level hopened hsound' hopen
          _ ≤ burst + rate * (high - low) := add_le_add hburst hgrowth

end

end

end RanHoneypot.TimedRun
