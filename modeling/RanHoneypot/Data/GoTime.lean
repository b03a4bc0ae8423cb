import Mathlib.Data.Int.Basic
import Mathlib.Order.Basic

/-!
# Clock readings and durations

A `time.Time` is the number of nanoseconds since its zero value, a natural number: every clock
reading is at or after the zero value. A `time.Duration` is a signed number of nanoseconds, an
integer. `Sub` saturates at the bounds of a 64-bit integer in Go. A saturated difference compares
with a duration exactly as the unbounded one does, so the difference is taken in `ℤ`.
-/

namespace RanHoneypot

/-- `now.Sub(earlier)`. -/
def since (now earlier : ℕ) : ℤ := (now : ℤ) - earlier

/-- `t.Add(d)`. -/
def advance (t : ℕ) (d : ℤ) : ℕ := ((t : ℤ) + d).toNat

theorem since_lt_iff {now earlier : ℕ} {window : ℤ} (hwindow : 0 < window) :
    since now earlier < window ↔ now < advance earlier window := by
  unfold since advance
  omega

theorem lt_advance {t : ℕ} {d : ℤ} (hd : 0 < d) : t < advance t d := by
  unfold advance
  omega

theorem since_mono {now later earlier : ℕ} (hle : now ≤ later) :
    since now earlier ≤ since later earlier := by
  unfold since
  omega

end RanHoneypot
