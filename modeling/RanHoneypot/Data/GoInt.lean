import Mathlib.Algebra.Order.Ring.Nat

/-!
# Machine integers

The type `int` has 32 or 64 bits, depending on the platform. Slices and strings are never longer than
its largest value. The fixed type `int64` wraps around.
-/

namespace RanHoneypot

inductive IntWidth where
  | bits32
  | bits64
deriving DecidableEq

variable (w : IntWidth) (v : ℤ)

/-- `math.MaxInt` on the platform. -/
def IntWidth.maxInt : IntWidth → ℕ
  | bits32 => 2 ^ 31 - 1
  | bits64 => 2 ^ 63 - 1

theorem IntWidth.le_maxInt : 2 ^ 31 - 1 ≤ w.maxInt := by
  cases w <;> decide

theorem IntWidth.hundred_le_maxInt : 100 ≤ w.maxInt := by
  cases w <;> decide

/-- The result of an operation on `int`. -/
def IntWidth.wrap : ℤ :=
  (v + (w.maxInt + 1)) % (2 * (w.maxInt + 1)) - (w.maxInt + 1)

theorem IntWidth.wrap_eq {w : IntWidth} {v : ℤ} (hlow : -(w.maxInt + 1) ≤ v) (hhigh : v ≤ w.maxInt) :
    w.wrap v = v := by
  rw [wrap, Int.emod_eq_of_lt (by omega) (by omega)]
  omega

/-- The result of an operation on `int64`. -/
def wrapInt64 : ℤ := (v + 2 ^ 63) % 2 ^ 64 - 2 ^ 63

def IsInt64 : Prop := -2 ^ 63 ≤ v ∧ v < 2 ^ 63

end RanHoneypot
