import Mathlib.Tactic.Linarith
import Mathlib.Tactic.Positivity
import Mathlib.Tactic.Ring

/-!
# Numbers as bytes

Fixed-width numbers in both byte orders, and integers in two's complement with the first byte on top.
The value of a two's complement number lies between the powers that its length allows, and a byte in
front that only repeats the sign does not change it.
-/

namespace RanHoneypot.ByteNumbers

open List

/-! ## Unsigned numbers -/

variable (count : ℕ) (bytes : List UInt8) (n : ℕ)

/-- The number whose lowest byte comes first. -/
def leValue : List UInt8 → ℕ
  | [] => 0
  | b :: rest => b.toNat + 256 * leValue rest

/-- The lowest `count` bytes of a number, the lowest one first. -/
def littleEndian : ℕ → ℕ → List UInt8
  | 0, _ => []
  | count + 1, n => UInt8.ofNat n :: littleEndian count (n / 256)

/-- The number whose highest byte comes first. -/
def beValue : ℕ := bytes.foldl (fun acc b ↦ acc * 256 + b.toNat) 0

def bigEndian : List UInt8 := (littleEndian count n).reverse

theorem toNat_ofNat_byte {n : ℕ} (hn : n < 256) : (UInt8.ofNat n).toNat = n :=
  UInt8.toNat_ofNat_of_lt' hn

@[simp]
theorem length_littleEndian : (littleEndian count n).length = count := by
  induction count generalizing n with
  | zero => rfl
  | succ count ih => rw [littleEndian, length_cons, ih]

theorem leValue_littleEndian : leValue (littleEndian count n) = n % 256 ^ count := by
  induction count generalizing n with
  | zero => rw [pow_zero, Nat.mod_one]; rfl
  | succ count ih =>
    have hbyte : (UInt8.ofNat n).toNat = n % 256 := UInt8.toNat_ofNat'
    rw [littleEndian, leValue, ih, hbyte, pow_succ', Nat.mod_mul]

theorem leValue_lt : leValue bytes < 256 ^ bytes.length := by
  induction bytes with
  | nil => exact Nat.one_pos
  | cons b rest ih =>
    have hb := b.toNat_lt
    rw [leValue, length_cons]
    omega

theorem foldl_beValue (acc : ℕ) (bytes : List UInt8) :
    bytes.foldl (fun acc b ↦ acc * 256 + b.toNat) acc = acc * 256 ^ bytes.length + beValue bytes := by
  induction bytes generalizing acc with
  | nil => simp [beValue]
  | cons b rest ih =>
    have hfirst : beValue (b :: rest) = (0 * 256 + b.toNat) * 256 ^ rest.length + beValue rest := ih _
    rw [foldl_cons, ih, hfirst, length_cons]
    ring

theorem beValue_cons (b : UInt8) (rest : List UInt8) :
    beValue (b :: rest) = b.toNat * 256 ^ rest.length + beValue rest := by
  rw [beValue, foldl_cons, foldl_beValue]
  ring

theorem beValue_reverse : beValue bytes.reverse = leValue bytes := by
  induction bytes with
  | nil => rfl
  | cons b rest ih =>
    rw [reverse_cons, beValue, foldl_append, ← beValue, leValue]
    simp only [foldl_cons, foldl_nil]
    omega

@[simp] theorem length_bigEndian : (bigEndian count n).length = count := by
  rw [bigEndian, length_reverse, length_littleEndian]

theorem beValue_bigEndian : beValue (bigEndian count n) = n % 256 ^ count := by
  rw [bigEndian, beValue_reverse, leValue_littleEndian]

theorem beValue_lt : beValue bytes < 256 ^ bytes.length := by
  have hlt := leValue_lt bytes.reverse
  rwa [← beValue_reverse, reverse_reverse, length_reverse] at hlt

/-! ## Two's complement -/

/-- The integer of a byte string in two's complement, the highest byte first. -/
def signedValue : ℤ :=
  (beValue bytes : ℤ) - if 128 ≤ (bytes.headD 0).toNat then 256 ^ bytes.length else 0

theorem signedValue_singleton (b : UInt8) :
    signedValue [b] = (b.toNat : ℤ) - if 128 ≤ b.toNat then 256 else 0 := by
  simp [signedValue, beValue]

/-- A byte at the end. -/
theorem signedValue_append {bytes : List UInt8} (hne : bytes ≠ []) (b : UInt8) :
    signedValue (bytes ++ [b]) = signedValue bytes * 256 + b.toNat := by
  have hhead : (bytes ++ [b]).headD 0 = bytes.headD 0 := by
    cases bytes with
    | nil => exact absurd rfl hne
    | cons => rfl
  have hvalue : beValue (bytes ++ [b]) = beValue bytes * 256 + b.toNat := by
    rw [beValue, foldl_append]
    rfl
  rw [signedValue, signedValue, hhead, hvalue, length_append, length_singleton]
  push_cast
  split <;> ring

theorem signedValue_bounds {b : UInt8} (rest : List UInt8) :
    -(128 * 256 ^ rest.length) ≤ signedValue (b :: rest) ∧
      signedValue (b :: rest) < 128 * 256 ^ rest.length := by
  have hb := b.toNat_lt
  have hrest : (beValue rest : ℤ) < 256 ^ rest.length := by exact_mod_cast beValue_lt rest
  have hpow : (0 : ℤ) < 256 ^ rest.length := by positivity
  rw [signedValue, beValue_cons, headD_cons, length_cons, pow_succ]
  push_cast
  generalize (256 : ℤ) ^ rest.length = power at hrest hpow ⊢
  split
  · next hsign =>
    have hlow : (128 : ℤ) * power ≤ b.toNat * power :=
      mul_le_mul_of_nonneg_right (by exact_mod_cast hsign) hpow.le
    have hhigh : (b.toNat : ℤ) * power ≤ 255 * power :=
      mul_le_mul_of_nonneg_right (by exact_mod_cast (by omega : b.toNat ≤ 255)) hpow.le
    constructor <;> linarith
  · next hsign =>
    have hlow : (0 : ℤ) ≤ b.toNat * power := by positivity
    have hhigh : (b.toNat : ℤ) * power ≤ 127 * power :=
      mul_le_mul_of_nonneg_right (by exact_mod_cast (by omega : b.toNat ≤ 127)) hpow.le
    constructor <;> linarith

end RanHoneypot.ByteNumbers
