import RanHoneypot.Data.ByteNumbers
import RanHoneypot.Data.GoText

/-!
# Slices with bounds checks

Indexing and slicing as Go does it: a bound that is out of range makes the program panic. A computation
ends with a value, with an error that it returns, or with a panic. The laws say what an operation gives
when its bounds are the ends of the parts of a slice.
-/

namespace RanHoneypot.GoSlice

open GoText ByteNumbers List

inductive Failure (ε : Type) where
  | panic
  | error (e : ε)
deriving DecidableEq

abbrev Result (ε α : Type) := Except (Failure ε) α

variable {ε : Type}

variable (front : Text) {s : Text} (rest : Text)

/-- Returns an error. -/
def fail {α : Type} (e : ε) : Result ε α := .error (.error e)

/-! ## Operations -/

/-- `s[i]` -/
def byteAt (s : Text) (i : ℤ) : Result ε UInt8 :=
  if 0 ≤ i ∧ i < s.length then .ok (s.getD i.toNat 0) else .error .panic

/-- `s[low:]` -/
def sliceFrom (s : Text) (low : ℤ) : Result ε Text :=
  if 0 ≤ low ∧ low ≤ s.length then .ok (s.drop low.toNat) else .error .panic

/-- `s[low:high]` -/
def slice (s : Text) (low high : ℤ) : Result ε Text :=
  if 0 ≤ low ∧ low ≤ high ∧ high ≤ s.length then .ok ((s.take high.toNat).drop low.toNat)
  else .error .panic

/-- `binary.LittleEndian.Uint32(s)` -/
def uint32LE (s : Text) : Result ε ℕ :=
  if s.length < 4 then .error .panic else .ok (leValue (s.take 4))

/-- `binary.BigEndian.Uint16(s)`, `Uint32(s)`: the number in the first `count` bytes. -/
def uintBE (count : ℕ) (s : Text) : Result ε ℕ :=
  if s.length < count then .error .panic else .ok (beValue (s.take count))

/-- `bytes.IndexByte`, without a position for minus one. -/
def indexByte (b : UInt8) (s : Text) : Option ℕ := s.findIdx? (· = b)

/-! ## Laws -/

theorem byteAt_front (b : UInt8) (rest : Text) :
    (byteAt (front ++ b :: rest) front.length : Result ε UInt8) = .ok b := by
  rw [byteAt, if_pos ⟨Int.natCast_nonneg _, by simp⟩, Int.toNat_natCast, getD_eq_getElem?_getD,
    getElem?_append_right le_rfl, Nat.sub_self]
  rfl

theorem sliceFrom_front : (sliceFrom (front ++ rest) front.length : Result ε Text) = .ok rest := by
  rw [sliceFrom, if_pos ⟨Int.natCast_nonneg _, by simp⟩, Int.toNat_natCast, drop_left]

theorem slice_middle (middle rest : Text) :
    (slice (front ++ (middle ++ rest)) front.length ((front.length + middle.length : ℕ) : ℤ) :
      Result ε Text) = .ok middle := by
  rw [slice, if_pos ⟨Int.natCast_nonneg _, by omega, by simp⟩, Int.toNat_natCast, Int.toNat_natCast,
    take_length_add_append, take_left, drop_left]

theorem slice_front : (slice (front ++ rest) 0 front.length : Result ε Text) = .ok front := by
  rw [slice, if_pos ⟨Int.le_refl _, Int.natCast_nonneg _, by simp⟩, Int.toNat_natCast, take_left]
  rfl

theorem uint32LE_of_le (hs : 4 ≤ s.length) :
    (uint32LE s : Result ε ℕ) = .ok (leValue (s.take 4)) := by
  rw [uint32LE, if_neg (by omega)]

theorem uint32LE_littleEndian {n : ℕ} (hn : n < 2 ^ 32) (rest : Text) :
    (uint32LE (littleEndian 4 n ++ rest) : Result ε ℕ) = .ok n := by
  rw [uint32LE_of_le (by simp), take_left' (length_littleEndian 4 n), leValue_littleEndian,
    Nat.mod_eq_of_lt (by omega)]

theorem uintBE_of_length {count : ℕ} (hs : s.length = count) :
    (uintBE count s : Result ε ℕ) = .ok (beValue s) := by
  rw [uintBE, if_neg (by omega), take_of_length_le (Nat.le_of_eq hs)]

theorem uintBE_bigEndian (count : ℕ) {n : ℕ} (hn : n < 256 ^ count) :
    (uintBE count (bigEndian count n) : Result ε ℕ) = .ok n := by
  rw [uintBE_of_length (length_bigEndian _ n), beValue_bigEndian, Nat.mod_eq_of_lt hn]

theorem byteAt_of_drop {i : ℕ} {b : UInt8} {rest : Text} (hdrop : s.drop i = b :: rest) :
    (byteAt s i : Result ε UInt8) = .ok b := by
  have hlength : (s.take i).length = i := by
    have hlong := congrArg List.length hdrop
    rw [length_drop, length_cons] at hlong
    rw [length_take]
    omega
  have hfront := @byteAt_front ε (s.take i) b rest
  rwa [← hdrop, take_append_drop, hlength] at hfront

/-- A part that stands at a position is the slice from there to its end. -/
theorem slice_of_drop {part rest : Text} {low : ℕ} (hdrop : s.drop low = part ++ rest)
    (hlow : low ≤ s.length) :
    (slice s low ((low + part.length : ℕ) : ℤ) : Result ε Text) = .ok part := by
  have hlength : (s.take low).length = low := by
    rw [length_take]
    omega
  have hmiddle := @slice_middle ε (s.take low) part rest
  rwa [← hdrop, take_append_drop, hlength] at hmiddle

theorem drop_behind {part rest : Text} {low : ℕ} (hdrop : s.drop low = part ++ rest) :
    s.drop (low + part.length) = rest := by
  rw [← drop_drop, hdrop, drop_left]

theorem indexByte_front {b : UInt8} {front : Text} (hfront : b ∉ front) (rest : Text) :
    indexByte b (front ++ b :: rest) = some front.length := by
  induction front with
  | nil => rw [indexByte, nil_append, findIdx?_cons, if_pos (by simp), length_nil]
  | cons c front ih =>
    rw [mem_cons, not_or] at hfront
    have hrest := ih hfront.2
    rw [indexByte] at hrest ⊢
    rw [cons_append, findIdx?_cons, if_neg (by simpa using Ne.symm hfront.1), hrest]
    rfl

/-- Either the byte does not occur, or the text is split at its first occurrence. -/
theorem indexByte_cases (b : UInt8) (s : Text) :
    indexByte b s = none ∨
      ∃ front rest, s = front ++ b :: rest ∧ b ∉ front ∧ indexByte b s = some front.length := by
  by_cases hb : b ∈ s
  · rcases eq_append_cons_of_mem hb with ⟨front, rest, hs, hfront⟩
    refine .inr ⟨front, rest, hs, hfront, ?_⟩
    rw [hs]
    exact indexByte_front hfront _
  · refine .inl ?_
    rw [indexByte, findIdx?_eq_none_iff]
    intro c hc
    rw [decide_eq_false_iff_not]
    intro hcb
    exact hb (hcb ▸ hc)

/-! ## Without a panic -/

/-- A computation that does not panic, and whose value, if it has one, satisfies `P`. -/
def Yields {α : Type} (result : Result ε α) (P : α → Prop) : Prop :=
  match result with
  | .ok a => P a
  | .error .panic => False
  | .error (.error _) => True

namespace Yields

variable {α β : Type} {P : α → Prop} {Q : β → Prop}

variable {result : Result ε α}

theorem ne_panic (h : Yields result P) : result ≠ .error .panic := by
  intro hpanic
  rw [hpanic] at h
  exact h

theorem mono {R : α → Prop} (h : Yields result P) (hR : ∀ a, P a → R a) : Yields result R := by
  cases result with
  | error failure =>
    cases failure with
    | panic | error => exact h
  | ok a => exact hR a h

theorem bind {x : Result ε α} {f : α → Result ε β} (hx : Yields x P) (hf : ∀ a, P a → Yields (f a) Q) :
    Yields (x >>= f) Q := by
  cases x with
  | error failure =>
    cases failure with
    | panic | error => exact hx
  | ok a => exact hf a hx

theorem ite {c : Prop} [Decidable c] {other : Result ε α} (hresult : c → Yields result P)
    (hother : ¬ c → Yields other P) : Yields (if c then result else other) P := by
  split
  · next hc => exact hresult hc
  · next hc => exact hother hc

end Yields

theorem yields_fail {α : Type} (e : ε) (P : α → Prop) : Yields (fail e : Result ε α) P := trivial

theorem yields_byteAt {i : ℤ} (hlow : 0 ≤ i) (hlength : i < s.length) :
    Yields (byteAt s i : Result ε UInt8) fun _ ↦ True := by
  rw [byteAt, if_pos ⟨hlow, hlength⟩]
  trivial

theorem yields_uintBE {count : ℕ} (hs : count ≤ s.length) :
    Yields (uintBE count s : Result ε ℕ) fun _ ↦ True := by
  rw [uintBE, if_neg (by omega)]
  trivial

theorem yields_sliceFrom {low : ℤ} (hlow : 0 ≤ low) (hlength : low ≤ s.length) :
    Yields (sliceFrom s low : Result ε Text) fun rest ↦ (rest.length : ℤ) = s.length - low := by
  rw [sliceFrom, if_pos ⟨hlow, hlength⟩]
  simp only [Yields, length_drop]
  omega

theorem yields_slice {low high : ℤ} (hlow : 0 ≤ low) (hhigh : low ≤ high)
    (hlength : high ≤ s.length) :
    Yields (slice s low high : Result ε Text) fun part ↦ (part.length : ℤ) = high - low := by
  rw [slice, if_pos ⟨hlow, hhigh, hlength⟩]
  simp only [Yields, length_drop, length_take]
  omega

theorem yields_uint32LE (hs : 4 ≤ s.length) :
    Yields (uint32LE s : Result ε ℕ) fun n ↦ n = leValue (s.take 4) := by
  rw [uint32LE_of_le hs]
  rfl

end RanHoneypot.GoSlice
