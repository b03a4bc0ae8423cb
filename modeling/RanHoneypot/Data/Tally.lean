import Mathlib.Algebra.BigOperators.Ring.Finset
import Mathlib.Data.List.AList

/-!
# Counter maps

A map from keys to counters that is incremented and decremented, and that forgets a key whose counter
is used up. `Tallies m held` says that the counters are those of the list `held`: a key is in the map
exactly if it is held, with the number of times it is held. Both operations keep this, and the sum of
all counters is then the length of the list.
-/

namespace RanHoneypot

open List List AList

variable {κ : Type*} [DecidableEq κ]

/-- The counter of a key, which is zero for a key that is not in the map. -/
def counter (m : AList fun _ : κ ↦ ℤ) (k : κ) : ℤ := (m.lookup k).getD 0

/-- `m[k]++`. -/
def increment (m : AList fun _ : κ ↦ ℤ) (k : κ) : AList fun _ : κ ↦ ℤ :=
  m.insert k (counter m k + 1)

/-- `m[k]--`, with the key deleted when its counter is not positive any more. -/
def decrement (m : AList fun _ : κ ↦ ℤ) (k : κ) : AList fun _ : κ ↦ ℤ :=
  if counter m k - 1 ≤ 0 then m.erase k else m.insert k (counter m k - 1)

/-- The sum of all counters. -/
def total (m : AList fun _ : κ ↦ ℤ) : ℤ := (m.entries.map Sigma.snd).sum

/-- The counters of `m` are the multiplicities in `held`. -/
def Tallies (m : AList fun _ : κ ↦ ℤ) (held : List κ) : Prop :=
  ∀ k, m.lookup k = if held.count k = 0 then none else some (held.count k : ℤ)

variable {m : AList fun _ : κ ↦ ℤ} {held held' : List κ} {k : κ}

theorem tallies_empty : Tallies (∅ : AList fun _ : κ ↦ ℤ) [] := by
  intro k
  simp

section

variable (h : Tallies m held)

include h

theorem Tallies.perm (hperm : held.Perm held') : Tallies m held' := by
  intro k
  rw [← hperm.count_eq]
  exact h k

theorem Tallies.counter_eq (k : κ) : counter m k = held.count k := by
  rw [counter, h k]
  split
  · next hzero => simp [hzero]
  · rfl

theorem Tallies.increment (k : κ) : Tallies (increment m k) (k :: held) := by
  intro other
  rw [RanHoneypot.increment, h.counter_eq]
  by_cases hother : other = k
  · rw [hother, lookup_insert]
    simp
  · rw [lookup_insert_ne hother, h other, count_cons_of_ne (Ne.symm hother)]

theorem Tallies.decrement (hk : k ∈ held) : Tallies (decrement m k) (held.erase k) := by
  have hpos : 0 < held.count k := count_pos_iff.mpr hk
  intro other
  rw [RanHoneypot.decrement, h.counter_eq]
  by_cases hother : other = k
  · rw [hother, count_erase_self]
    by_cases hlast : held.count k = 1
    · rw [if_pos (by omega), lookup_erase, if_pos (by omega)]
    · rw [if_neg (by omega), lookup_insert, if_neg (by omega)]
      congr 1
      omega
  · rw [count_erase_of_ne hother, ← h other]
    split
    · exact lookup_erase_ne hother
    · exact lookup_insert_ne hother

theorem Tallies.mem_iff (k : κ) : k ∈ m ↔ k ∈ held := by
  rw [← lookup_isSome, h k, ← count_pos_iff]
  split
  · next hzero => simp [hzero]
  · next hpos => simp [Nat.pos_of_ne_zero hpos]

/-- No counter in the map is zero or negative. -/
theorem Tallies.pos {n : ℤ} (hlookup : m.lookup k = some n) : 0 < n := by
  rw [h k] at hlookup
  split at hlookup
  · cases hlookup
  · next hpos =>
    cases hlookup
    omega

/-- The counters add up to the number of all that is held. -/
theorem Tallies.total_eq : total m = held.length := by
  have hvalues : m.entries.map Sigma.snd = m.keys.map fun k ↦ (held.count k : ℤ) := by
    rw [AList.keys, List.keys, map_map]
    apply map_congr_left
    intro entry hentry
    have hlookup : m.lookup entry.1 = some entry.2 := AList.mem_lookup_iff.mpr hentry
    have hcounter := h.counter_eq entry.1
    rw [counter, hlookup] at hcounter
    exact hcounter
  have hkeys : m.keys.Perm held.dedup := by
    apply (perm_ext_iff_of_nodup m.keys_nodup held.nodup_dedup).mpr
    intro k
    rw [← AList.mem_keys, h.mem_iff, mem_dedup]
  calc total m = (m.keys.map fun k ↦ (held.count k : ℤ)).sum := by rw [total, hvalues]
    _ = (held.dedup.map fun k ↦ (held.count k : ℤ)).sum := (hkeys.map _).sum_eq
    _ = ((held.dedup.map fun k ↦ held.count k).sum : ℕ) := by
      rw [Nat.cast_list_sum, map_map]
      rfl
    _ = held.length := by rw [sum_map_count_dedup_eq_length]

end

end RanHoneypot
