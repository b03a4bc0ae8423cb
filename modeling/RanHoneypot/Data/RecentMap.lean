import Mathlib.Data.Finset.Card
import Mathlib.Data.List.AList
import RanHoneypot.Data.GoTime

/-!
# Keys with the time of their last touch

A map from keys to clock readings. Keys that were not touched within a window are expired. The
number of keys that are left is compared with the distinct keys of a history.
-/

namespace RanHoneypot

/-- `map[κ]time.Time`. -/
abbrev RecentMap (κ : Type*) := AList (fun _ : κ ↦ ℕ)

namespace RecentMap

variable {κ : Type*}

/-- Deletes the keys that were last touched `window` ago or earlier. -/
def expire (window : ℤ) (now : ℕ) (recent : RecentMap κ) : RecentMap κ where
  entries := recent.entries.filter fun entry ↦ decide (since now entry.2 < window)
  nodupKeys := List.NodupKeys.sublist List.filter_sublist recent.nodupKeys

def size (recent : RecentMap κ) : ℕ := recent.entries.length

theorem size_expire_le (recent : RecentMap κ) (window : ℤ) (now : ℕ) :
    (recent.expire window now).size ≤ recent.size :=
  List.length_filter_le _ _

variable [DecidableEq κ] {recent : RecentMap κ} {window : ℤ} {now : ℕ}

variable (k : κ) (at' : ℕ)

def touch (recent : RecentMap κ) (k : κ) (at' : ℕ) : RecentMap κ := recent.insert k at'

theorem lookup_expire_iff :
    (recent.expire window now).lookup k = some at' ↔
      recent.lookup k = some at' ∧ since now at' < window := by
  have hmem (other : RecentMap κ) : other.lookup k = some at' ↔ ⟨k, at'⟩ ∈ other.entries :=
    AList.mem_lookup_iff
  rw [hmem, hmem]
  simp [expire]

/-- The keys as a finite set. -/
def keySet (recent : RecentMap κ) : Finset κ := recent.keys.toFinset

theorem card_keySet (recent : RecentMap κ) : recent.keySet.card = recent.size := by
  unfold keySet size
  rw [List.toFinset_card_of_nodup recent.keys_nodup]
  exact List.length_map _

theorem mem_keySet_iff : k ∈ recent.keySet ↔ ∃ at', recent.lookup k = some at' := by
  unfold keySet
  rw [List.mem_toFinset, ← AList.mem_keys, ← AList.lookup_isSome, Option.isSome_iff_exists]

theorem lookup_touch_iff (k' : κ) (at' at'' : ℕ) :
    (recent.touch k at').lookup k' = some at'' ↔
      (k' = k ∧ at'' = at') ∨ (k' ≠ k ∧ recent.lookup k' = some at'') := by
  unfold touch
  by_cases hk : k' = k
  · subst hk
    simp [eq_comm]
  · simp [hk]

theorem keySet_touch : (recent.touch k at').keySet = insert k recent.keySet := by
  ext k'
  rw [Finset.mem_insert, mem_keySet_iff, mem_keySet_iff]
  simp only [lookup_touch_iff]
  by_cases hk : k' = k
  · simp [hk]
  · simp [hk]

theorem size_touch_le : (recent.touch k at').size ≤ recent.size + 1 := by
  rw [← card_keySet, ← card_keySet, keySet_touch]
  exact Finset.card_insert_le k _

theorem size_touch_of_mem {k : κ} (hk : k ∈ recent) (at' : ℕ) :
    (recent.touch k at').size = recent.size := by
  have hmem : k ∈ recent.keySet := List.mem_toFinset.mpr hk
  rw [← card_keySet, ← card_keySet, keySet_touch, Finset.insert_eq_of_mem hmem]

end RecentMap

end RanHoneypot
