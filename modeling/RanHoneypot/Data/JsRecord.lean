import RanHoneypot.Data.JsText

/-!
# Records of JavaScript

An object that is used as a table from names to values. Its entries are kept in the order in which the
names were first written, and a name has one entry. Writing to a name that is there keeps its place.
Names that are array indices, which the language enumerates first, are not distinguished.
-/

namespace RanHoneypot.Js

open List

structure Record (β : Type) where
  entries : List (JsText × β)
  nodup : (entries.map Prod.fst).Nodup
deriving DecidableEq

namespace Record

variable {β : Type}

@[ext]
theorem ext {r r' : Record β} (h : r.entries = r'.entries) : r = r' := by
  cases r
  cases r'
  cases h
  rfl

def empty : Record β := ⟨[], nodup_nil⟩

def keys (r : Record β) : List JsText := r.entries.map Prod.fst

def get? (r : Record β) (key : JsText) : Option β := r.entries.lookup key

/-- The entries after a write. -/
def setEntries (entries : List (JsText × β)) (key : JsText) (value : β) : List (JsText × β) :=
  if (entries.map Prod.fst).contains key then
    entries.map fun e ↦ if e.1 = key then (key, value) else e
  else entries ++ [(key, value)]

theorem nodup_setEntries {entries : List (JsText × β)} (hnodup : (entries.map Prod.fst).Nodup)
    (key : JsText) (value : β) : ((setEntries entries key value).map Prod.fst).Nodup := by
  unfold setEntries
  split
  · have hnames : (entries.map fun e ↦ if e.1 = key then (key, value) else e).map Prod.fst =
        entries.map Prod.fst := by
      rw [map_map]
      refine map_congr_left fun e _ ↦ ?_
      by_cases he : e.1 = key <;> simp [he]
    rw [hnames]
    exact hnodup
  · next hnew =>
    rw [map_append, map_cons, nodup_append]
    refine ⟨hnodup, nodup_singleton _, fun name hname other hother heq ↦ ?_⟩
    rw [heq, mem_singleton.mp hother] at hname
    exact hnew (contains_iff_mem.mpr hname)

def set (r : Record β) (key : JsText) (value : β) : Record β :=
  ⟨setEntries r.entries key value, nodup_setEntries r.nodup key value⟩

def delete (r : Record β) (key : JsText) : Record β :=
  ⟨r.entries.filter fun e ↦ e.1 != key, r.nodup.sublist (filter_sublist.map Prod.fst)⟩

variable {r r' : Record β} {key other : JsText} {value : β}

theorem lookup_eq_some_iff {entries : List (JsText × β)} (hnodup : (entries.map Prod.fst).Nodup) :
    entries.lookup key = some value ↔ (key, value) ∈ entries := by
  induction entries with
  | nil => simp
  | cons e entries ih =>
    rw [map_cons, nodup_cons] at hnodup
    by_cases hkey : key = e.1
    · have hnot : (key, value) ∉ entries := fun hmem ↦ hnodup.1 (mem_map.mpr ⟨_, hmem, hkey⟩)
      rw [lookup_cons, hkey, beq_self_eq_true, ← hkey, mem_cons, or_iff_left hnot, Prod.ext_iff]
      simp only [hkey, true_and, Option.some_inj]
      exact eq_comm
    · rw [lookup_cons, beq_false_of_ne hkey, ih hnodup.2, mem_cons, or_iff_right]
      exact fun heq ↦ hkey (congrArg Prod.fst heq)

theorem get?_eq_some_iff : r.get? key = some value ↔ (key, value) ∈ r.entries :=
  lookup_eq_some_iff r.nodup

/-- The entries after a write: the written one and those of other names. -/
theorem mem_entries_set {e : JsText × β} :
    e ∈ (r.set key value).entries ↔ e = (key, value) ∨ (e.1 ≠ key ∧ e ∈ r.entries) := by
  change e ∈ setEntries r.entries key value ↔ _
  unfold setEntries
  split
  · next hold =>
    rcases mem_map.mp (contains_iff_mem.mp hold) with ⟨old, hmem, hold⟩
    rw [mem_map]
    constructor
    · intro ⟨d, hd, heq⟩
      by_cases hdkey : d.1 = key
      · rw [if_pos hdkey] at heq
        exact .inl heq.symm
      · rw [if_neg hdkey] at heq
        exact .inr (heq ▸ ⟨hdkey, hd⟩)
    · intro h
      rcases h with h | ⟨hne, he⟩
      · exact ⟨old, hmem, by rw [if_pos hold, h]⟩
      · exact ⟨e, he, if_neg hne⟩
  · next hnew =>
    have hne : e ∈ r.entries → e.1 ≠ key := fun he heq ↦
      hnew (contains_iff_mem.mpr (mem_map.mpr ⟨e, he, heq⟩))
    rw [mem_append, mem_singleton, or_comm]
    exact or_congr_right ⟨fun he ↦ ⟨hne he, he⟩, And.right⟩

theorem mem_entries_delete {e : JsText × β} :
    e ∈ (r.delete key).entries ↔ e.1 ≠ key ∧ e ∈ r.entries := by
  change e ∈ r.entries.filter _ ↔ _
  rw [mem_filter, bne_iff_ne, and_comm]

theorem get?_set : (r.set key value).get? other = if other = key then some value else r.get? other := by
  ext v
  rw [get?_eq_some_iff, mem_entries_set]
  by_cases hkey : other = key
  · simp [hkey, eq_comm]
  · simp [hkey, get?_eq_some_iff]

theorem get?_delete : (r.delete key).get? other = if other = key then none else r.get? other := by
  ext v
  rw [get?_eq_some_iff, mem_entries_delete]
  by_cases hkey : other = key
  · simp [hkey]
  · simp [get?_eq_some_iff]

/-- Records with the same values have the same entries, perhaps in another order. -/
theorem entries_perm (h : ∀ key, r.get? key = r'.get? key) : r.entries.Perm r'.entries := by
  rw [perm_ext_iff_of_nodup r.nodup.of_map r'.nodup.of_map]
  intro e
  rw [← get?_eq_some_iff, ← get?_eq_some_iff, h e.1]

/-! ## Writing a list of entries -/

def setAll (r : Record β) (entries : List (JsText × β)) : Record β :=
  entries.foldl (fun r e ↦ r.set e.1 e.2) r

/-- Entries with new names are appended in their order. -/
theorem entries_setAll {entries : List (JsText × β)} (hnodup : (r.keys ++ entries.map Prod.fst).Nodup) :
    (r.setAll entries).entries = r.entries ++ entries := by
  induction entries generalizing r with
  | nil => simp [setAll]
  | cons e entries ih =>
    have hnew : (r.entries.map Prod.fst).contains e.1 = false := by
      rw [nodup_append] at hnodup
      refine Bool.eq_false_iff.mpr fun hmem ↦ ?_
      exact hnodup.2.2 _ (contains_iff_mem.mp hmem) _ (by simp) rfl
    have hset : (r.set e.1 e.2).entries = r.entries ++ [e] := by
      change setEntries r.entries e.1 e.2 = _
      rw [setEntries, hnew, if_neg Bool.false_ne_true]
    have hrest : ((r.set e.1 e.2).keys ++ entries.map Prod.fst).Nodup := by
      rw [keys, hset, map_append, append_assoc]
      exact hnodup
    calc (r.setAll _).entries
        = ((r.set ..).setAll entries).entries := rfl
      _ = r.entries ++ e :: entries := by
          rw [ih hrest, hset, append_assoc, singleton_append]

theorem foldl_setEntries (r : Record β) (entries : List (JsText × β)) :
    entries.foldl (fun acc e ↦ setEntries acc e.1 e.2) r.entries = (r.setAll entries).entries := by
  induction entries generalizing r with
  | nil => rfl
  | cons e entries ih => exact ih (r.set ..)

/-- A record is what comes from writing its own entries one after the other. -/
theorem setAll_empty (r : Record β) : (empty : Record β).setAll r.entries = r :=
  ext (entries_setAll r.nodup)

end Record

end RanHoneypot.Js
