import Mathlib.Data.List.AList
import Mathlib.Data.List.Perm.Subperm
import Mathlib.Data.List.Dedup

/-!
# Hash maps into linked lists

A bounded tracking table keeps its entries in a doubly linked list and a hash map from keys to
list elements, so that lookup, eviction of the oldest entry and moving an entry to the back are
all constant time. The two structures are updated by separate statements. This module keeps them
separate as well: a list element has an identity of its own, the map stores identities, and
`WF` says when the two agree. Under `WF` the table is a finite map (`get?`) with an order (`vals`),
and each operation has one rule for either view.
-/

namespace RanHoneypot

open List

/-- A list element: its identity (the pointer) and the entry it holds. -/
structure Node (ε : Type*) where
  id : ℕ
  val : ε
deriving DecidableEq

/-- A map from keys to elements and the linked list of these elements, front first. -/
structure IndexedList (κ ε : Type*) where
  index : AList (fun _ : κ ↦ ℕ)
  nodes : List (Node ε)
  fresh : ℕ

namespace IndexedList

variable {κ ε : Type*}

def empty : IndexedList κ ε := ⟨∅, [], 0⟩

def vals (table : IndexedList κ ε) : List ε := table.nodes.map Node.val

/-- The size of the hash map. -/
def len (table : IndexedList κ ε) : ℕ := table.index.keys.length

/-- Following a pointer. -/
def deref (table : IndexedList κ ε) (id : ℕ) : Option ε :=
  (table.nodes.find? fun node ↦ node.id == id).map Node.val

def front? (table : IndexedList κ ε) : Option (Node ε) := table.nodes.head?

/-- Writing through a pointer. -/
def modify (table : IndexedList κ ε) (id : ℕ) (f : ε → ε) : IndexedList κ ε :=
  { table with nodes := table.nodes.map fun node ↦ if node.id = id then ⟨id, f node.val⟩ else node }

def moveToBack (table : IndexedList κ ε) (id : ℕ) : IndexedList κ ε :=
  { table with nodes := (table.nodes.filter fun node ↦ node.id ≠ id) ++
      table.nodes.filter fun node ↦ node.id = id }

variable [DecidableEq κ]

/-- Looking a key up in the map and following the pointer. -/
def node? (table : IndexedList κ ε) (k : κ) : Option (Node ε) :=
  (table.index.lookup k).bind fun id ↦ table.nodes.find? fun node ↦ node.id == id

def get? (table : IndexedList κ ε) (k : κ) : Option ε := (table.node? k).map Node.val

/-- A new element at the back, entered in the map under `k`. -/
def pushBack (table : IndexedList κ ε) (k : κ) (entry : ε) : IndexedList κ ε where
  index := table.index.insert k table.fresh
  nodes := table.nodes ++ [⟨table.fresh, entry⟩]
  fresh := table.fresh + 1

/-- Deleting `k` from the map and the element `id` from the list. -/
def remove (table : IndexedList κ ε) (k : κ) (id : ℕ) : IndexedList κ ε where
  index := table.index.erase k
  nodes := table.nodes.filter fun node ↦ node.id ≠ id
  fresh := table.fresh

theorem keys_remove_subset (table : IndexedList κ ε) (k : κ) (id : ℕ) :
    (table.remove k id).index.keys ⊆ table.index.keys := by
  rw [remove, AList.keys_erase]
  exact erase_subset

theorem keys_pushBack_subset (table : IndexedList κ ε) (k : κ) (entry : ε) :
    (table.pushBack k entry).index.keys ⊆ k :: table.index.keys := by
  rw [pushBack, AList.keys_insert]
  exact cons_subset_cons k erase_subset

/-- The map holds exactly the elements of the list, each under the key of its entry. -/
structure WF (key : ε → κ) (table : IndexedList κ ε) : Prop where
  ids_nodup : (table.nodes.map Node.id).Nodup
  id_lt_fresh : ∀ node ∈ table.nodes, node.id < table.fresh
  lookup_iff : ∀ k id, table.index.lookup k = some id ↔
    ∃ node ∈ table.nodes, node.id = id ∧ key node.val = k

variable {key : ε → κ} {table : IndexedList κ ε}

theorem empty_wf : (empty : IndexedList κ ε).WF key where
  ids_nodup := nodup_nil
  id_lt_fresh := by simp [empty]
  lookup_iff := by simp [empty]

/-! ## The table as a finite map -/

section

variable {left right : Node ε} (hwf : table.WF key) (hleft : left ∈ table.nodes)
  (hright : right ∈ table.nodes)

include hwf hleft hright

theorem WF.eq_of_id_eq (hid : left.id = right.id) : left = right :=
  inj_on_of_nodup_map hwf.ids_nodup hleft hright hid

theorem WF.eq_of_key_eq (hkey : key left.val = key right.val) : left = right := by
  have hleftId := (hwf.lookup_iff ..).mpr ⟨left, hleft, rfl, rfl⟩
  have hrightId := (hwf.lookup_iff ..).mpr ⟨right, hright, rfl, hkey.symm⟩
  rw [hleftId] at hrightId
  exact hwf.eq_of_id_eq hleft hright (Option.some.inj hrightId)

end

section

variable (hwf : table.WF key)

include hwf

theorem WF.find_id_iff (id : ℕ) (node : Node ε) :
    (table.nodes.find? fun node ↦ node.id == id) = some node ↔
      node ∈ table.nodes ∧ node.id = id := by
  constructor
  · intro hfind
    exact ⟨mem_of_find?_eq_some hfind, by simpa using find?_some hfind⟩
  · rintro ⟨hmem, hid⟩
    cases hfind : table.nodes.find? fun node ↦ node.id == id with
    | none =>
      have hnone := find?_eq_none.mp hfind node hmem
      simp [hid] at hnone
    | some found =>
      have hfound : found.id = id := by simpa using find?_some hfind
      rw [hwf.eq_of_id_eq (mem_of_find?_eq_some hfind) hmem (hfound.trans hid.symm)]

theorem WF.node?_iff (k : κ) (node : Node ε) :
    table.node? k = some node ↔ node ∈ table.nodes ∧ key node.val = k := by
  unfold node?
  rw [Option.bind_eq_some_iff]
  constructor
  · rintro ⟨id, hlookup, hfind⟩
    obtain ⟨hmem, hid⟩ := (hwf.find_id_iff id node).mp hfind
    obtain ⟨other, hother, hotherId, hkey⟩ := (hwf.lookup_iff k id).mp hlookup
    rw [hwf.eq_of_id_eq hmem hother (hid.trans hotherId.symm)]
    exact ⟨hother, hkey⟩
  · rintro ⟨hmem, hkey⟩
    exact ⟨node.id, (hwf.lookup_iff k _).mpr ⟨node, hmem, rfl, hkey⟩,
      (hwf.find_id_iff ..).mpr ⟨hmem, rfl⟩⟩

theorem WF.node?_eq_none_iff (k : κ) :
    table.node? k = none ↔ ∀ node ∈ table.nodes, key node.val ≠ k := by
  rw [Option.eq_none_iff_forall_ne_some]
  constructor
  · intro hnone node hmem hkey
    exact hnone node ((hwf.node?_iff k _).mpr ⟨hmem, hkey⟩)
  · intro hkeys node hsome
    obtain ⟨hmem, hkey⟩ := (hwf.node?_iff k _).mp hsome
    exact hkeys node hmem hkey

theorem WF.get?_iff (k : κ) (entry : ε) :
    table.get? k = some entry ↔ entry ∈ table.vals ∧ key entry = k := by
  unfold get? vals
  simp only [Option.map_eq_some_iff, hwf.node?_iff, mem_map]
  constructor
  · rintro ⟨node, ⟨hmem, hkey⟩, rfl⟩
    exact ⟨⟨node, hmem, rfl⟩, hkey⟩
  · rintro ⟨⟨node, hmem, rfl⟩, hkey⟩
    exact ⟨node, ⟨hmem, hkey⟩, rfl⟩

theorem WF.get?_eq_none_iff (k : κ) :
    table.get? k = none ↔ ∀ entry ∈ table.vals, key entry ≠ k := by
  unfold get? vals
  simp [hwf.node?_eq_none_iff]

theorem WF.deref_iff (id : ℕ) (entry : ε) :
    table.deref id = some entry ↔ ⟨id, entry⟩ ∈ table.nodes := by
  unfold deref
  simp only [Option.map_eq_some_iff, hwf.find_id_iff]
  constructor
  · rintro ⟨node, ⟨hmem, rfl⟩, rfl⟩
    exact hmem
  · intro hmem
    exact ⟨⟨id, entry⟩, ⟨hmem, rfl⟩, rfl⟩

theorem WF.get?_of_mem {node : Node ε} (hmem : node ∈ table.nodes) :
    table.get? (key node.val) = some node.val :=
  (hwf.get?_iff _ _).mpr ⟨mem_map_of_mem hmem, rfl⟩

theorem WF.keys_nodup : (table.vals.map key).Nodup := by
  unfold vals
  rw [map_map]
  apply List.Nodup.map_on _ (List.Nodup.of_map _ hwf.ids_nodup)
  intro left hleft right hright hkey
  exact hwf.eq_of_key_eq hleft hright hkey

theorem WF.mem_keys_iff (k : κ) : k ∈ table.index.keys ↔ k ∈ table.vals.map key := by
  rw [← AList.mem_keys, ← AList.lookup_isSome, Option.isSome_iff_exists]
  unfold vals
  simp only [hwf.lookup_iff, map_map, mem_map]
  constructor
  · rintro ⟨id, node, hmem, _, hkey⟩
    exact ⟨node, hmem, hkey⟩
  · rintro ⟨node, hmem, hkey⟩
    exact ⟨node.id, node, hmem, rfl, hkey⟩

/-- The map and the list hold the same keys. -/
theorem WF.keys_perm : table.index.keys.Perm (table.vals.map key) :=
  (perm_ext_iff_of_nodup table.index.keys_nodup hwf.keys_nodup).mpr hwf.mem_keys_iff

theorem WF.len_eq : table.len = table.vals.length := by
  unfold len
  rw [hwf.keys_perm.length_eq, length_map]

end

/-! ## Operations -/

omit [DecidableEq κ] in
theorem mem_modify_iff (id : ℕ) (f : ε → ε) (node : Node ε) :
    node ∈ (table.modify id f).nodes ↔
      ∃ old ∈ table.nodes, (if old.id = id then ⟨id, f old.val⟩ else old) = node := by
  exact mem_map

omit [DecidableEq κ] in
/-- A write is invisible to a function that it leaves alone. -/
theorem map_vals_modify {τ : Type*} (id : ℕ) {f : ε → ε} {g : ε → τ}
    (hsame : ∀ entry, g (f entry) = g entry) :
    (table.modify id f).vals.map g = table.vals.map g := by
  unfold vals modify
  simp only [map_map]
  apply map_congr_left
  intro node _
  simp only [Function.comp_apply]
  split
  · exact hsame node.val
  · rfl

omit [DecidableEq κ] in
theorem mem_moveToBack_iff (id : ℕ) (node : Node ε) :
    node ∈ (table.moveToBack id).nodes ↔ node ∈ table.nodes := by
  unfold moveToBack
  simp only [mem_append, mem_filter, decide_eq_true_eq]
  tauto

theorem mem_pushBack_iff (k : κ) (entry : ε) (node : Node ε) :
    node ∈ (table.pushBack k entry).nodes ↔ node ∈ table.nodes ∨ node = ⟨table.fresh, entry⟩ := by
  simp [pushBack]

theorem mem_remove_iff (k : κ) (id : ℕ) (node : Node ε) :
    node ∈ (table.remove k id).nodes ↔ node ∈ table.nodes ∧ node.id ≠ id := by
  simp [remove]

section

variable (hwf : table.WF key)

include hwf

theorem WF.modify (id : ℕ) {f : ε → ε}
    (hkey : ∀ node ∈ table.nodes, node.id = id → key (f node.val) = key node.val) :
    (table.modify id f).WF key where
  ids_nodup := by
    have hids : (table.modify id f).nodes.map Node.id = table.nodes.map Node.id := by
      unfold IndexedList.modify
      rw [map_map]
      apply map_congr_left
      intro node _
      by_cases hid : node.id = id <;> simp [hid]
    rw [hids]
    exact hwf.ids_nodup
  id_lt_fresh := by
    intro node hmem
    obtain ⟨old, hold, rfl⟩ := (mem_modify_iff id f node).mp hmem
    have hlt := hwf.id_lt_fresh old hold
    by_cases hid : old.id = id
    · simpa [hid] using hid ▸ hlt
    · simpa [hid, IndexedList.modify] using hlt
  lookup_iff := by
    intro k id'
    change table.index.lookup k = some id' ↔ _
    rw [hwf.lookup_iff]
    constructor
    · rintro ⟨node, hmem, hid', hnode⟩
      refine ⟨_, (mem_modify_iff id f _).mpr ⟨node, hmem, rfl⟩, ?_, ?_⟩
      · by_cases hid : node.id = id <;> simp [hid, ← hid']
      · by_cases hid : node.id = id
        · simpa [hid] using (hkey node hmem hid).trans hnode
        · simpa [hid] using hnode
    · rintro ⟨node, hmem, hid', hnode⟩
      obtain ⟨old, hold, rfl⟩ := (mem_modify_iff id f node).mp hmem
      refine ⟨old, hold, ?_, ?_⟩
      · by_cases hid : old.id = id <;> simpa [hid] using hid'
      · by_cases hid : old.id = id
        · rw [← hkey old hold hid]
          simpa [hid] using hnode
        · simpa [hid] using hnode

theorem WF.moveToBack (id : ℕ) : (table.moveToBack id).WF key where
  ids_nodup := by
    have hperm : ((table.nodes.filter fun node ↦ node.id ≠ id) ++
        table.nodes.filter fun node ↦ node.id = id).Perm table.nodes := by
      have hsplit := filter_append_perm (fun node : Node ε ↦ decide (node.id ≠ id)) table.nodes
      simpa only [decide_not, Bool.not_not] using hsplit
    exact (hperm.map _).nodup_iff.mpr hwf.ids_nodup
  id_lt_fresh := by
    intro node hmem
    exact hwf.id_lt_fresh _ ((mem_moveToBack_iff id node).mp hmem)
  lookup_iff := by
    intro k id'
    simp only [mem_moveToBack_iff]
    exact hwf.lookup_iff k _

theorem WF.pushBack {entry : ε} (hnew : ∀ node ∈ table.nodes, key node.val ≠ key entry) :
    (table.pushBack (key entry) entry).WF key where
  ids_nodup := by
    simp only [IndexedList.pushBack, map_append, map_cons]
    apply hwf.ids_nodup.append (nodup_singleton _)
    intro id hmem hfresh
    obtain ⟨node, hnode, rfl⟩ := mem_map.mp hmem
    have hlt := hwf.id_lt_fresh node hnode
    simp only [mem_singleton] at hfresh
    omega
  id_lt_fresh := by
    intro node hmem
    rcases (mem_pushBack_iff ..).mp hmem with hold | rfl
    · exact Nat.lt_succ_of_lt (hwf.id_lt_fresh _ hold)
    · exact Nat.lt_succ_self _
  lookup_iff := by
    intro k id
    simp only [mem_pushBack_iff]
    by_cases hk : k = key entry
    · subst hk
      simp only [IndexedList.pushBack, AList.lookup_insert, Option.some.injEq]
      constructor
      · rintro rfl
        exact ⟨_, .inr rfl, rfl, rfl⟩
      · rintro ⟨node, hold | rfl, hid, hkey⟩
        · exact absurd hkey (hnew node hold)
        · exact hid
    · simp only [IndexedList.pushBack, AList.lookup_insert_ne hk, hwf.lookup_iff]
      constructor
      · rintro ⟨node, hold, hid, hkey⟩
        exact ⟨node, .inl hold, hid, hkey⟩
      · rintro ⟨node, hold | rfl, hid, hkey⟩
        · exact ⟨node, hold, hid, hkey⟩
        · exact absurd hkey.symm hk

theorem WF.remove {node : Node ε} (hmem : node ∈ table.nodes) :
    (table.remove (key node.val) node.id).WF key where
  ids_nodup := hwf.ids_nodup.sublist (filter_sublist.map _)
  id_lt_fresh := by
    intro other hother
    exact hwf.id_lt_fresh _ ((mem_remove_iff ..).mp hother).1
  lookup_iff := by
    intro k id
    simp only [mem_remove_iff]
    by_cases hk : k = key node.val
    · subst hk
      simp only [IndexedList.remove, AList.lookup_erase, reduceCtorEq, false_iff]
      rintro ⟨other, ⟨hother, hne⟩, _, hkey⟩
      exact hne (congrArg _ (hwf.eq_of_key_eq hother hmem hkey))
    · simp only [IndexedList.remove, AList.lookup_erase_ne hk, hwf.lookup_iff]
      constructor
      · rintro ⟨other, hother, hid, hkey⟩
        refine ⟨other, ⟨hother, fun heq ↦ hk ?_⟩, hid, hkey⟩
        rw [← hkey, hwf.eq_of_id_eq hother hmem heq]
      · rintro ⟨other, ⟨hother, _⟩, hid, hkey⟩
        exact ⟨other, hother, hid, hkey⟩

end

/-! ## The entries held after each operation -/

variable {node : Node ε}

omit [DecidableEq κ] in
theorem mem_vals_iff {entry : ε} : entry ∈ table.vals ↔ ∃ node ∈ table.nodes, node.val = entry :=
  mem_map

omit [DecidableEq κ] in
theorem mem_vals_moveToBack_iff (id : ℕ) (entry : ε) :
    entry ∈ (table.moveToBack id).vals ↔ entry ∈ table.vals := by
  simp only [mem_vals_iff, mem_moveToBack_iff]

theorem mem_vals_pushBack_iff (k : κ) (entry other : ε) :
    other ∈ (table.pushBack k entry).vals ↔ other ∈ table.vals ∨ other = entry := by
  simp [vals, pushBack]

section

variable (hwf : table.WF key) (hmem : node ∈ table.nodes)

include hwf hmem

theorem WF.deref_of_mem : table.deref node.id = some node.val := (hwf.deref_iff ..).mpr hmem

theorem WF.eq_val_iff {entry : ε} (hentry : entry ∈ table.vals) :
    entry = node.val ↔ key entry = key node.val := by
  rcases mem_vals_iff.mp hentry with ⟨other, hother, rfl⟩
  exact ⟨congrArg key, fun hkey ↦ congrArg _ (hwf.eq_of_key_eq hother hmem hkey)⟩

theorem WF.mem_nodes_modify_iff (f : ε → ε) (other : Node ε) :
    other ∈ (table.modify node.id f).nodes ↔
      (other ∈ table.nodes ∧ other.id ≠ node.id) ∨ other = ⟨node.id, f node.val⟩ := by
  rw [mem_modify_iff]
  constructor
  · rintro ⟨old, hold, rfl⟩
    by_cases hid : old.id = node.id
    · rw [hwf.eq_of_id_eq hold hmem hid]
      exact .inr (if_pos rfl)
    · rw [if_neg hid]
      exact .inl ⟨hold, hid⟩
  · rintro (⟨hold, hid⟩ | rfl)
    · exact ⟨other, hold, if_neg hid⟩
    · exact ⟨node, hmem, if_pos rfl⟩

theorem WF.mem_others_iff (entry : ε) :
    (∃ other, (other ∈ table.nodes ∧ other.id ≠ node.id) ∧ other.val = entry) ↔
      entry ∈ table.vals ∧ entry ≠ node.val := by
  constructor
  · rintro ⟨other, ⟨hother, hne⟩, rfl⟩
    refine ⟨mem_map_of_mem hother, fun heq ↦ hne ?_⟩
    exact congrArg _ (hwf.eq_of_key_eq hother hmem (congrArg key heq))
  · rintro ⟨hentry, hne⟩
    rcases mem_vals_iff.mp hentry with ⟨other, hother, rfl⟩
    exact ⟨other, ⟨hother, fun hid ↦ hne (congrArg _ (hwf.eq_of_id_eq hother hmem hid))⟩, rfl⟩

theorem WF.mem_vals_remove_iff (entry : ε) :
    entry ∈ (table.remove (key node.val) node.id).vals ↔ entry ∈ table.vals ∧ entry ≠ node.val := by
  rw [← hwf.mem_others_iff hmem]
  simp only [mem_vals_iff, mem_remove_iff]

theorem WF.mem_vals_modify_iff (f : ε → ε) (entry : ε) :
    entry ∈ (table.modify node.id f).vals ↔
      (entry ∈ table.vals ∧ entry ≠ node.val) ∨ entry = f node.val := by
  rw [← hwf.mem_others_iff hmem]
  simp only [mem_vals_iff, hwf.mem_nodes_modify_iff hmem, or_and_right, exists_or, exists_eq_left,
    eq_comm]

end

/-! ## The map view of each operation -/

section

variable (hwf : table.WF key)

include hwf

theorem WF.get?_eq_some {entry : ε} (hentry : entry ∈ table.vals) :
    table.get? (key entry) = some entry :=
  (hwf.get?_iff ..).mpr ⟨hentry, rfl⟩

/-- A lookup depends on the entries with its key only. -/
theorem WF.get?_congr {table' : IndexedList κ ε} (hwf' : table'.WF key) {k : κ}
    (hvals : ∀ entry, key entry = k → (entry ∈ table'.vals ↔ entry ∈ table.vals)) :
    table'.get? k = table.get? k := by
  ext entry
  rw [hwf'.get?_iff, hwf.get?_iff]
  exact and_congr_left (hvals entry)

theorem WF.get?_modify (hmem : node ∈ table.nodes) {f : ε → ε}
    (hkey : key (f node.val) = key node.val) (k : κ) :
    (table.modify node.id f).get? k = if k = key node.val then some (f node.val) else table.get? k := by
  have hwf' : (table.modify node.id f).WF key := by
    apply hwf.modify
    intro other hother hid
    rw [hwf.eq_of_id_eq hother hmem hid, hkey]
  split
  · next hk =>
    rw [hk, ← hkey]
    exact hwf'.get?_eq_some ((hwf.mem_vals_modify_iff hmem ..).mpr (.inr rfl))
  · next hk =>
    apply hwf.get?_congr hwf'
    rintro entry rfl
    rw [hwf.mem_vals_modify_iff hmem, or_iff_left, and_iff_left]
    · exact fun heq ↦ hk (congrArg key heq)
    · exact fun heq ↦ hk ((congrArg key heq).trans hkey)

theorem WF.get?_moveToBack (id : ℕ) (k : κ) : (table.moveToBack id).get? k = table.get? k :=
  hwf.get?_congr (hwf.moveToBack id) fun entry _ ↦ mem_vals_moveToBack_iff id entry

theorem WF.get?_pushBack {entry : ε} (hnew : ∀ node ∈ table.nodes, key node.val ≠ key entry) (k : κ) :
    (table.pushBack (key entry) entry).get? k =
      if k = key entry then some entry else table.get? k := by
  split
  · next hk =>
    rw [hk]
    exact (hwf.pushBack hnew).get?_eq_some ((mem_vals_pushBack_iff ..).mpr (.inr rfl))
  · next hk =>
    apply hwf.get?_congr (hwf.pushBack hnew)
    rintro other rfl
    rw [mem_vals_pushBack_iff, or_iff_left]
    exact fun heq ↦ hk (congrArg key heq)

theorem WF.key_ne_of_mem_remove (hmem : node ∈ table.nodes) {entry : ε}
    (hentry : entry ∈ (table.remove (key node.val) node.id).vals) : key entry ≠ key node.val := by
  rcases (hwf.mem_vals_remove_iff hmem _).mp hentry with ⟨hold, hne⟩
  exact fun hkey ↦ hne ((hwf.eq_val_iff hmem hold).mpr hkey)

theorem WF.get?_remove (hmem : node ∈ table.nodes) (k : κ) :
    (table.remove (key node.val) node.id).get? k =
      if k = key node.val then none else table.get? k := by
  split
  · next hk =>
    rw [hk, (hwf.remove hmem).get?_eq_none_iff]
    intro entry hentry
    exact hwf.key_ne_of_mem_remove hmem hentry
  · next hk =>
    apply hwf.get?_congr (hwf.remove hmem)
    rintro entry rfl
    rw [hwf.mem_vals_remove_iff hmem, and_iff_left]
    exact fun heq ↦ hk (congrArg key heq)

end

theorem WF.filter_id (hwf : table.WF key) (hmem : node ∈ table.nodes) :
    table.nodes.filter (fun other ↦ other.id = node.id) = [node] := by
  have hids := hwf.ids_nodup
  generalize table.nodes = nodes at hids hmem
  induction nodes with
  | nil => cases hmem
  | cons head rest ih =>
    rw [map_cons, nodup_cons] at hids
    rcases mem_cons.mp hmem with rfl | hrest
    · have hnone : rest.filter (fun other ↦ other.id = node.id) = [] := by
        rw [filter_eq_nil_iff]
        intro other hother heq
        exact hids.1 (of_decide_eq_true heq ▸ mem_map_of_mem hother)
      rw [filter_cons_of_pos (by simp), hnone]
    · have hne : head.id ≠ node.id := fun heq ↦ hids.1 (heq ▸ mem_map_of_mem hrest)
      rw [filter_cons_of_neg (by simpa using hne)]
      exact ih hids.2 hrest

/-- Writing to an element and moving it to the back: the others keep their order. -/
theorem WF.vals_modify_moveToBack (hwf : table.WF key) (hmem : node ∈ table.nodes) (f : ε → ε) :
    ((table.modify node.id f).moveToBack node.id).vals =
      (table.remove (key node.val) node.id).vals ++ [f node.val] := by
  have hid (other : Node ε) :
      (if other.id = node.id then (⟨node.id, f other.val⟩ : Node ε) else other).id = other.id := by
    split
    · next heq => exact heq.symm
    · rfl
  have hothers : (table.modify node.id f).nodes.filter (fun other ↦ other.id ≠ node.id) =
      table.nodes.filter fun other ↦ other.id ≠ node.id := by
    simp only [IndexedList.modify, filter_map, Function.comp_def, hid]
    conv_rhs => rw [← map_id (table.nodes.filter fun other ↦ other.id ≠ node.id)]
    apply map_congr_left
    intro other hother
    rw [if_neg (by simpa using (mem_filter.mp hother).2)]
    rfl
  have hself : (table.modify node.id f).nodes.filter (fun other ↦ other.id = node.id) =
      [⟨node.id, f node.val⟩] := by
    simp only [IndexedList.modify, filter_map, Function.comp_def, hid, hwf.filter_id hmem,
      map_cons, map_nil, if_true]
  unfold vals
  simp only [IndexedList.moveToBack, IndexedList.remove, hothers, hself, map_append, map_cons, map_nil]

omit [DecidableEq κ] in
theorem length_modify_moveToBack (id : ℕ) (f : ε → ε) :
    ((table.modify id f).moveToBack id).vals.length = table.vals.length := by
  have hperm := filter_append_perm (fun node : Node ε ↦ decide (node.id ≠ id))
    (table.modify id f).nodes
  simp only [decide_not, Bool.not_not] at hperm
  simp only [vals, length_map, moveToBack, decide_not, hperm.length_eq]
  exact length_map _

/-- Removing the element that was just pushed. -/
theorem WF.remove_pushBack_vals (hwf : table.WF key) (k : κ) (entry : ε) :
    ((table.pushBack k entry).remove k table.fresh).vals = table.vals := by
  have hkeep : table.nodes.filter (fun node ↦ node.id ≠ table.fresh) = table.nodes := by
    apply filter_eq_self.mpr
    intro node hmem
    simpa using ne_of_lt (hwf.id_lt_fresh _ hmem)
  simp only [vals, IndexedList.remove, IndexedList.pushBack, filter_append, hkeep]
  simp

end IndexedList

end RanHoneypot
