import RanHoneypot.Data.IndexedList

/-!
# Expiry and eviction

A bounded table drops stale entries lazily: a sweep removes entries from the front of the list up to
the first one that is not stale. A full table is swept before a new entry is pushed, and if that
frees no slot, the oldest entry is evicted. `Drops` is what such operations have in common: they
lose entries and change nothing else.
-/

namespace RanHoneypot.IndexedList

variable {κ ε : Type*} [DecidableEq κ]

/-- The loop of `sweepFront`, with a bound on its rounds. Returns the dropped entries as well. -/
def sweepLoop (key : ε → κ) (stale : ε → Bool) : ℕ → IndexedList κ ε → IndexedList κ ε × List ε
  | 0, table => (table, [])
  | rounds + 1, table =>
    match table.front? with
    | none => (table, [])
    | some node =>
      if stale node.val then
        let (swept, rest) := sweepLoop key stale rounds (table.remove (key node.val) node.id)
        (swept, node.val :: rest)
      else (table, [])

/-- Removes stale entries from the front, up to the first one that is not stale. -/
def sweepFront (key : ε → κ) (stale : ε → Bool) (table : IndexedList κ ε) :
    IndexedList κ ε × List ε :=
  sweepLoop key stale table.nodes.length table

/-- Sweeps a table and evicts the oldest entry if the table is still full. -/
def makeRoom (key : ε → κ) (stale : ε → Bool) (capacity : ℤ) (table : IndexedList κ ε) :
    IndexedList κ ε × Option ε :=
  let swept := (table.sweepFront key stale).1
  if capacity ≤ (swept.len : ℤ) then
    match swept.front? with
    | none => (swept, none)
    | some node => (swept.remove (key node.val) node.id, some node.val)
  else (swept, none)

variable {key : ε → κ} {table table' table'' : IndexedList κ ε} {gone : ε → Prop}

/-- `table'` is `table` without some entries, all of which satisfy `gone`. -/
structure Drops (key : ε → κ) (gone : ε → Prop) (table table' : IndexedList κ ε) : Prop where
  wf : table'.WF key
  sublist : table'.vals.Sublist table.vals
  keeps : ∀ entry ∈ table.vals, entry ∈ table'.vals ∨ gone entry

theorem Drops.refl (hwf : table.WF key) : Drops key gone table table :=
  ⟨hwf, List.Sublist.refl _, fun _ h ↦ .inl h⟩

theorem Drops.trans (hfirst : Drops key gone table table') (hsecond : Drops key gone table' table'') :
    Drops key gone table table'' where
  wf := hsecond.wf
  sublist := hsecond.sublist.trans hfirst.sublist
  keeps := by
    intro entry hentry
    rcases hfirst.keeps entry hentry with hmem | hgone
    · exact hsecond.keeps _ hmem
    · exact .inr hgone

theorem Drops.mono {weaker : ε → Prop} (hdrops : Drops key gone table table')
    (himp : ∀ entry, gone entry → weaker entry) : Drops key weaker table table' :=
  ⟨hdrops.wf, hdrops.sublist, fun entry hentry ↦ (hdrops.keeps entry hentry).imp_right (himp entry)⟩

theorem Drops.mem (hdrops : Drops key gone table table') {entry : ε} (hentry : entry ∈ table'.vals) :
    entry ∈ table.vals :=
  hdrops.sublist.subset hentry

section

variable (hwf : table.WF key)

include hwf

variable (stale : ε → Bool)

theorem WF.remove_drops {node : Node ε} (hmem : node ∈ table.nodes) :
    Drops key (· = node.val) table (table.remove (key node.val) node.id) where
  wf := hwf.remove hmem
  sublist := List.filter_sublist.map _
  keeps := by
    intro entry hentry
    by_cases heq : entry = node.val
    · exact .inr heq
    · exact .inl ((hwf.mem_vals_remove_iff hmem _).mpr ⟨hentry, heq⟩)

theorem WF.sweepLoop_drops (rounds : ℕ) :
    Drops key (fun entry ↦ stale entry = true) table (sweepLoop key stale rounds table).1 := by
  induction rounds generalizing table with
  | zero => exact .refl hwf
  | succ rounds ih =>
    unfold sweepLoop
    cases hfront : table.front? with
    | none => exact .refl hwf
    | some node =>
      have hmem : node ∈ table.nodes := List.mem_of_head? hfront
      cases hstale : stale node.val with
      | false =>
        simp only [hstale, Bool.false_eq_true]
        exact .refl hwf
      | true =>
        simp only [hstale]
        have hremove := hwf.remove_drops hmem
        refine (hremove.mono fun entry heq ↦ ?_).trans (ih hremove.wf)
        rw [heq]
        exact hstale

theorem WF.sweepFront_drops :
    Drops key (fun entry ↦ stale entry = true) table (table.sweepFront key stale).1 :=
  hwf.sweepLoop_drops stale _

/-- A full table gives up stale entries and at most one victim. -/
theorem WF.makeRoom_drops (capacity : ℤ) :
    Drops key (fun entry ↦ stale entry = true ∨ (table.makeRoom key stale capacity).2 = some entry)
      table (table.makeRoom key stale capacity).1 := by
  have hswept := hwf.sweepFront_drops stale
  unfold makeRoom
  dsimp only
  split
  · cases hfront : (table.sweepFront ..).1.front? with
    | none => exact hswept.mono fun _ ↦ .inl
    | some node =>
      have hmem : node ∈ (table.sweepFront ..).1.nodes := List.mem_of_head? hfront
      apply (hswept.mono fun _ ↦ .inl).trans
      apply (hswept.wf.remove_drops hmem).mono
      intro entry heq
      rw [heq]
      exact .inr rfl
  · exact hswept.mono fun _ ↦ .inl

theorem WF.makeRoom_victim {stale : ε → Bool} {capacity : ℤ} {entry : ε}
    (hvictim : (table.makeRoom key stale capacity).2 = some entry) :
    entry ∈ table.vals ∧ entry ∉ (table.makeRoom key stale capacity).1.vals := by
  have hswept := hwf.sweepFront_drops stale
  unfold makeRoom at hvictim ⊢
  dsimp only at hvictim ⊢
  split at hvictim
  · next hfull =>
    rw [if_pos hfull]
    cases hfront : (table.sweepFront ..).1.front? with
    | none =>
      rw [hfront] at hvictim
      cases hvictim
    | some node =>
      rw [hfront] at hvictim
      have hmem : node ∈ (table.sweepFront ..).1.nodes := List.mem_of_head? hfront
      cases hvictim
      refine ⟨hswept.mem (mem_vals_iff.mpr ⟨node, hmem, rfl⟩), fun hin ↦ ?_⟩
      exact ((hswept.wf.mem_vals_remove_iff hmem _).mp hin).2 rfl
  · cases hvictim

/-- After that there is room for one more entry. -/
theorem WF.length_makeRoom {capacity : ℤ} (hcapacity : 0 < capacity)
    (hbound : (table.vals.length : ℤ) ≤ capacity) :
    ((table.makeRoom key stale capacity).1.vals.length : ℤ) < capacity := by
  have hswept := hwf.sweepFront_drops stale
  have hlength := hswept.sublist.length_le
  unfold makeRoom
  dsimp only
  rw [hswept.wf.len_eq]
  split
  · next hfull =>
    cases hfront : (table.sweepFront ..).1.front? with
    | none =>
      have hempty : (table.sweepFront key stale).1.vals = [] := by
        unfold vals
        rw [List.head?_eq_none_iff.mp hfront]
        rfl
      rw [hempty]
      exact hcapacity
    | some node =>
      have hmem : node ∈ (table.sweepFront ..).1.nodes := List.mem_of_head? hfront
      have hremove := hswept.wf.remove_drops hmem
      have hout : node.val ∉ ((table.sweepFront key stale).1.remove (key node.val) node.id).vals := by
        intro hin
        exact ((hswept.wf.mem_vals_remove_iff hmem _).mp hin).2 rfl
      have hshorter : ((table.sweepFront key stale).1.remove (key node.val) node.id).vals.length <
          (table.sweepFront key stale).1.vals.length := by
        apply Nat.lt_of_le_of_ne hremove.sublist.length_le
        intro hsame
        rw [hremove.sublist.eq_of_length hsame] at hout
        exact hout (mem_vals_iff.mpr ⟨node, hmem, rfl⟩)
      dsimp only
      omega
  · next hroom =>
    dsimp only
    omega

end

end RanHoneypot.IndexedList
