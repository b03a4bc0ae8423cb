import Mathlib.Algebra.BigOperators.Group.List.Basic
import RanHoneypot.Data.IndexedList

/-!
# Sums over the entries of a table

A weight gives each entry of an `IndexedList` an amount, and `total` adds the amounts up. Every
operation of the table has one rule for it. The rules are stated without subtraction, so that they
serve counters in the naturals and in the integers.
-/

namespace RanHoneypot.IndexedList

open List

variable {κ ε M : Type*} [AddCommMonoid M]

/-- The sum of the weights of all entries. -/
def total (w : ε → M) (table : IndexedList κ ε) : M := (table.vals.map w).sum

theorem total_congr_perm {w : ε → M} {table : IndexedList κ ε} {entries : List ε}
    (hperm : table.vals.Perm entries) : table.total w = (entries.map w).sum :=
  (hperm.map w).sum_eq

theorem vals_moveToBack_perm (table : IndexedList κ ε) (id : ℕ) :
    (table.moveToBack id).vals.Perm table.vals := by
  apply List.Perm.map
  have hsplit := filter_append_perm (fun node : Node ε ↦ decide (node.id ≠ id)) table.nodes
  simpa [moveToBack] using hsplit

@[simp] theorem total_moveToBack (w : ε → M) (table : IndexedList κ ε) (id : ℕ) :
    (table.moveToBack id).total w = table.total w :=
  total_congr_perm (vals_moveToBack_perm table id)

variable [DecidableEq κ] {key : ε → κ} {table : IndexedList κ ε} {node : Node ε}

theorem total_pushBack (w : ε → M) (table : IndexedList κ ε) (k : κ) (entry : ε) :
    (table.pushBack k entry).total w = table.total w + w entry := by
  simp [total, vals, pushBack]

section

variable (hwf : table.WF key) (hmem : node ∈ table.nodes)

include hwf hmem

theorem WF.vals_remove_perm (k : κ) :
    table.vals.Perm (node.val :: (table.remove k node.id).vals) := by
  have hsplit := filter_append_perm (fun other : Node ε ↦ decide (other.id = node.id))
    table.nodes
  rw [hwf.filter_id hmem] at hsplit
  have hvals := hsplit.symm.map Node.val
  simpa [vals, IndexedList.remove] using hvals

theorem WF.vals_modify_perm (f : ε → ε) :
    (table.modify node.id f).vals.Perm
      (f node.val :: (table.remove (key node.val) node.id).vals) := by
  have hmoved := hwf.vals_modify_moveToBack hmem f
  have hback := vals_moveToBack_perm (table.modify node.id f) node.id
  rw [hmoved] at hback
  exact hback.symm.trans (perm_append_singleton ..)

theorem WF.total_remove (w : ε → M) (k : κ) :
    w node.val + (table.remove k node.id).total w = table.total w := by
  rw [total_congr_perm (hwf.vals_remove_perm hmem k), map_cons]
  rfl

theorem WF.total_modify (w : ε → M) (f : ε → ε) :
    w node.val + (table.modify node.id f).total w = w (f node.val) + table.total w := by
  calc w node.val + (table.modify _ f).total w
      = w node.val + (w (f node.val) + (table.remove ..).total w) := by
        rw [total_congr_perm (hwf.vals_modify_perm hmem f), map_cons]
        rfl
    _ = w (f node.val) + (w node.val + (table.remove ..).total w) :=
        add_left_comm ..
    _ = w (f node.val) + table.total w := by rw [hwf.total_remove hmem]

end

end RanHoneypot.IndexedList
