import Mathlib.Data.List.Basic

/-!
# Lists of threads

The threads of a machine are the entries of a list: a step replaces one entry, and a new thread is put
at the end. These are the rules for what holds of all threads, for reading one of them, and for counting
those in a given situation or what they have in their hands.
-/

namespace RanHoneypot

open List

/-- A function that runs once, whoever calls it: one call runs it and is at some statement of it, and
the others wait until it has returned. -/
inductive Once (φ : Type*) where
  | unused
  | running (call : ℕ) (phase : φ)
  | finished
deriving DecidableEq

namespace Threads

variable {α : Type*} {threads : List α} {i : ℕ} {before after : α}

section

variable {property : α → Prop} (h : ∀ thread ∈ threads, property thread) (hafter : property after)

include h hafter

theorem forall_set : ∀ thread ∈ threads.set i after, property thread := by
  intro thread hthread
  rcases mem_or_eq_of_mem_set hthread with hmem | rfl
  · exact h thread hmem
  · exact hafter

theorem forall_concat : ∀ thread ∈ threads ++ [after], property thread := by
  intro thread hthread
  rcases mem_append.mp hthread with hmem | hnew
  · exact h thread hmem
  · rw [mem_singleton.mp hnew]
    exact hafter

end

theorem get_set (hget : threads[i]? = some before) : (threads.set i after)[i]? = some after :=
  getElem?_set_self (List.getElem?_eq_some_iff.mp hget).1

theorem set_self (hget : threads[i]? = some before) : threads.set i before = threads := by
  rcases List.getElem?_eq_some_iff.mp hget with ⟨hlt, rfl⟩
  rw [set_getElem_self]

theorem get_of_longer {more : List α} (hlonger : threads <+: more) (hget : threads[i]? = some before) :
    more[i]? = some before := by
  rcases hlonger with ⟨rest, rfl⟩
  rw [getElem?_append_left (List.getElem?_eq_some_iff.mp hget).1, hget]

theorem get_concat (threads : List α) (after : α) (i : ℕ) :
    (threads ++ [after])[i]? = if i = threads.length then some after else threads[i]? := by
  rcases Nat.lt_trichotomy i threads.length with hlt | heq | hgt
  · rw [getElem?_append_left hlt, if_neg (Nat.ne_of_lt hlt)]
  · rw [if_pos heq, heq, getElem?_concat_length]
  · rw [if_neg (Nat.ne_of_gt hgt), getElem?_eq_none (Nat.le_of_lt hgt)]
    simpa using Nat.succ_le_of_lt hgt

/-- One thread moves: a quantity that adds up over the threads follows that thread. -/
theorem size_set (size : List α → ℕ) (weight : α → ℕ)
    (hsize : ∀ front thread rest, size (front ++ thread :: rest) =
      size front + size rest + weight thread)
    (hget : threads[i]? = some before) (after : α) :
    size (threads.set i after) + weight before = size threads + weight after := by
  rcases List.getElem?_eq_some_iff.mp hget with ⟨hlt, rfl⟩
  rcases exists_of_set hlt with ⟨front, rest, hsplit, -, hset⟩
  have hbefore : size threads = size front + size rest + weight threads[i] :=
    (congrArg _ hsplit).trans (hsize front threads[i] rest)
  rw [hset, hsize, hbefore]
  exact Nat.add_right_comm ..

/-- The count of the threads in a given situation. -/
theorem countP_set (p : α → Bool) (hget : threads[i]? = some before) (after : α) :
    (threads.set i after).countP p + (p before).toNat = threads.countP p + (p after).toNat := by
  apply size_set _ (fun thread ↦ (p thread).toNat) _ hget
  intro front thread rest
  rw [countP_append, countP_cons]
  cases p thread <;> rfl

/-- The count of one item among those that the threads have in their hands. -/
theorem count_flatMap_set {β : Type*} [BEq β] (f : α → List β) (hget : threads[i]? = some before)
    (after : α) (x : β) :
    ((threads.set i after).flatMap f).count x + (f before).count x =
      (threads.flatMap f).count x + (f after).count x := by
  apply size_set (fun threads ↦ (threads.flatMap f).count x) (fun thread ↦ (f thread).count x) _ hget
  intro front thread rest
  simp only [flatMap_append, flatMap_cons, count_append]
  omega

theorem countP_concat (p : α → Bool) :
    (threads ++ [after]).countP p = threads.countP p + (p after).toNat := by
  rw [countP_append, countP_singleton]
  cases p after <;> rfl

end Threads

end RanHoneypot
