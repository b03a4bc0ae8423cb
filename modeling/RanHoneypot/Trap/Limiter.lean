import RanHoneypot.Data.Tally

/-!
# The session limiter

One limiter admits the sessions of all traps: at most `maxGlobal` at a time, and at most `maxPerIP`
for one source. `Holds` is what its counters mean: the sources of the sessions that hold a slot. A
step of a trap can keep, take or give back a slot, and `SlotMove` says which.
-/

namespace RanHoneypot.Trap

open List

structure Limiter where
  maxGlobal : ℤ
  maxPerIP : ℤ
  global : ℤ
  perIP : AList fun _ : String ↦ ℤ

def newLimiter (maxGlobal maxPerIP : ℤ) : Limiter where
  maxGlobal := maxGlobal
  maxPerIP := maxPerIP
  global := 0
  perIP := ∅

namespace Limiter

def acquire (l : Limiter) (ip : String) : Bool × Limiter :=
  if l.maxGlobal ≤ l.global then (false, l)
  else if l.maxPerIP ≤ counter l.perIP ip then (false, l)
  else (true, { l with global := l.global + 1, perIP := increment l.perIP ip })

def release (l : Limiter) (ip : String) : Limiter :=
  { l with global := l.global - 1, perIP := decrement l.perIP ip }

/-- The slots in use are those of the sources in `held`, and within the limits. -/
structure Holds (l : Limiter) (held : List String) : Prop where
  global : l.global = held.length
  tallies : Tallies l.perIP held
  limit : held = [] ∨ l.global ≤ l.maxGlobal
  source : ∀ ip ∈ held, (held.count ip : ℤ) ≤ l.maxPerIP

variable {l l' : Limiter} {held held' : List String} {ip : String}

theorem holds_new (maxGlobal maxPerIP : ℤ) : (newLimiter maxGlobal maxPerIP).Holds [] where
  global := rfl
  tallies := tallies_empty
  limit := .inl rfl
  source := by simp

theorem Holds.perm (h : l.Holds held) (hperm : held.Perm held') : l.Holds held' where
  global := by rw [h.global, hperm.length_eq]
  tallies := h.tallies.perm hperm
  limit := by
    rcases h.limit with hempty | hle
    · left
      rw [hempty] at hperm
      exact nil_perm.mp hperm
    · exact .inr hle
  source := by
    intro other hother
    rw [← hperm.count_eq]
    exact h.source _ (hperm.mem_iff.mpr hother)

/-- An admitted session has found both counters below their limits. -/
theorem acquire_eq_true (hok : (l.acquire ip).1 = true) :
    l.global < l.maxGlobal ∧ counter l.perIP ip < l.maxPerIP ∧
      (l.acquire ip).2 = { l with global := l.global + 1, perIP := increment l.perIP ip } := by
  unfold acquire at hok ⊢
  split at hok
  · cases hok
  · next hglobal =>
    split at hok
    · cases hok
    · next hperIP =>
      rw [if_neg hglobal, if_neg hperIP]
      exact ⟨Int.not_le.mp hglobal, Int.not_le.mp hperIP, rfl⟩

theorem acquire_eq_false (hrefused : (l.acquire ip).1 = false) : (l.acquire ip).2 = l := by
  unfold acquire at hrefused ⊢
  split
  · rfl
  · split
    · rfl
    · next hglobal hperIP =>
      rw [if_neg hglobal, if_neg hperIP] at hrefused
      cases hrefused

theorem Holds.acquire (h : l.Holds held) (hok : (l.acquire ip).1 = true) :
    (l.acquire ip).2.Holds (ip :: held) := by
  have hadmitted := acquire_eq_true hok
  rw [hadmitted.2.2]
  exact
    { global := by
        simp only [length_cons, Nat.cast_add, Nat.cast_one]
        rw [h.global]
      tallies := h.tallies.increment ip
      limit := .inr (Int.add_one_le_of_lt hadmitted.1)
      source := by
        intro other hother
        by_cases hip : other = ip
        · have hroom := hadmitted.2.1
          rw [h.tallies.counter_eq] at hroom
          rw [hip, count_cons_self]
          exact Int.add_one_le_of_lt hroom
        · rw [count_cons_of_ne (Ne.symm hip)]
          exact h.source _ (mem_of_ne_of_mem hip hother) }

theorem Holds.release (h : l.Holds (ip :: held)) : (l.release ip).Holds held where
  global := by
    have hglobal : l.global = (held.length : ℤ) + 1 := h.global
    simp only [Limiter.release]
    omega
  tallies := by
    have herased := h.tallies.decrement mem_cons_self
    rwa [erase_cons_head] at herased
  limit := by
    right
    have hle : l.global ≤ l.maxGlobal := h.limit.resolve_left (cons_ne_nil ip held)
    simp only [Limiter.release]
    omega
  source := by
    intro other hother
    calc (held.count _ : ℤ) ≤ (ip :: held).count other := by
          exact_mod_cast count_le_count_cons
      _ ≤ l.maxPerIP := h.source other (mem_cons_of_mem ip hother)

end Limiter

/-- What a step does to the limiter and to the sources that hold a slot: it keeps them, takes a slot
that was granted or gives one back. -/
inductive SlotMove (l : Limiter) (held : List String) : Limiter → List String → Prop
  | keep {held'} : held'.Perm held → SlotMove l held l held'
  | acquire {held'} (ip : String) : (l.acquire ip).1 = true → held'.Perm (ip :: held) →
      SlotMove l held (l.acquire ip).2 held'
  | release {held'} (ip : String) : held.Perm (ip :: held') → SlotMove l held (l.release ip) held'

variable {l l' : Limiter} {held held' : List String}

theorem Limiter.Holds.move (h : l.Holds held) (hmove : SlotMove l held l' held') :
    l'.Holds held' := by
  cases hmove with
  | keep hperm => exact h.perm hperm.symm
  | acquire ip hok hperm => exact (h.acquire hok).perm hperm.symm
  | release ip hperm => exact (h.perm hperm).release

/-- The step of one session among others. -/
theorem SlotMove.among (hmove : SlotMove l held l' held') (before after : List String) :
    SlotMove l (before ++ held ++ after) l' (before ++ held' ++ after) := by
  cases hmove with
  | keep hperm => exact .keep ((hperm.append_left _).append_right after)
  | acquire ip hok hperm =>
    apply SlotMove.acquire ip hok
    calc List.Perm (before ++ held' ++ after) (before ++ (ip :: held) ++ after) :=
          (hperm.append_left _).append_right after
      _ = before ++ ip :: (held ++ after) := by simp
      List.Perm _ (ip :: (before ++ (held ++ after))) := perm_middle
      _ = ip :: (before ++ held ++ after) := by simp
  | release ip hperm =>
    apply SlotMove.release ip
    calc List.Perm (before ++ held ++ after) (before ++ (ip :: held') ++ after) :=
          (hperm.append_left _).append_right after
      _ = before ++ ip :: (held' ++ after) := by simp
      List.Perm _ (ip :: (before ++ (held' ++ after))) := perm_middle
      _ = ip :: (before ++ held' ++ after) := by simp

/-- The step of the session at one place of a list of sessions. -/
theorem SlotMove.set {α : Type*} {f : α → List String} {xs : List α} {i : ℕ} {x y : α}
    (hx : xs[i]? = some x) (hmove : SlotMove l (f x) l' (f y)) :
    SlotMove l (xs.flatMap f) l' ((xs.set i y).flatMap f) := by
  rcases List.getElem?_eq_some_iff.mp hx with ⟨hlt, hget⟩
  have hsplit : xs = xs.take i ++ x :: xs.drop (i + 1) := by
    rw [← hget, getElem_cons_drop, take_append_drop]
  have hbefore : xs.flatMap f =
      (xs.take i).flatMap f ++ f x ++ (xs.drop (i + 1)).flatMap f := by
    calc xs.flatMap f = (xs.take i ++ x :: xs.drop (i + 1)).flatMap f := by rw [← hsplit]
      _ = (xs.take i).flatMap f ++ f x ++ (xs.drop _).flatMap f := by
        simp [flatMap_cons]
  have hafter : (xs.set i y).flatMap f =
      (xs.take i).flatMap f ++ f y ++ (xs.drop (i + 1)).flatMap f := by
    rw [set_eq_take_append_cons_drop, if_pos hlt]
    simp [flatMap_cons]
  rw [hbefore, hafter]
  exact hmove.among ..

theorem SlotMove.limits (hmove : SlotMove l held l' held') :
    l'.maxGlobal = l.maxGlobal ∧ l'.maxPerIP = l.maxPerIP := by
  cases hmove with
  | keep hperm => exact ⟨rfl, rfl⟩
  | acquire ip hok hperm =>
    rw [(Limiter.acquire_eq_true hok).2.2]
    exact ⟨rfl, rfl⟩
  | release ip hperm => exact ⟨rfl, rfl⟩

end RanHoneypot.Trap
