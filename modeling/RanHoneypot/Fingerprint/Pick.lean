import RanHoneypot.Data.ByteNumbers
import RanHoneypot.Data.GoText

/-!
# Choosing the fingerprint

`pick` of `fingerprint.go` scores every entry of a table with HMAC-SHA256 and keeps the entry with the
highest score. HMAC is a parameter. With different scores the choice is the winner of the table as a
set, which is why the table can grow.
-/

namespace RanHoneypot.Fingerprint

open GoText ByteNumbers Utf8

variable {α : Type}

section Score

variable (hmac : List UInt8 → Text → List UInt8) (seed : List UInt8) (label : Text) (key : α → Text)

def score (e : α) : ℕ :=
  beValue ((hmac seed (ofText "ran/fingerprint/v1/" ++ label ++ 0 :: key e)).take 8)

end Score

/-- The loop of `pick` from index `i`. -/
def pickLoop (score : α → ℕ) : ℕ → α → ℕ → List α → α
  | _, best, _, [] => best
  | i, best, bestScore, e :: rest =>
    if i = 0 ∨ score e > bestScore then pickLoop score (i + 1) e (score e) rest
    else pickLoop score (i + 1) best bestScore rest

def pick [Inhabited α] (hmac : List UInt8 → Text → List UInt8) (seed : List UInt8) (label : Text)
    (table : List α) (key : α → Text) : α :=
  pickLoop (score hmac seed label key) 0 default 0 table

/-- The entry `e` is in the table, and no entry has a higher score. -/
def Wins (score : α → ℕ) (table : List α) (e : α) : Prop :=
  e ∈ table ∧ ∀ x ∈ table, score x ≤ score e

section Winner

variable {score : α → ℕ} {table : List α} {a b : α}

theorem wins_pickLoop (i : ℕ) (best : α) (rest : List α) :
    Wins score (best :: rest) (pickLoop score (i + 1) best (score best) rest) := by
  induction rest generalizing i best with
  | nil => simp [Wins, pickLoop]
  | cons e rest ih =>
    unfold pickLoop
    split
    next hhigher =>
      obtain ⟨hmem, hmax⟩ := ih (i + 1) e
      have hbest := hmax e List.mem_cons_self
      refine ⟨List.mem_cons_of_mem _ hmem, List.forall_mem_cons.mpr ⟨?_, hmax⟩⟩
      omega
    next hlower =>
      obtain ⟨hmem, hmax⟩ := ih (i + 1) best
      have hbest := hmax best List.mem_cons_self
      simp only [List.forall_mem_cons] at hmax
      refine ⟨?_, List.forall_mem_cons.mpr ⟨hbest, List.forall_mem_cons.mpr ⟨?_, hmax.2⟩⟩⟩
      · exact List.cons_subset_cons _ (List.subset_cons_self _ _) hmem
      · omega

/-- With different scores there is one winner. -/
theorem Wins.unique (hscores : (table.map score).Nodup) (ha : Wins score table a)
    (hb : Wins score table b) : a = b := by
  apply List.inj_on_of_nodup_map hscores ha.1 hb.1
  exact le_antisymm (hb.2 a ha.1) (ha.2 b hb.1)

end Winner

section Stability

variable [Inhabited α] (hmac : List UInt8 → Text → List UInt8) (seed : List UInt8) (label : Text)
  (key : α → Text) {table : List α}

theorem wins_pick (hne : table ≠ []) :
    Wins (score hmac seed label key) table (pick hmac seed label table key) := by
  cases table with
  | nil => contradiction
  | cons e rest =>
    have hfirst : pick hmac seed label (e :: rest) key =
        pickLoop (score hmac seed label key) (0 + 1) e (score hmac seed label key e) rest := by
      simp [pick, pickLoop]
    apply wins_pickLoop

/-- The choice survives the removal of other entries and any reordering, and a new entry can only
take it over for itself. -/
theorem pick_stable (hne : table ≠ [])
    (hscores : (table.map (score hmac seed label key)).Nodup) :
    (∀ front back entry, table = front ++ back →
      pick hmac seed label (front ++ entry :: back) key = pick hmac seed label table key ∨
        pick hmac seed label (front ++ entry :: back) key = entry) ∧
    (∀ front back entry, table = front ++ entry :: back →
      entry ≠ pick hmac seed label table key →
        pick hmac seed label (front ++ back) key = pick hmac seed label table key) ∧
    ∀ other, other.Perm table →
      pick hmac seed label other key = pick hmac seed label table key := by
  have hold := wins_pick hmac seed label key hne
  refine ⟨?_, ?_, ?_⟩
  · intro front back entry htable
    obtain ⟨hmem, hmax⟩ := 
      wins_pick hmac seed label key (List.append_ne_nil_of_right_ne_nil front (List.cons_ne_nil entry back))
    rw [List.mem_append, List.mem_cons, or_left_comm, ← List.mem_append, ← htable] at hmem
    apply hmem.symm.imp_left
    intro hmem
    refine Wins.unique hscores ⟨hmem, fun x hx ↦ hmax x ?_⟩ hold
    rw [htable, List.mem_append] at hx
    exact List.mem_append.mpr (hx.imp_right (List.mem_cons_of_mem _))
  · intro front back entry htable hother
    have hkept : pick hmac seed label table key ∈ front ++ back := by
      have hmem := hold.1
      rw [htable, List.mem_append, List.mem_cons, or_left_comm, ← htable] at hmem
      exact List.mem_append.mpr (hmem.resolve_left hother.symm)
    obtain ⟨hmem, hmax⟩ := wins_pick hmac seed label key (List.ne_nil_of_mem hkept)
    have hpart : (front ++ back).Sublist table := by
      rw [htable]
      exact (List.sublist_cons_self entry back).append_left front
    refine Wins.unique hscores ⟨hpart.subset hmem, fun x hx ↦ ?_⟩ hold
    exact (hold.2 x hx).trans (hmax _ hkept)
  · intro other hperm
    have hother : other ≠ [] := fun hnil ↦ hne (hnil ▸ hperm).nil_eq.symm
    obtain ⟨hmem, hmax⟩ := wins_pick hmac seed label key hother
    exact Wins.unique hscores ⟨hperm.mem_iff.mp hmem, fun x hx ↦ hmax x (hperm.mem_iff.mpr hx)⟩ hold

theorem pick_stable_two :
    pick (fun _ text ↦ text.reverse) [] (ofText "ssh") [ofText "OpenSSH_9.6", ofText "OpenSSH_8.9"]
      (fun e ↦ e) = pick (fun _ text ↦ text.reverse) [] (ofText "ssh")
        [ofText "OpenSSH_8.9", ofText "OpenSSH_9.6"] (fun e ↦ e) :=
  (pick_stable _ _ _ _ (by decide) (by decide)).2.2 _ (.swap _ _ _)

end Stability

end RanHoneypot.Fingerprint
