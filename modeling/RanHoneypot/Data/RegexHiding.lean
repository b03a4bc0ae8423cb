import RanHoneypot.Data.Regex

/-!
# Rules that hide a secret

A secret `w` stands in a text behind a fixed front and before a fixed element `z`. A rule whose hidden
part *covers* such blocks either hides the secret as a whole or does not touch it: two texts that only
differ in the secret become equal, or still only differ in the secret.
-/

namespace RanHoneypot.Regex

open List Option

variable {α : Type} {isWord : α → Bool} {solid C B : α → Prop} {z : α} {prev : Option α}

variable {p : α → Bool}

variable {r q : Regex α}

theorem findSome?_congr {β γ : Type} {l : List β} {f g : β → Option γ} (h : ∀ i ∈ l, f i = g i) :
    l.findSome? f = l.findSome? g := by
  induction l with
  | nil => rfl
  | cons i l ih =>
    rw [findSome?_cons, findSome?_cons, h i mem_cons_self,
      ih fun j hj ↦ h j (mem_cons_of_mem i hj)]

/-! ## First matches -/

theorem head?_ends_item_seq {x : α} (hx : p x = true) (s : List α) :
    (ends isWord (seq (item p) q) prev (x :: s)).head? =
      (ends isWord q (some x) s).head?.map (1 + ·) := by
  have hfirst : ends isWord (item p) prev (x :: s) = [1] := by simp [ends, hx]
  rw [ends, head?_flatMap, hfirst, findSome?_singleton, head?_map]
  rfl

theorem head?_ends_plus (p : α → Bool) (s : List α) :
    (ends isWord (plus p) prev s).head? =
      if (s.takeWhile p).length = 0 then none else some (s.takeWhile p).length := by
  cases s with
  | nil => rfl
  | cons x s =>
    by_cases hx : p x = true
    · simp [plus, ends, hx, range_succ, Nat.add_comm]
    · simp [plus, ends, hx]

/-- A run that cannot go on is matched as a whole if the rest matches behind it. -/
theorem head?_ends_plus_seq {v s : List α} {x : α} {j : ℕ} (hne : v ≠ []) (hv : ∀ y ∈ v, p y = true)
    (hx : p x = false) (hq : (ends isWord q (v.getLast?.or prev) (x :: s)).head? = some j) :
    (ends isWord (seq (plus p) q) prev (v ++ x :: s)).head? = some (v.length + j) := by
  have hrun : ((v ++ x :: s).takeWhile p).length = v.length := by
    rw [takeWhile_append_of_pos hv, takeWhile_cons_of_neg (by simp [hx]), append_nil]
  have hpos := length_pos_iff.mpr hne
  have hhead : (ends isWord (plus p) prev (v ++ x :: s)).head? = some v.length := by
    rw [head?_ends_plus, hrun, if_neg (by omega)]
  rw [ends, head?_flatMap]
  cases hends : ends isWord (plus p) prev (v ++ x :: s) with
  | nil => exact absurd hhead (by simp [hends])
  | cons i rest =>
    rw [hends, head?_cons, some.injEq] at hhead
    rw [findSome?_cons, hhead, drop_left, before, take_left, head?_map, hq]
    rfl

/-! ## Covering -/

/-- The match that is tried first ends in front of a block of solid elements and `z`, or behind it, and
does not depend on the solid elements. -/
def Covers (isWord : α → Bool) (solid : α → Prop) (z : α) (r : Regex α) : Prop :=
  ∀ (prev : Option α) (X u u' Y : List α), (∀ x ∈ u, solid x) → (∀ x ∈ u', solid x) →
    u.length = u'.length → (u ++ z :: Y).head?.any isWord = (u' ++ z :: Y).head?.any isWord →
    (ends isWord r prev (X ++ (u ++ z :: Y))).head? =
        (ends isWord r prev (X ++ (u' ++ z :: Y))).head? ∧
      ∀ e, (ends isWord r prev (X ++ (u ++ z :: Y))).head? = some e →
        e ≤ X.length ∨ X.length + u.length < e

theorem length_takeWhile_block (hp : ∀ x, solid x → p x = true) (hz : p z = true) (X : List α)
    {u : List α} (hu : ∀ x ∈ u, solid x) (Y : List α) :
    ((X ++ (u ++ z :: Y)).takeWhile p).length =
      if (X.takeWhile p).length = X.length then X.length + u.length + 1 + (Y.takeWhile p).length
      else (X.takeWhile p).length := by
  rw [takeWhile_append]
  split
  · rw [length_append, takeWhile_append_of_pos fun x hx ↦ hp x (hu x hx),
      takeWhile_cons_of_pos hz, length_append, length_cons]
    omega
  · rfl

theorem covers_plus (hp : ∀ x, solid x → p x = true) (hz : p z = true) :
    Covers isWord solid z (plus p) := by
  intro prev X u u' Y hu hu' hlength _
  rw [head?_ends_plus, head?_ends_plus, length_takeWhile_block hp hz X hu Y,
    length_takeWhile_block hp hz X hu' Y, hlength]
  refine ⟨rfl, ?_⟩
  intro e he
  have hle := (List.takeWhile_prefix (l := X) p).length_le
  generalize hrun : (if (X.takeWhile p).length = X.length
    then X.length + u'.length + 1 + (Y.takeWhile p).length else (X.takeWhile p).length) = run at he
  have hend : run = e := by
    split at he
    · cases he
    · exact some.inj he
  split at hrun <;> omega

/-- Everything up to and including the next `q`. -/
theorem head?_ends_until (q : α → Bool) (s : List α) :
    (ends isWord (seq (star fun x ↦ !q x) (item q)) prev s).head? =
      if (s.takeWhile fun x ↦ !q x).length < s.length
      then some ((s.takeWhile fun x ↦ !q x).length + 1) else none := by
  have hitem : ∀ i, ((ends isWord (item q) (before prev s i) (s.drop i)).map (i + ·)).head? =
      if s[i]?.any q then some (i + 1) else none := by
    intro i
    simp only [ends]
    split <;> simp_all
  have hinside : ∀ i < (s.takeWhile fun x ↦ !q x).length, s[i]?.any q = false := by
    intro i hi
    have hlt := hi.trans_le (List.takeWhile_prefix fun x ↦ !q x).length_le
    have hmem : s[i] ∈ s.takeWhile fun x ↦ !q x := by
      rw [(List.takeWhile_prefix fun x ↦ !q x).getElem hi |>.symm]
      exact getElem_mem hi
    have hnot := mem_takeWhile_imp hmem
    rw [getElem?_eq_getElem hlt]
    simpa using hnot
  have hnext : s[(s.takeWhile fun x ↦ !q x).length]?.any q =
      decide ((s.takeWhile fun x ↦ !q x).length < s.length) := by
    have hsplit : s = (s.takeWhile fun x ↦ !q x) ++ s.dropWhile fun x ↦ !q x :=
      takeWhile_append_dropWhile.symm
    generalize hfront : (s.takeWhile fun x ↦ !q x) = front at hsplit
    cases hback : s.dropWhile fun x ↦ !q x with
    | nil =>
      rw [hback, append_nil] at hsplit
      rw [← hsplit]
      simp
    | cons x back =>
      have hx : q x = true := by
        have hhead := head?_dropWhile_not (fun x ↦ !q x) s
        rw [hback] at hhead
        simpa using hhead
      rw [hback] at hsplit
      rw [hsplit]
      simp [hx]
  have hnone : (List.range (s.takeWhile fun x ↦ !q x).length).reverse.findSome?
      (fun i ↦ if s[i]?.any q then some (i + 1) else none) = none := by
    refine findSome?_eq_none_iff.mpr fun i hi ↦ ?_
    rw [if_neg]
    rw [hinside i (mem_range.mp (mem_reverse.mp hi))]
    exact Bool.false_ne_true
  rw [ends, ends, head?_flatMap]
  simp only [hitem, range_succ, reverse_append, reverse_singleton,
    singleton_append, findSome?_cons, hnext, hnone, decide_eq_true_eq]
  by_cases hlt : (s.takeWhile fun x ↦ !q x).length < s.length
  · simp only [if_pos hlt]
  · simp only [if_neg hlt]

theorem head?_ends_quoted (q : α → Bool) (x : α) (s : List α) :
    (ends isWord (quoted q) prev (x :: s)).head? =
      if q x = true ∧ (s.takeWhile fun x ↦ !q x).length < s.length
      then some ((s.takeWhile fun x ↦ !q x).length + 2) else none := by
  rw [quoted, ends, head?_flatMap]
  by_cases hx : q x = true
  · have hfirst : ends isWord (item q) prev (x :: s) = [1] := by simp [ends, hx]
    rw [hfirst, findSome?_singleton, head?_map, head?_ends_until]
    simp only [drop_succ_cons, drop_zero, hx, true_and]
    by_cases hlt : (s.takeWhile fun x ↦ !q x).length < s.length
    · simp only [if_pos hlt, map_some]
      congr 1
      omega
    · simp [if_neg hlt]
  · have hfirst : ends isWord (item q) prev (x :: s) = [] := by simp [ends, hx]
    rw [hfirst, findSome?_nil, if_neg (by simp [hx])]

theorem covers_quoted {q : α → Bool} (hq : ∀ x, solid x → q x = false) (hz : q z = false) :
    Covers isWord solid z (quoted q) := by
  intro prev X u u' Y hu hu' hlength _
  cases X with
  | nil =>
    have hnone : ∀ u : List α, (∀ x ∈ u, solid x) →
        (ends isWord (quoted q) prev ([] ++ (u ++ z :: Y))).head? = none := by
      intro u hu
      cases u with
      | nil =>
        rw [nil_append, nil_append, head?_ends_quoted]
        simp [hz]
      | cons x u =>
        rw [nil_append, cons_append, head?_ends_quoted]
        simp [hq x (hu x mem_cons_self)]
    rw [hnone u hu, hnone u' hu']
    exact ⟨rfl, fun e he ↦ absurd he (by simp)⟩
  | cons x X =>
    have hp : ∀ x, solid x → (!q x) = true := fun x hx ↦ by rw [hq x hx]; rfl
    rw [cons_append, cons_append, head?_ends_quoted, head?_ends_quoted,
      length_takeWhile_block hp (by rw [hz]; rfl) X hu Y,
      length_takeWhile_block hp (by rw [hz]; rfl) X hu' Y]
    simp only [length_append, length_cons, hlength, true_and]
    intro e he
    have hle := (List.takeWhile_prefix (l := X) fun x ↦ !q x).length_le
    generalize hrun : (if (X.takeWhile fun x ↦ !q x).length = X.length
      then X.length + u'.length + 1 + (Y.takeWhile fun x ↦ !q x).length
      else (X.takeWhile fun x ↦ !q x).length) = run at he
    have hend : run + 2 = e := by
      split at he
      · exact some.inj he
      · cases he
    split at hrun <;> omega

theorem covers_alt {r' : Regex α} (hr : Covers isWord solid z r) (hr' : Covers isWord solid z r') :
    Covers isWord solid z (alt r r') := by
  intro prev X u u' Y hu hu' hlength hword
  rcases hr prev X u u' Y hu hu' hlength hword with ⟨hsame, hcases⟩
  rcases hr' prev X u u' Y hu hu' hlength hword with ⟨hsame', hcases'⟩
  simp only [ends, head?_append, hsame, hsame']
  refine ⟨trivial, ?_⟩
  intro e he
  rw [← hsame, ← hsame'] at he
  rcases or_eq_some_iff.mp he with he | he
  · exact hcases e he
  · exact hcases' e he.2

section

variable (hC : r.Within C) (hz : ¬ C z) (hB : r.EndsIn isWord B) (hsolid : ∀ x, solid x → ¬ B x)

include hC hz hB hsolid

/-- Matches that end in an element that is not solid and do not match `z` end in front of a block. -/
theorem le_of_endsIn {X u Y : List α} (hu : ∀ x ∈ u, solid x) {e : ℕ}
    (he : e ∈ ends isWord r prev (X ++ (u ++ z :: Y))) : e ≤ X.length := by
  have hblock : e ≤ (X ++ u).length := by
    rw [← append_assoc] at he
    exact hC.le_of_not he (by simpa using hz)
  rcases hB _ _ e he with ⟨hpos, x, hx, hlast⟩
  by_contra hlong
  rw [length_append] at hblock
  rw [getElem?_append_right (by omega), getElem?_append_left (by omega)] at hx
  exact hsolid x (hu x (mem_of_getElem? hx)) hlast

/-- Such a part may stand in front. -/
theorem covers_opt (hq : Covers isWord solid z q) : Covers isWord solid z (seq (opt r) q) := by
  intro prev X u u' Y hu hu' hlength hword
  have hbound : ∀ u : List α, (∀ x ∈ u, solid x) →
      ∀ e ∈ ends isWord (opt r) prev (X ++ (u ++ z :: Y)), e ≤ X.length := by
    intro u hu e he
    rcases mem_append.mp he with he | he
    · exact le_of_endsIn hC hz hB hsolid hu he
    · rw [mem_singleton.mp he]
      exact Nat.zero_le _
  have hhead : ∀ u : List α, (∀ x ∈ u, solid x) →
      (ends isWord (seq (opt r) q) prev (X ++ (u ++ z :: Y))).head? =
        (ends isWord (opt r) prev (X ++ (u ++ z :: Y))).findSome? fun i ↦
          (ends isWord q (before prev X i) (X.drop i ++ (u ++ z :: Y))).head?.map (i + ·) := by
    intro u hu
    rw [ends, head?_flatMap]
    refine findSome?_congr fun i hi ↦ ?_
    have hle := hbound u hu i hi
    rw [head?_map, drop_append_of_le_length hle, before, take_append_of_le_length hle,
      before]
  have hcover : ∀ i, _ := fun i ↦ hq (before prev X i) (X.drop i) u u' Y hu hu' hlength hword
  rw [hhead u hu, hhead u' hu', ends_append hword (hbound u hu) (hbound u' hu')]
  constructor
  · exact findSome?_congr fun i _ ↦ by rw [(hcover i).1]
  · intro e he
    rcases exists_of_findSome?_eq_some he with ⟨i, hi, hfound⟩
    rcases map_eq_some_iff.mp hfound with ⟨j, hj, hij⟩
    have hle := hbound u' hu' i hi
    have hcases := (hcover i).2 j hj
    rw [length_drop] at hcases
    omega

end

/-! ## Rules -/

/-- The kept part of a rule is a name and a separator. A secret is made of word elements that no
separator holds; in front of it stands `y`, which is in no name, and behind it `z`. -/
structure Hiding (isWord : α → Bool) (solid secret : α → Prop) (y z : α) (rule : Rule α) where
  name : Regex α
  separator : Regex α
  inName : α → Prop
  inSeparator : α → Prop
  kept : rule.kept = seq name separator
  name_within : name.Within inName
  separator_within : separator.Within inSeparator
  separator_null : separator.nullable = false
  hidden_covers : Covers isWord solid z rule.hidden
  hidden_null : rule.hidden.nullable = false
  not_inName_y : ¬ inName y
  not_inName_z : ¬ inName z
  not_inSeparator_z : ¬ inSeparator z
  solid_y : solid y
  secret_spec : ∀ x, secret x → solid x ∧ isWord x = true ∧ ¬ inSeparator x

namespace Hiding

variable {secret : α → Prop} {y : α} {rule : Rule α} {w w' Y : List α}

variable {d : List α}

section

variable (h : Hiding isWord solid secret y z rule) (hw : ∀ x ∈ w, secret x)

include hw

theorem not_inSeparator_head :
    ∀ x ∈ (w ++ z :: Y).head?, ¬ h.inSeparator x := by
  intro x hx
  cases w with
  | nil => exact some.inj hx ▸ h.not_inSeparator_z
  | cons c w =>
    have hc : c = x := some.inj hx
    exact (h.secret_spec x (hw x (hc ▸ mem_cons_self))).2.2

include h

/-- No match starts in a secret. -/
theorem matchAt_secret : rule.matchAt isWord prev (w ++ z :: Y) = none := by
  have hkept : ends isWord rule.kept prev (w ++ z :: Y) = [] := by
    rw [h.kept]
    refine eq_nil_iff_forall_not_mem.mpr fun k hk ↦ ?_
    rcases mem_ends_seq.mp hk with ⟨i, hi, j, hj, _⟩
    have hle : i ≤ w.length := h.name_within.le_of_not hi (by simpa using h.not_inName_z)
    rw [drop_append_of_le_length hle,
      h.separator_within.ends_eq_nil h.separator_null
        (h.not_inSeparator_head fun x hx ↦ hw x (mem_of_mem_drop hx))] at hj
    exact not_mem_nil hj
  rw [Rule.matchAt, hkept, findSome?_nil]

theorem head?_any_secret (hw' : ∀ x ∈ w', secret x) (hlength : w.length = w'.length) :
    (w ++ z :: Y).head?.any isWord = (w' ++ z :: Y).head?.any isWord := by
  cases w with
  | nil => rw [length_eq_zero_iff.mp hlength.symm]
  | cons c w =>
    cases w' with
    | nil => cases hlength
    | cons c' w' =>
      have hc := (h.secret_spec c (hw c mem_cons_self)).2.1
      have hc' := (h.secret_spec c' (hw' c' mem_cons_self)).2.1
      simp [hc, hc']

/-- The kept part ends in front of the secret. -/
theorem kept_le {a : List α} {k : ℕ}
    (hk : k ∈ ends isWord rule.kept prev ((a ++ [y]) ++ (w ++ z :: Y))) :
    0 < k ∧ k ≤ (a ++ [y]).length := by
  rw [h.kept] at hk
  rcases mem_ends_seq.mp hk with ⟨i, hi, j, hj, hij⟩
  have hname : i ≤ a.length := by
    rw [append_assoc] at hi
    exact h.name_within.le_of_not hi (by simpa using h.not_inName_y)
  have hle : i ≤ (a ++ [y]).length := by
    rw [length_append]
    omega
  rw [drop_append_of_le_length hle] at hj
  have hseparator : j ≤ ((a ++ [y]).drop i).length :=
    h.separator_within.le_of_not hj (h.not_inSeparator_head hw)
  have hpos := pos_of_mem_ends h.separator_null hj
  rw [length_drop] at hseparator
  omega

/-- What the hidden part matches behind a kept part. -/
theorem hidden_block (hw' : ∀ x ∈ w', secret x) (hlength : w.length = w'.length) {v : List α}
    (hv : ∀ x ∈ v, solid x) (prev : Option α) (X : List α) :
    (ends isWord rule.hidden prev (X ++ v ++ (w ++ z :: Y))).head? =
        (ends isWord rule.hidden prev (X ++ v ++ (w' ++ z :: Y))).head? ∧
      ∀ e, (ends isWord rule.hidden prev (X ++ v ++ (w ++ z :: Y))).head? = some e →
        0 < e ∧ (e ≤ X.length ∨ X.length + v.length + w.length < e) := by
  have hsolid : ∀ w : List α, (∀ x ∈ w, secret x) → ∀ x ∈ v ++ w, solid x := by
    intro w hw x hx
    rcases mem_append.mp hx with hx | hx
    · exact hv x hx
    · exact (h.secret_spec x (hw x hx)).1
  have hword : (v ++ w ++ z :: Y).head?.any isWord = (v ++ w' ++ z :: Y).head?.any isWord := by
    cases v with
    | nil => exact h.head?_any_secret hw hw' hlength
    | cons c v => rfl
  have htext : ∀ w : List α, X ++ v ++ (w ++ z :: Y) = X ++ (v ++ w ++ z :: Y) := by
    intro w
    simp
  rcases h.hidden_covers prev X (v ++ w) (v ++ w') Y (hsolid w hw) (hsolid w' hw')
    (by rw [length_append, length_append, hlength]) hword with ⟨hsame, hcases⟩
  rw [htext w, htext w']
  refine ⟨hsame, fun e he ↦ ⟨pos_of_mem_ends h.hidden_null (mem_of_head? he), ?_⟩⟩
  have hend := hcases e he
  rw [length_append] at hend
  omega

/-- A match in front of the secret ends before the block or behind it. -/
theorem matchAt_block (hw' : ∀ x ∈ w', secret x) (hlength : w.length = w'.length) {X : List α}
    (hd : ∀ x ∈ d, solid x) :
    rule.matchAt isWord prev (X ++ d ++ [y] ++ (w ++ z :: Y)) =
        rule.matchAt isWord prev (X ++ d ++ [y] ++ (w' ++ z :: Y)) ∧
      ∀ k e, rule.matchAt isWord prev (X ++ d ++ [y] ++ (w ++ z :: Y)) = some (k, e) →
        0 < e ∧ k ≤ (X ++ d ++ [y]).length ∧
          (e ≤ X.length ∨ (X ++ d ++ [y]).length + w.length < e) := by
  have hmatch : ∀ w : List α, (∀ x ∈ w, secret x) →
      rule.matchAt isWord prev (X ++ d ++ [y] ++ (w ++ z :: Y)) =
        (ends isWord rule.kept prev (X ++ d ++ [y] ++ (w ++ z :: Y))).findSome? fun k ↦
          (ends isWord rule.hidden (before prev (X ++ d ++ [y]) k)
            (X.drop k ++ (d ++ [y]).drop (k - X.length) ++ (w ++ z :: Y))).head?.map
              fun e ↦ (k, k + e) := by
    intro w hw
    refine findSome?_congr fun k hk ↦ ?_
    have hle := (h.kept_le hw hk).2
    rw [before, take_append_of_le_length hle, before, drop_append_of_le_length hle,
      append_assoc X, drop_append]
  have hsolid : ∀ n, ∀ x ∈ (d ++ [y]).drop n, solid x := by
    intro n x hx
    rcases mem_append.mp (mem_of_mem_drop hx) with hx | hx
    · exact hd x hx
    · exact mem_singleton.mp hx ▸ h.solid_y
  have hkept : ends isWord rule.kept prev (X ++ d ++ [y] ++ (w ++ z :: Y)) =
      ends isWord rule.kept prev (X ++ d ++ [y] ++ (w' ++ z :: Y)) :=
    ends_append (h.head?_any_secret hw hw' hlength) (fun k hk ↦ (h.kept_le hw hk).2)
      fun k hk ↦ (h.kept_le hw' hk).2
  rw [hmatch w hw, hmatch w' hw', ← hkept]
  constructor
  · refine findSome?_congr fun k _ ↦ ?_
    rw [(h.hidden_block hw hw' hlength (hsolid _) ..).1]
  · intro k e hfound
    rcases exists_of_findSome?_eq_some hfound with ⟨i, hi, hfound⟩
    rcases map_eq_some_iff.mp hfound with ⟨j, hj, hij⟩
    rcases Prod.mk.inj hij with ⟨hk, he⟩
    have hle := h.kept_le hw hi
    have hcases := (h.hidden_block hw hw' hlength (hsolid _) ..).2 j hj
    simp only [length_append, length_drop] at hle hcases ⊢
    omega

/-! ## Whole texts -/

theorem replaceFrom_secret :
    rule.replaceFrom isWord prev (w ++ z :: Y) = w ++ z :: rule.replaceFrom isWord (some z) Y := by
  induction w generalizing prev with
  | nil =>
    rw [nil_append, Rule.replaceFrom_of_none (h.matchAt_secret (w := []) hw)]
    rfl
  | cons c w ih =>
    have hnone : rule.matchAt isWord prev (c :: (w ++ z :: Y)) = none :=
      h.matchAt_secret (w := c :: w) hw
    rw [cons_append, Rule.replaceFrom_of_none hnone,
      ih fun x hx ↦ hw x (mem_cons_of_mem c hx), cons_append]

end

/-- A match that goes beyond the secret leaves nothing of it. -/
theorem replaceFrom_hidden {a : List α} {k e : ℕ}
    (hsome : rule.matchAt isWord prev (a ++ (w ++ z :: Y)) = some (k, e)) (hk : k ≤ a.length)
    (he : a.length + w.length < e) :
    rule.replaceFrom isWord prev (a ++ (w ++ z :: Y)) = a.take k ++ rule.mask ++
      rule.replaceFrom isWord ((z :: Y.take (e - (a.length + w.length + 1))).getLast?.or prev)
        (Y.drop (e - (a.length + w.length + 1))) := by
  have hlast : e - (a ++ w).length = e - (a.length + w.length + 1) + 1 := by
    rw [length_append]
    omega
  have hlong : (a ++ w).length ≤ e := by
    omega
  have hbefore : before prev (a ++ (w ++ z :: Y)) e =
      (z :: Y.take (e - (a.length + w.length + 1))).getLast?.or prev := by
    rw [before, ← append_assoc, List.take_append, hlast, take_succ_cons,
      getLast?_append_of_ne_nil _ (cons_ne_nil _ _)]
  have hdrop : (a ++ (w ++ z :: Y)).drop e = Y.drop (e - (a.length + w.length + 1)) := by
    rw [← append_assoc, drop_append, drop_eq_nil_of_le hlong, hlast,
      drop_succ_cons, nil_append]
  rw [Rule.replaceFrom_of_some (by simp) hsome (by omega), take_append_of_le_length hk, hbefore,
    hdrop]

/-- Two results are equal, or hold the two secrets behind the same front, which is no more than `d` and `y`
if the block is `bare`. -/
def SecretsOnly (y z : α) (w w' d : List α) (bare : Prop) (out out' : List α) : Prop :=
  out = out' ∨ ∃ R R', (bare → R = []) ∧ out = R ++ d ++ [y] ++ (w ++ z :: R') ∧
    out' = R ++ d ++ [y] ++ (w' ++ z :: R')

/-- What is put in front of both stands before the block. -/
theorem SecretsOnly.append {out out' : List α} {bare bare' : Prop}
    (h : SecretsOnly y z w w' d bare out out') (hbare : ¬ bare') (front : List α) :
    SecretsOnly y z w w' d bare' (front ++ out) (front ++ out') := by
  rcases h with hequal | ⟨R, R', _, hout, hout'⟩
  · exact .inl (by rw [hequal])
  · refine .inr ⟨front ++ R, R', fun h ↦ absurd h hbare, ?_, ?_⟩
    · rw [hout]
      simp
    · rw [hout']
      simp

/-- A block without a front grows by its own first element. -/
theorem SecretsOnly.cons {out out' : List α} (h : SecretsOnly y z w w' d True out out') (x : α) :
    SecretsOnly y z w w' (x :: d) True (x :: out) (x :: out') := by
  rcases h with hequal | ⟨R, R', hnil, hout, hout'⟩
  · exact .inl (by rw [hequal])
  · rw [hnil trivial] at hout hout'
    refine .inr ⟨[], R', fun _ ↦ rfl, ?_, ?_⟩
    · rw [hout]
      rfl
    · rw [hout']
      rfl

/-- Two texts that differ in the secret become equal or differ in the secret only, with the front of
the secret in place. -/
theorem replaceFrom_block (h : Hiding isWord solid secret y z rule) {X : List α}
    (hd : ∀ x ∈ d, solid x) (hw : ∀ x ∈ w, secret x) (hw' : ∀ x ∈ w', secret x)
    (hlength : w.length = w'.length) :
    SecretsOnly y z w w' d (X = []) (rule.replaceFrom isWord prev (X ++ d ++ [y] ++ (w ++ z :: Y)))
      (rule.replaceFrom isWord prev (X ++ d ++ [y] ++ (w' ++ z :: Y))) := by
  induction hsize : X.length + d.length using Nat.strong_induction_on generalizing X d prev with
  | _ n ih =>
    rcases h.matchAt_block (X := X) (Y := Y) hw hw' hlength hd with ⟨hsame, hspec⟩
    cases hfound : rule.matchAt isWord prev (X ++ d ++ [y] ++ (w ++ z :: Y)) with
    | some found =>
      rcases found with ⟨k, e⟩
      rcases hspec k e hfound with ⟨hpos, hk, hshort | hlong⟩
      · -- the match ends in front of the block, which is still to come
        have hstep : ∀ w : List α,
            rule.matchAt isWord prev (X ++ d ++ [y] ++ (w ++ z :: Y)) = some (k, e) →
            rule.replaceFrom isWord prev (X ++ d ++ [y] ++ (w ++ z :: Y)) = X.take k ++ rule.mask ++
              rule.replaceFrom isWord (before prev X e) (X.drop e ++ d ++ [y] ++ (w ++ z :: Y)) := by
          intro w hsome
          simp only [append_assoc] at hsome ⊢
          rw [Rule.replaceFrom_front hsome hpos hshort, append_assoc]
        have hsmaller : (X.drop e).length + d.length < n := by
          rw [length_drop]
          omega
        have hfront : X ≠ [] := by
          intro hnil
          rw [hnil, length_nil] at hshort
          omega
        rw [hstep w hfound, hstep w' (hsame ▸ hfound)]
        exact (ih _ hsmaller hd rfl).append hfront _
      · rw [replaceFrom_hidden hfound hk hlong,
          replaceFrom_hidden (hsame ▸ hfound) hk (hlength ▸ hlong), hlength]
        exact .inl rfl
    | none =>
      have hnone' := hsame ▸ hfound
      cases X with
      | cons x X =>
        have hstep : ∀ w : List α,
            rule.matchAt isWord prev (x :: X ++ d ++ [y] ++ (w ++ z :: Y)) = none →
            rule.replaceFrom isWord prev (x :: X ++ d ++ [y] ++ (w ++ z :: Y)) =
              [x] ++ rule.replaceFrom isWord (some x) (X ++ d ++ [y] ++ (w ++ z :: Y)) :=
          fun w hnone ↦ Rule.replaceFrom_of_none hnone
        rw [hstep w hfound, hstep w' hnone']
        have hsmaller : X.length + d.length < n := by
          rw [← hsize, length_cons]
          omega
        exact (ih _ hsmaller hd rfl).append (cons_ne_nil x X) [x]
      | nil =>
        cases d with
        | nil =>
          have hstep : ∀ w : List α, (∀ x ∈ w, secret x) →
              rule.matchAt isWord prev ([] ++ [] ++ [y] ++ (w ++ z :: Y)) = none →
              rule.replaceFrom isWord prev ([] ++ [] ++ [y] ++ (w ++ z :: Y)) =
                y :: (w ++ z :: rule.replaceFrom isWord (some z) Y) := by
            intro w hw hnone
            rw [← h.replaceFrom_secret hw]
            exact Rule.replaceFrom_of_none hnone
          rw [hstep w hw hfound, hstep w' hw' hnone']
          exact .inr ⟨[], rule.replaceFrom _ _ Y, fun _ ↦ rfl, rfl, rfl⟩
        | cons x d =>
          have hstep : ∀ w : List α,
              rule.matchAt isWord prev ([] ++ x :: d ++ [y] ++ (w ++ z :: Y)) = none →
              rule.replaceFrom isWord prev ([] ++ x :: d ++ [y] ++ (w ++ z :: Y)) =
                x :: rule.replaceFrom isWord (some x) ([] ++ d ++ [y] ++ (w ++ z :: Y)) :=
            fun w hnone ↦ Rule.replaceFrom_of_none hnone
          rw [hstep w hfound, hstep w' hnone']
          have hsolid : ∀ c ∈ d, solid c := fun c hc ↦ hd c (mem_cons_of_mem x hc)
          have hsmaller : ([] : List α).length + d.length < n := by
            rw [← hsize, length_cons]
            omega
          simp only [eq_self] at ih ⊢
          exact SecretsOnly.cons (by simpa using ih _ hsmaller hsolid rfl) x

end Hiding

end RanHoneypot.Regex
