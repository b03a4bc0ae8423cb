import Mathlib.Data.List.Basic
import Mathlib.Data.List.TakeWhile

/-!
# Regular expressions with priorities

Leftmost-first matching: of the matches at one place the one is taken that a backtracking matcher tries
first. The value of an expression is therefore the list of the lengths it can match, in the order in
which they are tried. Repetitions are greedy and are repetitions of a class.

A rule replaces what it matches but for a front part. What a rule does at one place depends only on the
text up to where its match can end (`ends_append`), and an expression does not match beyond an element
that none of its classes holds (`Within`).
-/

namespace RanHoneypot

open List

variable {α : Type}

inductive Regex (α : Type) where
  | empty
  | item (p : α → Bool)
  | boundary
  | seq (r s : Regex α)
  | alt (r s : Regex α)
  | star (p : α → Bool)

namespace Regex

def opt (r : Regex α) : Regex α := alt r empty

def plus (p : α → Bool) : Regex α := seq (item p) (star p)

/-- A quoted text. -/
def quoted (q : α → Bool) : Regex α := seq (item q) (seq (star fun x ↦ !q x) (item q))

/-- The items of a word, one after the other. -/
def items (ps : List (α → Bool)) : Regex α := ps.foldr (fun p r ↦ seq (item p) r) empty

/-- One of several expressions; the first one goes first. -/
def oneOf : List (Regex α) → Regex α
  | [] => item fun _ ↦ false
  | [r] => r
  | r :: rest => alt r (oneOf rest)

/-- The element in front of a place. -/
def before (prev : Option α) (s : List α) (i : ℕ) : Option α := ((s.take i).getLast?).or prev

variable (isWord : α → Bool)

/-- Whether a place is between a word and something else. -/
def atBoundary (prev : Option α) (s : List α) : Bool := prev.any isWord != s.head?.any isWord

/-- The lengths of the matches at a place, in the order of their priority. -/
def ends : Regex α → Option α → List α → List ℕ
  | empty, _, _ => [0]
  | item p, _, s => if s.head?.any p then [1] else []
  | boundary, prev, s => if atBoundary isWord prev s then [0] else []
  | seq r r', prev, s =>
    (ends r prev s).flatMap fun i ↦ (ends r' (before prev s i) (s.drop i)).map (i + ·)
  | alt r r', prev, s => ends r prev s ++ ends r' prev s
  | star p, _, s => (List.range ((s.takeWhile p).length + 1)).reverse

/-! ## Rules -/

/-- The text of `kept` stays, that of `hidden` is replaced. -/
structure Rule (α : Type) where
  kept : Regex α
  hidden : Regex α
  mask : List α

/-- The lengths of the kept part and of the whole match at a place. -/
def Rule.matchAt (rule : Rule α) (prev : Option α) (s : List α) : Option (ℕ × ℕ) :=
  (ends isWord rule.kept prev s).findSome? fun k ↦
    (ends isWord rule.hidden (before prev s k) (s.drop k)).head?.map fun e ↦ (k, k + e)

/-- The loop over the places of a text, with a bound on its rounds. A rule that matches nothing at all
is not applied. -/
def Rule.replaceLoop (rule : Rule α) : ℕ → Option α → List α → List α
  | 0, _, s => s
  | _ + 1, _, [] => []
  | rounds + 1, prev, x :: s =>
    match rule.matchAt isWord prev (x :: s) with
    | some (k, e) =>
      if e = 0 then x :: rule.replaceLoop rounds (some x) s
      else (x :: s).take k ++ rule.mask ++
        rule.replaceLoop rounds (before prev (x :: s) e) ((x :: s).drop e)
    | none => x :: rule.replaceLoop rounds (some x) s

/-- Replaces all matches from a place on. Every round takes at least one element. -/
def Rule.replaceFrom (rule : Rule α) (prev : Option α) (s : List α) : List α :=
  rule.replaceLoop isWord s.length prev s

/-- Replaces all matches from the left to the right. -/
def Rule.replaceAll (rule : Rule α) (s : List α) : List α := rule.replaceFrom isWord none s

/-! ## What an expression can match -/

/-- Every class of the expression holds only elements of `C`. -/
def Within (C : α → Prop) : Regex α → Prop
  | empty => True
  | item p => ∀ x, p x = true → C x
  | boundary => True
  | seq r s => r.Within C ∧ s.Within C
  | alt r s => r.Within C ∧ s.Within C
  | star p => ∀ x, p x = true → C x

def nullable : Regex α → Bool
  | empty => true
  | item _ => false
  | boundary => true
  | seq r s => r.nullable && s.nullable
  | alt r s => r.nullable || s.nullable
  | star _ => true

variable {isWord} {C : α → Prop} {r : Regex α} {prev : Option α} {s : List α}

variable {r' : Regex α} {e : ℕ}

theorem mem_ends_seq :
    e ∈ ends isWord (seq r r') prev s ↔
      ∃ i ∈ ends isWord r prev s, ∃ j ∈ ends isWord r' (before prev s i) (s.drop i), i + j = e := by
  simp [ends]

theorem mem_ends_item {p : α → Bool} :
    e ∈ ends isWord (item p) prev s ↔ e = 1 ∧ ∃ x rest, s = x :: rest ∧ p x = true := by
  cases s with
  | nil => simp [ends]
  | cons x s => by_cases hx : p x = true <;> simp [ends, hx]

theorem mem_ends_star {p : α → Bool} :
    e ∈ ends isWord (star p) prev s ↔ e ≤ (s.takeWhile p).length := by
  simp only [ends, mem_reverse, mem_range]
  omega

theorem eq_zero_of_mem_ends_boundary (he : e ∈ ends isWord boundary prev s) : e = 0 := by
  simp only [ends] at he
  split at he
  · exact mem_singleton.mp he
  · cases he

theorem le_length_of_mem_ends (he : e ∈ ends isWord r prev s) : e ≤ s.length := by
  induction r generalizing prev s e with
  | empty =>
    rw [mem_singleton.mp he]
    exact Nat.zero_le _
  | item p =>
    rcases mem_ends_item.mp he with ⟨rfl, x, rest, rfl, _⟩
    exact Nat.succ_pos _
  | boundary =>
    rw [eq_zero_of_mem_ends_boundary he]
    exact Nat.zero_le _
  | seq r r' ihr ihr' =>
    rcases mem_ends_seq.mp he with ⟨i, hi, j, hj, hij⟩
    have hfirst := ihr hi
    have hsecond := ihr' hj
    rw [length_drop] at hsecond
    omega
  | alt r r' ihr ihr' =>
    rcases mem_append.mp he with he | he
    · exact ihr he
    · exact ihr' he
  | star p => exact (mem_ends_star.mp he).trans (List.takeWhile_prefix p).length_le

theorem Within.of_mem_take (hr : r.Within C) (he : e ∈ ends isWord r prev s) {x : α}
    (hx : x ∈ s.take e) : C x := by
  induction r generalizing prev s e with
  | empty =>
    rw [mem_singleton.mp he] at hx
    cases hx
  | item p =>
    rcases mem_ends_item.mp he with ⟨rfl, y, rest, rfl, hy⟩
    rw [mem_singleton.mp hx]
    exact hr y hy
  | boundary =>
    rw [eq_zero_of_mem_ends_boundary he] at hx
    cases hx
  | seq r r' ihr ihr' =>
    rcases mem_ends_seq.mp he with ⟨i, hi, j, hj, hij⟩
    rw [← hij, take_add] at hx
    rcases mem_append.mp hx with hx | hx
    · exact ihr hr.1 hi hx
    · exact ihr' hr.2 hj hx
  | alt r r' ihr ihr' =>
    rcases mem_append.mp he with he | he
    · exact ihr hr.1 he hx
    · exact ihr' hr.2 he hx
  | star p =>
    have hle := mem_ends_star.mp he
    have htake : x ∈ s.takeWhile p := by
      have hfront : s.take e <+: s.takeWhile p :=
        prefix_of_prefix_length_le (List.take_prefix e s) (List.takeWhile_prefix p)
          ((length_take_le e s).trans hle)
      exact hfront.subset hx
    exact hr x (mem_takeWhile_imp htake)

theorem within_seq (hr : r.Within C) (hr' : r'.Within C) : (seq r r').Within C := ⟨hr, hr'⟩

theorem within_alt (hr : r.Within C) (hr' : r'.Within C) : (alt r r').Within C := ⟨hr, hr'⟩

theorem Within.mono {D : α → Prop} (hr : r.Within C) (hCD : ∀ x, C x → D x) : r.Within D := by
  induction r with
  | empty => trivial
  | item p => exact fun x hx ↦ hCD x (hr x hx)
  | boundary => trivial
  | seq r r' ihr ihr' => exact within_seq (ihr hr.1) (ihr' hr.2)
  | alt r r' ihr ihr' => exact within_alt (ihr hr.1) (ihr' hr.2)
  | star p => exact fun x hx ↦ hCD x (hr x hx)

theorem within_items {ps : List (α → Bool)} (hps : ∀ p ∈ ps, ∀ x, p x = true → C x) :
    (items ps).Within C := by
  induction ps with
  | nil => trivial
  | cons p ps ih =>
    exact within_seq (hps p mem_cons_self) (ih fun q hq ↦ hps q (mem_cons_of_mem p hq))

theorem within_oneOf {rs : List (Regex α)} (hrs : ∀ r ∈ rs, r.Within C) : (oneOf rs).Within C := by
  induction rs with
  | nil => exact fun x hx ↦ absurd hx Bool.false_ne_true
  | cons r rs ih =>
    cases rs with
    | nil => exact hrs r mem_cons_self
    | cons r' rs =>
      exact within_alt (hrs r mem_cons_self) (ih fun q hq ↦ hrs q (mem_cons_of_mem r hq))

theorem pos_of_mem_ends (hr : r.nullable = false) (he : e ∈ ends isWord r prev s) : 0 < e := by
  induction r generalizing prev s e with
  | empty => exact absurd hr (by simp [nullable])
  | item p =>
    rw [(mem_ends_item.mp he).1]
    exact Nat.one_pos
  | boundary => exact absurd hr (by simp [nullable])
  | seq r r' ihr ihr' =>
    rcases mem_ends_seq.mp he with ⟨i, hi, j, hj, hij⟩
    rw [nullable, Bool.and_eq_false_iff] at hr
    rcases hr with hr | hr
    · have := ihr hr hi
      omega
    · have := ihr' hr hj
      omega
  | alt r r' ihr ihr' =>
    rw [nullable, Bool.or_eq_false_iff] at hr
    rcases mem_append.mp he with he | he
    · exact ihr hr.1 he
    · exact ihr' hr.2 he
  | star p => exact absurd hr (by simp [nullable])

/-- A match does not go beyond an element that is in no class. -/
theorem Within.le_of_not (hr : r.Within C) {a b : List α} (he : e ∈ ends isWord r prev (a ++ b))
    (hb : ∀ x ∈ b.head?, ¬ C x) : e ≤ a.length := by
  by_contra hlong
  have hle := le_length_of_mem_ends he
  cases b with
  | nil =>
    rw [append_nil] at hle
    exact hlong hle
  | cons x b =>
    have hx : x ∈ (a ++ x :: b).take e := by
      rw [List.take_append, mem_append]
      refine .inr ?_
      rw [show e - a.length = e - a.length - 1 + 1 by omega]
      exact mem_cons_self
    exact hb x rfl (hr.of_mem_take he hx)

theorem Within.ends_eq_nil (hr : r.Within C) (hnull : r.nullable = false)
    (hs : ∀ x ∈ s.head?, ¬ C x) : ends isWord r prev s = [] := by
  refine eq_nil_iff_forall_not_mem.mpr fun e he ↦ ?_
  have hpos := pos_of_mem_ends hnull he
  have hle : e ≤ ([] : List α).length := hr.le_of_not (by rwa [nil_append]) hs
  exact absurd hpos (by simpa using hle)

/-- Every match is followed back to an element of `C`. -/
def EndsIn (isWord : α → Bool) (C : α → Prop) (r : Regex α) : Prop :=
  ∀ prev s e, e ∈ ends isWord r prev s → 0 < e ∧ ∃ x ∈ s[e - 1]?, C x

theorem Within.endsIn (hr : r.Within C) (hnull : r.nullable = false) : r.EndsIn isWord C := by
  intro prev s e he
  have hpos := pos_of_mem_ends hnull he
  have hle := le_length_of_mem_ends he
  have hindex : e - 1 < s.length := by omega
  refine ⟨hpos, s[e - 1], getElem?_eq_getElem hindex, hr.of_mem_take he ?_⟩
  rw [mem_take_iff_getElem]
  exact ⟨e - 1, by omega, rfl⟩

theorem EndsIn.seq (hr' : r'.EndsIn isWord C) : (seq r r').EndsIn isWord C := by
  intro prev s e he
  rcases mem_ends_seq.mp he with ⟨i, _, j, hj, hij⟩
  rcases hr' _ _ j hj with ⟨hpos, x, hx, hlast⟩
  refine ⟨by omega, x, ?_, hlast⟩
  rw [getElem?_drop, show i + (j - 1) = e - 1 by omega] at hx
  exact hx

/-! ## Places further on do not matter -/

theorem flatMap_filter {β γ : Type} {q : β → Bool} {f : β → List γ} {l : List β}
    (hf : ∀ i ∈ l, q i = false → f i = []) : (l.filter q).flatMap f = l.flatMap f := by
  induction l with
  | nil => rfl
  | cons i l ih =>
    have hrest := ih fun j hj ↦ hf j (mem_cons_of_mem i hj)
    cases hq : q i with
    | true => rw [filter_cons_of_pos hq, flatMap_cons, flatMap_cons, hrest]
    | false =>
      rw [filter_cons_of_neg (by simp [hq]), flatMap_cons, hf i mem_cons_self hq, hrest,
        nil_append]

theorem min_length_takeWhile_append (p : α → Bool) (a b : List α) :
    min ((a ++ b).takeWhile p).length a.length = (a.takeWhile p).length := by
  induction a with
  | nil => simp
  | cons x a ih =>
    rw [cons_append, takeWhile_cons, takeWhile_cons]
    split
    · rw [length_cons, length_cons, length_cons, Nat.add_min_add_right, ih]
    · simp

theorem filter_le_range (n m : ℕ) :
    (List.range (n + 1)).filter (· ≤ m) = List.range (min n m + 1) := by
  induction n with
  | zero => simp
  | succ n ih =>
    rw [range_succ, filter_append, ih]
    by_cases hle : n + 1 ≤ m
    · rw [Nat.min_eq_left hle, Nat.min_eq_left (by omega), range_succ (n := n + 1)]
      simp [hle]
    · rw [Nat.min_eq_right (by omega), Nat.min_eq_right (by omega)]
      simp [hle]

theorem filter_ends_append {a b b' : List α} (hword : b.head?.any isWord = b'.head?.any isWord) :
    (ends isWord r prev (a ++ b)).filter (· ≤ a.length) =
      (ends isWord r prev (a ++ b')).filter (· ≤ a.length) := by
  induction r generalizing prev a with
  | empty => rfl
  | item p =>
    cases a with
    | nil =>
      simp only [ends, length_nil]
      split <;> split <;> rfl
    | cons x a => rfl
  | boundary =>
    cases a with
    | nil =>
      have hsame : atBoundary isWord prev ([] ++ b) = atBoundary isWord prev ([] ++ b') := by
        rw [nil_append, nil_append, atBoundary, hword, atBoundary]
      simp only [ends, hsame]
    | cons x a => rfl
  | seq r r' ihr ihr' =>
    have hsplit : ∀ b : List α, (ends isWord (seq r r') prev (a ++ b)).filter (· ≤ a.length) =
        ((ends isWord r prev (a ++ b)).filter (· ≤ a.length)).flatMap fun i ↦
          ((ends isWord r' (before prev a i) (a.drop i ++ b)).filter
            (· ≤ (a.drop i).length)).map (i + ·) := by
      intro b
      simp only [ends, filter_flatMap]
      rw [← flatMap_filter]
      · refine flatMap_congr fun i hi ↦ ?_
        have hle : i ≤ a.length := of_decide_eq_true (mem_filter.mp hi).2
        rw [before, take_append_of_le_length hle, drop_append_of_le_length hle,
          filter_map]
        refine congrArg _ (filter_congr fun j _ ↦ decide_eq_decide.mpr ?_)
        rw [length_drop]
        change i + j ≤ a.length ↔ j ≤ a.length - i
        omega
      · intro i _ hlong
        refine filter_eq_nil_iff.mpr fun e he ↦ ?_
        rcases mem_map.mp he with ⟨j, _, hij⟩
        have := of_decide_eq_false hlong
        simp only [decide_eq_true_eq]
        omega
    rw [hsplit b, hsplit b', ihr]
    congr 1
    funext i
    rw [ihr']
  | alt r r' ihr ihr' =>
    simp only [ends, filter_append]
    rw [ihr, ihr']
  | star p =>
    have hrange : ∀ b : List α, (ends isWord (star p) prev (a ++ b)).filter (· ≤ a.length) =
        (List.range ((a.takeWhile p).length + 1)).reverse := by
      intro b
      simp [ends, filter_le_range, min_length_takeWhile_append]
    rw [hrange b, hrange b']

/-- Matches that end within a front are the same whatever follows it. -/
theorem ends_append {a b b' : List α} (hword : b.head?.any isWord = b'.head?.any isWord)
    (hb : ∀ e ∈ ends isWord r prev (a ++ b), e ≤ a.length)
    (hb' : ∀ e ∈ ends isWord r prev (a ++ b'), e ≤ a.length) :
    ends isWord r prev (a ++ b) = ends isWord r prev (a ++ b') := by
  have hfilter : (ends isWord r prev (a ++ b)).filter (· ≤ a.length) =
      (ends isWord r prev (a ++ b')).filter (· ≤ a.length) := filter_ends_append hword
  rwa [filter_eq_self.mpr (by simpa using hb), filter_eq_self.mpr (by simpa using hb')]
    at hfilter

/-! ## Expressions that an alphabet cannot match -/

/-- Whether the elements of a list could make a match. -/
def possible (A : List α) : Regex α → Bool
  | empty => true
  | item p => A.any p
  | boundary => true
  | seq r s => r.possible A && s.possible A
  | alt r s => r.possible A || s.possible A
  | star _ => true

theorem ends_of_not_possible {A : List α} (hr : r.possible A = false) (hs : ∀ x ∈ s, x ∈ A) :
    ends isWord r prev s = [] := by
  induction r generalizing prev s with
  | empty => exact absurd hr (by simp [possible])
  | item p =>
    refine eq_nil_iff_forall_not_mem.mpr fun e he ↦ ?_
    rcases mem_ends_item.mp he with ⟨_, x, rest, rfl, hx⟩
    exact absurd hx (by simpa using any_eq_false.mp hr x (hs x mem_cons_self))
  | boundary => exact absurd hr (by simp [possible])
  | seq r r' ihr ihr' =>
    rw [possible, Bool.and_eq_false_iff] at hr
    refine eq_nil_iff_forall_not_mem.mpr fun e he ↦ ?_
    rcases mem_ends_seq.mp he with ⟨i, hi, j, hj, _⟩
    rcases hr with hr | hr
    · rw [ihr hr hs] at hi
      exact not_mem_nil hi
    · rw [ihr' hr fun x hx ↦ hs x (mem_of_mem_drop hx)] at hj
      exact not_mem_nil hj
  | alt r r' ihr ihr' =>
    rw [possible, Bool.or_eq_false_iff] at hr
    rw [ends, ihr hr.1 hs, ihr' hr.2 hs, append_nil]
  | star p => exact absurd hr (by simp [possible])

/-! ## Replacing -/

namespace Rule

variable {rule : Rule α}

theorem matchAt_of_not_possible {A : List α}
    (hrule : rule.kept.possible A = false ∨ rule.hidden.possible A = false) (hs : ∀ x ∈ s, x ∈ A) :
    rule.matchAt isWord prev s = none := by
  refine findSome?_eq_none_iff.mpr fun k hk ↦ ?_
  rcases hrule with hrule | hrule
  · rw [ends_of_not_possible hrule hs] at hk
    cases hk
  · rw [ends_of_not_possible hrule fun x hx ↦ hs x (mem_of_mem_drop hx)]
    rfl

theorem replaceLoop_eq_replaceFrom {rounds : ℕ} (hrounds : s.length ≤ rounds) :
    rule.replaceLoop isWord rounds prev s = rule.replaceFrom isWord prev s := by
  suffices hsame : ∀ n m prev (s : List α), s.length ≤ n → s.length ≤ m →
      rule.replaceLoop isWord n prev s = rule.replaceLoop isWord m prev s from
    hsame rounds s.length prev s hrounds le_rfl
  intro n
  induction n with
  | zero =>
    intro m prev s hn _
    rw [length_eq_zero_iff.mp (Nat.le_zero.mp hn)]
    cases m with
    | zero | succ => rfl
  | succ n ih =>
    intro m prev s hn hm
    cases m with
    | zero =>
      rw [length_eq_zero_iff.mp (Nat.le_zero.mp hm)]
      rfl
    | succ m =>
      cases s with
      | nil => rfl
      | cons x s =>
        rw [length_cons] at hn hm
        have hnext := ih m (some x) s (by omega) (by omega)
        simp only [replaceLoop]
        split
        · next k e _ =>
          split
          · rw [hnext]
          · have hdrop : ((x :: s).drop e).length ≤ s.length := by
              rw [length_drop, length_cons]
              omega
            rw [ih m _ _ (by omega) (by omega)]
        · rw [hnext]

theorem replaceFrom_of_none {x : α} (hnone : rule.matchAt isWord prev (x :: s) = none) :
    rule.replaceFrom isWord prev (x :: s) = x :: rule.replaceFrom isWord (some x) s := by
  rw [replaceFrom, length_cons, replaceLoop]
  simp only [hnone]
  rw [replaceLoop_eq_replaceFrom le_rfl]

theorem replaceFrom_eq_self (hnone : ∀ prev t, t <:+ s → rule.matchAt isWord prev t = none) :
    rule.replaceFrom isWord prev s = s := by
  induction s generalizing prev with
  | nil => rfl
  | cons x s ih =>
    rw [replaceFrom_of_none (hnone prev _ (suffix_refl _)),
      ih fun prev t ht ↦ hnone prev t (ht.trans (suffix_cons x s))]

theorem replaceAll_of_not_possible (rule : Rule α) {A : List α}
    (hrule : rule.kept.possible A = false ∨ rule.hidden.possible A = false) (hs : ∀ x ∈ s, x ∈ A) :
    rule.replaceAll isWord s = s :=
  replaceFrom_eq_self fun _ _ ht ↦ matchAt_of_not_possible hrule fun x hx ↦ hs x (ht.subset hx)

theorem replaceFrom_of_some (hs : s ≠ []) {k : ℕ} (hsome : rule.matchAt isWord prev s = some (k, e))
    (he : 0 < e) :
    rule.replaceFrom isWord prev s =
      s.take k ++ rule.mask ++ rule.replaceFrom isWord (before prev s e) (s.drop e) := by
  cases s with
  | nil => exact absurd rfl hs
  | cons x s =>
    rw [replaceFrom, length_cons, replaceLoop]
    simp only [hsome]
    rw [if_neg (by omega), replaceLoop_eq_replaceFrom]
    rw [length_drop, length_cons]
    omega

theorem kept_le_of_matchAt {k : ℕ} (hsome : rule.matchAt isWord prev s = some (k, e)) : k ≤ e := by
  rcases exists_of_findSome?_eq_some hsome with ⟨i, _, hfound⟩
  rcases Option.map_eq_some_iff.mp hfound with ⟨j, _, hij⟩
  rcases Prod.mk.inj hij with ⟨hk, he⟩
  omega

/-- A match that ends within a front. -/
theorem replaceFrom_front {X T : List α} {k : ℕ}
    (hsome : rule.matchAt isWord prev (X ++ T) = some (k, e)) (hpos : 0 < e) (hle : e ≤ X.length) :
    rule.replaceFrom isWord prev (X ++ T) =
      X.take k ++ rule.mask ++ rule.replaceFrom isWord (before prev X e) (X.drop e ++ T) := by
  have hkept := kept_le_of_matchAt hsome
  have hne : X ++ T ≠ [] := by
    refine append_ne_nil_of_left_ne_nil (fun hnil ↦ ?_) T
    rw [hnil, length_nil] at hle
    omega
  rw [replaceFrom_of_some hne hsome hpos, before, take_append_of_le_length (hkept.trans hle),
    take_append_of_le_length hle, drop_append_of_le_length hle, before]

/-- Texts that are treated alike behind a front, and in front of which all matches end, are treated
alike as a whole. -/
theorem replaceFrom_congr {T T' : List α}
    (hback : ∀ prev, rule.replaceFrom isWord prev T = rule.replaceFrom isWord prev T')
    (hfront : ∀ prev X, X ≠ [] → rule.matchAt isWord prev (X ++ T) = rule.matchAt isWord prev (X ++ T') ∧
      ∀ k e, rule.matchAt isWord prev (X ++ T) = some (k, e) → 0 < e ∧ e ≤ X.length)
    (prev : Option α) (X : List α) :
    rule.replaceFrom isWord prev (X ++ T) = rule.replaceFrom isWord prev (X ++ T') := by
  induction hsize : X.length using Nat.strong_induction_on generalizing X prev with
  | _ n ih =>
    cases X with
    | nil => exact hback prev
    | cons x X =>
      rcases hfront prev (x :: X) (cons_ne_nil x X) with ⟨hsame, hspec⟩
      cases hfound : rule.matchAt isWord prev (x :: X ++ T) with
      | none =>
        have hstep : rule.replaceFrom isWord prev (x :: X ++ T) =
            x :: rule.replaceFrom isWord (some x) (X ++ T) := replaceFrom_of_none hfound
        have hstep' : rule.replaceFrom isWord prev (x :: X ++ T') =
            x :: rule.replaceFrom isWord (some x) (X ++ T') := replaceFrom_of_none (hsame ▸ hfound)
        rw [hstep, hstep', ih X.length (by rw [← hsize, length_cons]; omega) (some x) X rfl]
      | some found =>
        rcases found with ⟨k, e⟩
        rcases hspec k e hfound with ⟨hpos, hle⟩
        have hsmaller : ((x :: X).drop e).length < n := by
          rw [length_drop]
          omega
        rw [replaceFrom_front hfound hpos hle, replaceFrom_front (hsame ▸ hfound) hpos hle,
          ih _ hsmaller _ _ rfl]

end Rule

end Regex

end RanHoneypot
