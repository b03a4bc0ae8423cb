import Mathlib.Data.List.Infix

/-!
# Removing a sequence from a text

All copies of a sequence are removed in one pass from left to right. The first letter of the sequence does
not come up again in it, so two copies never overlap. What stands around a removed copy may then join into
a new one. This happens exactly where a copy was spread out, with whole copies between its letters.

A text may also be cleaned piece by piece. A piece that ends with the beginning of a copy holds that back and
puts it before the next piece. As long as nothing joins, the pieces make up the text cleaned in one pass.
-/

namespace RanHoneypot.Removal

open List

variable {α : Type*} {e : α} {tail : List α}

/-- A copy has begun and is not complete. -/
def Begun (u q : List α) : Prop := q <+: u ∧ q ≠ u

theorem begun_cases {q : List α} (hq : Begun (e :: tail) q) :
    q = [] ∨ ∃ front back, q = e :: front ∧ tail = front ++ back ∧ back ≠ [] := by
  rcases prefix_cons_iff.mp hq.1 with hnil | ⟨front, hcons, back, hback⟩
  · exact .inl hnil
  · refine .inr ⟨front, back, hcons, hback.symm, ?_⟩
    intro hnil
    apply hq.2
    rw [hcons, ← hback, hnil, append_nil]

section

variable (he : e ∉ tail)

include he

variable {q s : List α}

/-- The rest of a begun copy does not begin one. -/
theorem not_copy_of_begun (hq : Begun (e :: tail) q) (hne : q ≠ [])
    (hs : s = [] ∨ ∃ rest, s = e :: rest) : ¬ e :: tail <+: q ++ s := by
  intro hpre
  rcases begun_cases hq with hnil | ⟨front, back, hcons, hsplit, hback⟩
  · exact hne hnil
  · rw [hcons, cons_append, cons_prefix_cons, hsplit, prefix_append_right_inj] at hpre
    rcases hs with hs | ⟨rest, hs⟩
    · rw [hs] at hpre
      exact hback (prefix_nil.mp hpre.2)
    · rw [hs] at hpre
      cases back with
      | nil => exact hback rfl
      | cons b back =>
        apply he
        rw [hsplit, (cons_prefix_cons.mp hpre.2).1]
        exact mem_append_right _ mem_cons_self

/-- A text ends with at most one copy that has begun. -/
theorem begun_suffix_unique {p : List α} (hp : Begun (e :: tail) p) (hq : Begun (e :: tail) q)
    (hpne : p ≠ []) (hqne : q ≠ []) (hps : p <:+ s) (hqs : q <:+ s) : p = q := by
  have hshorter : ∀ {p q : List α}, Begun (e :: tail) p → Begun (e :: tail) q → q ≠ [] → p ≠ [] → q <:+ p →
      p = q := by
    intro p q hp hq hqne hpne hqp
    rcases begun_cases hp with hnil | ⟨front, back, hcons, hsplit, _⟩
    · exact absurd hnil hpne
    rcases begun_cases hq with hnil | ⟨rest, _, hcons', _⟩
    · exact absurd hnil hqne
    rw [hcons] at hqp ⊢
    rcases suffix_cons_iff.mp hqp with hall | hinner
    · exact hall.symm
    · exfalso
      apply he
      rw [hsplit]
      apply mem_append_left
      apply hinner.subset
      rw [hcons']
      exact mem_cons_self
  rcases Nat.le_total q.length p.length with hle | hle
  · exact hshorter hp hq hqne hpne (suffix_of_suffix_length_le hqs hps hle)
  · exact (hshorter hq hp hpne hqne (suffix_of_suffix_length_le hps hqs hle)).symm

/-- A copy does not end inside one that has begun. -/
theorem infix_of_append_begun (hq : Begun (e :: tail) q) (hcopy : e :: tail <:+: s ++ q) :
    e :: tail <:+: s := by
  rcases hcopy with ⟨before, behind, htext⟩
  rcases append_eq_append_iff.mp htext.symm with ⟨rest, hbefore, hq'⟩ | ⟨rest, hs, _⟩
  · -- The copy would reach into `q`, which begins with the first letter.
    rcases begun_cases hq with hnil | ⟨front, back, hcons, hsplit, hback⟩
    · rw [hnil] at hq'
      rw [(append_eq_nil_iff.mp hq'.symm).1] at hbefore
      exact ⟨before, [], by rw [hbefore, append_nil, append_nil]⟩
    · cases rest with
      | nil => exact ⟨before, [], by rw [hbefore, append_nil, append_nil]⟩
      | cons b rest =>
        exfalso
        rw [hcons] at hq'
        have hfirst : b = e := (List.cons.inj hq').1.symm
        have hsuffix : b :: rest <:+ e :: tail := by
          refine suffix_of_suffix_length_le ⟨s, hbefore.symm⟩ (suffix_append ..) ?_
          have hlength := congrArg List.length hq'
          have htail := congrArg List.length hsplit
          simp only [length_cons, length_append] at hlength htail ⊢
          omega
        rcases suffix_cons_iff.mp hsuffix with hall | hinner
        · have hlength := congrArg List.length hq'
          have htail := congrArg List.length hsplit
          have hpos := length_pos_of_ne_nil hback
          rw [hall] at hlength
          simp only [length_cons, length_append] at hlength htail
          omega
        · apply he
          rw [← hfirst]
          exact hinner.subset mem_cons_self
  · exact ⟨before, rest, hs.symm⟩

end

/-- The letters of `r` in order, with copies of `u` between them. -/
inductive Spread (u : List α) : List α → List α → Prop
  | last (b : α) : Spread u [b] [b]
  | cons (b : α) (copies : ℕ) {r t : List α} (rest : Spread u r t) :
      Spread u (b :: r) (b :: ((List.replicate copies u).flatten ++ t))

/-- Letters without copies between them are not spread. -/
theorem Spread.eq_of_prefix {r t : List α} (h : Spread (e :: tail) r t) (he : e ∉ r) {copies : ℕ}
    {more : List α} (hpre : r <+: (List.replicate copies (e :: tail)).flatten ++ (t ++ more)) :
    copies = 0 ∧ t = r := by
  have hnone : ∀ {b : α} {r s : List α} {copies : ℕ}, b ≠ e →
      b :: r <+: (List.replicate copies (e :: tail)).flatten ++ s → copies = 0 := by
    intro b r s copies hb hpre
    cases copies with
    | zero => rfl
    | succ copies =>
      exact absurd (cons_prefix_cons.mp hpre).1 hb
  induction h generalizing copies with
  | last b => exact ⟨hnone (fun hb ↦ he (by simp [hb])) hpre, rfl⟩
  | cons b inner rest ih =>
    rw [mem_cons, not_or] at he
    have hzero := hnone (Ne.symm he.1) hpre
    rw [hzero, replicate_zero, flatten_nil, cons_append,
      append_assoc] at hpre
    have hinner := ih he.2 (cons_prefix_cons.mp hpre).2
    exact ⟨hzero, by rw [hinner.1, hinner.2]; rfl⟩

variable [DecidableEq α]

def removeLoop (u : List α) : ℕ → List α → List α
  | 0, s => s
  | _ + 1, [] => []
  | rounds + 1, b :: s =>
    if u <+: b :: s then removeLoop u rounds ((b :: s).drop u.length) else b :: removeLoop u rounds s

/-- `bytes.ReplaceAll(s, u, nil)` for a sequence that is not empty. -/
def remove (u s : List α) : List α := removeLoop u s.length s

theorem removeLoop_enough {rounds : ℕ} {s : List α} (hrounds : s.length ≤ rounds) :
    removeLoop (e :: tail) rounds s = remove (e :: tail) s := by
  have hany : ∀ (n m : ℕ) (s : List α), s.length ≤ n → s.length ≤ m →
      removeLoop (e :: tail) n s = removeLoop (e :: tail) m s := by
    intro n
    induction n with
    | zero =>
      intro m s hn _
      rw [eq_nil_of_length_eq_zero (Nat.le_zero.mp hn)]
      cases m <;> rfl
    | succ n ih =>
      intro m s hn hm
      cases s with
      | nil => cases m <;> rfl
      | cons b s =>
        cases m with
        | zero => simp at hm
        | succ m =>
          simp only [length_cons, Nat.add_le_add_iff_right] at hn hm
          have hdrop : ((b :: s).drop (e :: tail).length).length ≤ s.length := by simp
          rw [removeLoop, removeLoop, ih m s hn hm, ih m _ (hdrop.trans hn) (hdrop.trans hm)]
  exact hany _ _ _ hrounds (le_refl _)

@[simp] theorem remove_nil (u : List α) : remove u [] = [] := rfl

theorem remove_copy (s : List α) : remove (e :: tail) (e :: tail ++ s) = remove (e :: tail) s := by
  have hpre : e :: tail <+: e :: (tail ++ s) := prefix_append (e :: tail) s
  have hdrop : (e :: (tail ++ s)).drop (e :: tail).length = s := drop_left
  rw [cons_append, remove, length_cons, removeLoop, if_pos hpre, hdrop, removeLoop_enough]
  simp

theorem remove_cons {b : α} {s : List α} (hpre : ¬ e :: tail <+: b :: s) :
    remove (e :: tail) (b :: s) = b :: remove (e :: tail) s := by
  rw [remove, length_cons, removeLoop, if_neg hpre, removeLoop_enough (le_refl _)]

/-! ## The beginning of a copy -/

/-- What a pass makes of the text behind it depends only on a copy that has begun. -/
theorem remove_append (s : List α) : ∃ front q, s = front ++ q ∧ Begun (e :: tail) q ∧
    ∀ more, remove (e :: tail) (s ++ more) =
      remove (e :: tail) front ++ remove (e :: tail) (q ++ more) := by
  induction hsize : s.length using Nat.strong_induction_on generalizing s with
  | _ size ih =>
    cases s with
    | nil => exact ⟨[], [], rfl, ⟨List.nil_prefix, cons_ne_nil _ _ ∘ Eq.symm⟩, fun more ↦ rfl⟩
    | cons b s =>
      by_cases hpre : e :: tail <+: b :: s
      · rcases hpre with ⟨rest, hrest⟩
        have hlength := congrArg List.length hrest
        simp only [length_append, length_cons] at hlength hsize
        rcases ih rest.length (by omega) rest rfl with ⟨front, q, hsplit, hbegun, hmore⟩
        refine ⟨e :: tail ++ front, q, by rw [← hrest, hsplit, append_assoc], hbegun, fun more ↦ ?_⟩
        rw [← hrest, append_assoc, remove_copy, remove_copy, hmore]
      · by_cases hbegun : b :: s <+: e :: tail
        · refine ⟨[], b :: s, rfl, ⟨hbegun, ?_⟩, fun more ↦ rfl⟩
          exact fun heq ↦ hpre (by rw [heq])
        · rcases ih s.length (by rw [← hsize]; exact Nat.lt_succ_self _) s rfl
            with ⟨front, q, hsplit, hq, hmore⟩
          have hnever : ∀ more, ¬ e :: tail <+: b :: (s ++ more) := by
            intro more hcopy
            rcases List.prefix_or_prefix_of_prefix hcopy (prefix_append (b :: s) _) with h | h
            · exact hpre h
            · exact hbegun h
          have hfront : ¬ e :: tail <+: b :: front := by
            intro hcopy
            apply hpre
            rw [hsplit]
            exact hcopy.trans (prefix_append _ q)
          refine ⟨b :: front, q, by rw [hsplit, cons_append], hq, fun more ↦ ?_⟩
          rw [cons_append, remove_cons (hnever more), hmore, remove_cons hfront, cons_append]

/-- Letters that begin no copy are kept. -/
theorem remove_letters {r : List α} (hr : e ∉ r) (s : List α) :
    remove (e :: tail) (r ++ s) = r ++ remove (e :: tail) s := by
  induction r with
  | nil => rfl
  | cons b r ih =>
    rw [mem_cons, not_or] at hr
    rw [cons_append, remove_cons, ih hr.2, cons_append]
    exact fun hpre ↦ hr.1 (cons_prefix_cons.mp hpre).1

theorem remove_eq_self {s : List α} (hs : ¬ e :: tail <:+: s) : remove (e :: tail) s = s := by
  induction s with
  | nil => rfl
  | cons b s ih =>
    rw [remove_cons fun hpre ↦ hs hpre.isInfix, ih]
    exact fun hcopy ↦ hs (hcopy.trans (suffix_cons b s).isInfix)

section

variable (he : e ∉ tail)

include he

variable {q s : List α}

theorem remove_begun (hq : Begun (e :: tail) q) (hpre : ¬ e :: tail <+: q ++ s) :
    remove (e :: tail) (q ++ s) = q ++ remove (e :: tail) s := by
  rcases begun_cases hq with hnil | ⟨front, back, hcons, hsplit, _⟩
  · rw [hnil, nil_append, nil_append]
  · rw [hsplit, mem_append, not_or] at he
    rw [hcons, cons_append] at hpre ⊢
    rw [remove_cons hpre, remove_letters he.1,
      cons_append]

theorem remove_of_begun (hq : Begun (e :: tail) q) : remove (e :: tail) q = q := by
  by_cases hne : q = []
  · rw [hne, remove_nil]
  · have hkept := remove_begun he hq (not_copy_of_begun he hq hne (.inl rfl))
    rwa [remove_nil, append_nil] at hkept

/-- A copy at the end of a text that has begun survives the pass. -/
theorem begun_suffix_remove (hq : Begun (e :: tail) q) (hs : q <:+ s) :
    q <:+ remove (e :: tail) s := by
  rcases hs with ⟨before, hs⟩
  rcases @remove_append α e tail _ before with ⟨front, p, _, hp, hmore⟩
  have hkept : remove (e :: tail) (p ++ q) = p ++ q := by
    by_cases hne : p = []
    · rw [hne, nil_append, remove_of_begun he hq]
    · rw [remove_begun he hp, remove_of_begun he hq]
      apply not_copy_of_begun he hp hne
      rcases begun_cases hq with hnil | ⟨rest, _, hcons, _⟩
      · exact .inl hnil
      · exact .inr ⟨rest, hcons⟩
  rw [← hs, hmore, hkept, ← append_assoc]
  exact suffix_append ..

theorem infix_remove_append (hcopy : e :: tail <:+: remove (e :: tail) s) (more : List α) :
    e :: tail <:+: remove (e :: tail) (s ++ more) := by
  rcases @remove_append α e tail _ s with ⟨front, q, _, hq, hmore⟩
  have hself := hmore []
  rw [append_nil, append_nil, remove_of_begun he hq] at hself
  rw [hself] at hcopy
  rw [hmore]
  exact (infix_of_append_begun he hq hcopy).trans (prefix_append ..).isInfix

/-! ## Pieces -/

/-- A text was cleaned in pieces up to the beginning of a copy, which is held back. -/
structure Cleaned (u text out held : List α) : Prop where
  pieces : out ++ held = remove u text
  begun : Begun u held
  ending : ∀ q, Begun u q → q ≠ [] → q <:+ text → held = q

/-- The next piece, if nothing joins. -/
theorem Cleaned.next {text out held : List α} (h : Cleaned (e :: tail) text out held) {piece : List α}
    (hjoin : ¬ e :: tail <:+: remove (e :: tail) (text ++ piece)) {more keep : List α}
    (hpieces : more ++ keep = remove (e :: tail) (held ++ piece)) (hbegun : Begun (e :: tail) keep)
    (hending : ∀ q, Begun (e :: tail) q → q ≠ [] → q <:+ remove (e :: tail) (held ++ piece) → keep = q) :
    Cleaned (e :: tail) (text ++ piece) (out ++ more) keep where
  pieces := by
    rcases @remove_append α e tail _ text with ⟨front, q, htext, hq, happend⟩
    have hself := happend []
    rw [append_nil, append_nil, remove_of_begun he hq, ← h.pieces] at hself
    rw [append_assoc, hpieces, happend]
    by_cases hne : q = []
    · rw [hne, append_nil] at hself
      rw [hne, ← hself, append_assoc, append_cancel_left_eq]
      rcases begun_cases h.begun with hnil | ⟨first, back, hheld, hsplit, _⟩
      · rw [hnil, nil_append, nil_append]
      · have hu : e :: tail = held ++ back := by rw [hheld, hsplit, cons_append]
        apply remove_begun he h.begun
        intro hcopy
        -- The piece would complete a copy that the text does not have, so it would join there.
        rw [hu, prefix_append_right_inj] at hcopy
        rcases hcopy with ⟨rest, hrest⟩
        have hback : e ∉ back := fun hmem ↦ he (by rw [hsplit]; exact mem_append_right _ hmem)
        apply hjoin
        rw [happend, hne, nil_append, ← hself, ← hrest, remove_letters hback, ← append_assoc,
          append_assoc out, ← hu]
        exact ⟨out, _, rfl⟩
    · have hheld : held = q := h.ending q hq hne ⟨front, htext.symm⟩
      rw [hheld] at hself ⊢
      rw [append_cancel_right hself]
  begun := hbegun
  ending := by
    intro q hq hne hsuffix
    apply hending q hq hne
    rcases hsuffix with ⟨before, hbefore⟩
    rcases append_eq_append_iff.mp hbefore with ⟨part, htext, hq'⟩ | ⟨part, _, hpiece⟩
    · by_cases hpart : part = []
      · rw [hq', hpart]
        rw [hq', hpart] at hq
        exact begun_suffix_remove he hq (suffix_append held _)
      · have hbegun' : Begun (e :: tail) part := by
          refine ⟨(prefix_append ..).trans (hq' ▸ hq.1), fun hall ↦ hq.2 ?_⟩
          rw [hq', hall] at hq ⊢
          exact hq.1.eq_of_length_le (by simp)
        rw [h.ending _ hbegun' hpart ⟨before, htext.symm⟩, ← hq', remove_of_begun he hq]
    · exact begun_suffix_remove he hq ⟨held ++ part, by rw [hpiece, append_assoc]⟩

end

/-! ## Copies that join -/

theorem remove_copies (copies : ℕ) (s : List α) :
    remove (e :: tail) ((List.replicate copies (e :: tail)).flatten ++ s) = remove (e :: tail) s := by
  induction copies with
  | zero => rfl
  | succ copies ih =>
    rw [replicate_succ, flatten_cons, append_assoc, remove_copy, ih]

/-- Letters that come out next were spread over the text. -/
theorem spread_of_prefix_remove {r s : List α} (hr : r ≠ []) (hletters : r <+: remove (e :: tail) s) :
    ∃ copies t rest, s = (List.replicate copies (e :: tail)).flatten ++ (t ++ rest) ∧
      Spread (e :: tail) r t := by
  induction hsize : s.length using Nat.strong_induction_on generalizing r s with
  | _ size ih =>
    cases s with
    | nil => exact absurd (prefix_nil.mp hletters) hr
    | cons b s =>
      by_cases hpre : e :: tail <+: b :: s
      · rcases hpre with ⟨rest, hrest⟩
        have hlength := congrArg List.length hrest
        simp only [length_append, length_cons] at hlength hsize
        rw [← hrest, remove_copy] at hletters
        rcases ih rest.length (by omega) hr hletters rfl with ⟨copies, t, more, hsplit, hspread⟩
        refine ⟨copies + 1, t, more, ?_, hspread⟩
        rw [← hrest, hsplit, replicate_succ, flatten_cons, append_assoc]
      · rw [remove_cons hpre] at hletters
        cases r with
        | nil => exact absurd rfl hr
        | cons c r =>
          have hparts := cons_prefix_cons.mp hletters
          by_cases hlast : r = []
          · exact ⟨0, [b], s, rfl, by rw [hlast, hparts.1]; exact .last b⟩
          · rcases ih s.length (by rw [← hsize]; exact Nat.lt_succ_self _) hlast hparts.2 rfl
              with ⟨copies, t, more, hsplit, hspread⟩
            refine ⟨0, b :: ((List.replicate copies (e :: tail)).flatten ++ t), more, ?_, ?_⟩
            · rw [hsplit]
              simp
            · rw [hparts.1]
              exact .cons b copies hspread

theorem Spread.remove_eq {r t : List α} (h : Spread (e :: tail) r t) (he : e ∉ r) (more : List α) :
    remove (e :: tail) (t ++ more) = r ++ remove (e :: tail) more := by
  induction h with
  | last b => exact remove_letters he _
  | @cons b copies r t rest ih =>
    rw [mem_cons, not_or] at he
    have hb : e ∉ [b] := by simpa using he.1
    have hsplit : b :: ((List.replicate copies (e :: tail)).flatten ++ t) ++ more =
        [b] ++ ((List.replicate copies (e :: tail)).flatten ++ (t ++ more)) := by simp
    rw [hsplit, remove_letters hb, remove_copies, ih he.2]
    rfl

/-- A pass leaves a copy exactly if one was spread over the text. -/
theorem infix_remove_iff (he : e ∉ tail) {s : List α} : e :: tail <:+: remove (e :: tail) s ↔
    ∃ t, Spread (e :: tail) (e :: tail) t ∧ t ≠ e :: tail ∧ t <:+: s := by
  constructor
  · intro hcopy
    induction hsize : s.length using Nat.strong_induction_on generalizing s with
    | _ size ih =>
      cases s with
      | nil => simp at hcopy
      | cons b s =>
        by_cases hpre : e :: tail <+: b :: s
        · rcases hpre with ⟨rest, hrest⟩
          have hlength := congrArg List.length hrest
          simp only [length_append, length_cons] at hlength hsize
          rw [← hrest, remove_copy] at hcopy
          rcases ih rest.length (by omega) hcopy rfl with ⟨t, hspread, hne, ht⟩
          exact ⟨t, hspread, hne, ht.trans ⟨e :: tail, [], by rw [← hrest, append_nil]⟩⟩
        · rw [remove_cons hpre] at hcopy
          rcases infix_cons_iff.mp hcopy with hstart | hinner
          · have hparts := cons_prefix_cons.mp hstart
            by_cases htail : tail = []
            · exact absurd ⟨s, by rw [htail, hparts.1]; rfl⟩ hpre
            · rcases spread_of_prefix_remove htail hparts.2 with ⟨copies, t, rest, hsplit, hspread⟩
              have hs : e :: ((List.replicate copies (e :: tail)).flatten ++ t) ++ rest = b :: s := by
                rw [hsplit, hparts.1]
                simp
              refine ⟨_, .cons e copies hspread, fun hall ↦ hpre ?_, ⟨[], rest, hs⟩⟩
              exact ⟨rest, by rw [← hs, hall]⟩
          · rcases ih s.length (by rw [← hsize]; exact Nat.lt_succ_self _) hinner rfl
              with ⟨t, hspread, hne, ht⟩
            exact ⟨t, hspread, hne, ht.trans (suffix_cons b s).isInfix⟩
  · intro hspread
    rcases hspread with ⟨t, hspread, hne, before, behind, hs⟩
    cases hspread with
    | last b => exact absurd rfl hne
    | @cons _ copies _ t rest =>
      have hpre : ¬ e :: tail <+: e :: ((List.replicate copies (e :: tail)).flatten ++ (t ++ behind)) := by
        intro hpre
        have hplain := rest.eq_of_prefix he (cons_prefix_cons.mp hpre).2
        apply hne
        rw [hplain.1, hplain.2]
        rfl
      have hout : remove (e :: tail)
          (e :: ((List.replicate copies (e :: tail)).flatten ++ (t ++ behind))) =
            e :: tail ++ remove (e :: tail) behind := by
        rw [remove_cons hpre, remove_copies, rest.remove_eq he, cons_append]
      rcases @remove_append α e tail _ before with ⟨front, q, _, hq, happend⟩
      have hq' : remove (e :: tail)
          (q ++ e :: ((List.replicate copies (e :: tail)).flatten ++ (t ++ behind))) =
            q ++ (e :: tail ++ remove (e :: tail) behind) := by
        by_cases hnil : q = []
        · rw [hnil, nil_append, nil_append, hout]
        · rw [remove_begun he hq (not_copy_of_begun he hq hnil (.inr ⟨_, rfl⟩)), hout]
      have hsplit : s = before ++ e :: ((List.replicate copies (e :: tail)).flatten ++ (t ++ behind)) := by
        rw [← hs]
        simp
      rw [hsplit, happend, hq']
      exact ⟨remove (e :: tail) front ++ q, remove (e :: tail) behind, by simp⟩

end RanHoneypot.Removal
