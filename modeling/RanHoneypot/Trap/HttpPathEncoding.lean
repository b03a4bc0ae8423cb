import RanHoneypot.Data.PathLower
import RanHoneypot.Trap.HttpPaths

/-!
# Exploit paths under percent encoding

Lower case is taken before percent decoding, so a letter that is percent-encoded keeps its case. All
other steps commute with decoding: an encoded path has the verdict of a path between the original and
its lower case, and the lists only get more matches on the way. A path is therefore treated alike in
all its encodings if and only if its verdict does not rest on letters that lower case changes.
-/

namespace RanHoneypot.Trap

open GoText Utf8 List

variable {lower : LowerTable}

/-! ## The lists under replaced blocks -/

theorem plain_of_all {words : List Text}
    (hall : words.all (fun word ↦ word.all fun b ↦ decide (Plain b)) = true) :
    ∀ word ∈ words, ∀ b ∈ word, Plain b := by
  intro word hword b hb
  exact of_decide_eq_true (all_eq_true.mp (all_eq_true.mp hall _ hword) b hb)

/-- The lists are in lower case. -/
theorem plain_of_lists :
    (∀ word ∈ exploitPathsExact, ∀ b ∈ word, Plain b) ∧
      (∀ word ∈ exploitPathSegments, ∀ b ∈ word, Plain b) ∧
      (∀ word ∈ exploitPathSubstrings, ∀ b ∈ word, Plain b) ∧
      (∀ word ∈ exploitPathPrefixes, ∀ b ∈ word, Plain b) ∧
      (∀ word ∈ [ofText ".env."], ∀ b ∈ word, Plain b) :=
  ⟨plain_of_all (by decide +kernel), plain_of_all (by decide +kernel),
    plain_of_all (by decide +kernel), plain_of_all (by decide +kernel),
    plain_of_all (by decide +kernel)⟩

theorem mark_slash : Mark (ch '/') := by
  unfold Mark
  decide

theorem mark_dot : Mark (ch '.') := by
  unfold Mark
  decide

variable {p q : Text}

theorem matchesPrefix_mono {pre : Text} (hpre : ∀ b ∈ pre, Plain b) (h : Replaced Plain Mark p q)
    (hmatch : matchesPrefix p pre = true) : matchesPrefix q pre = true := by
  unfold matchesPrefix at hmatch ⊢
  split at hmatch
  · next hslash =>
    rw [if_pos hslash]
    rw [Bool.or_eq_true, List.isPrefixOf_iff_prefix, beq_iff_eq] at hmatch ⊢
    rcases hmatch with hfront | hwhole
    · exact .inl (h.startsWith hpre hfront)
    · have hplain : ∀ b ∈ p, Plain b := fun b hb ↦
        hpre b (hwhole ▸ mem_append_left _ hb)
      rw [h.eq_of_plain hplain]
      exact .inr hwhole
  · next hslash =>
    rw [if_neg hslash]
    rw [Bool.or_eq_true, List.isPrefixOf_iff_prefix, beq_iff_eq] at hmatch ⊢
    rcases hmatch with hwhole | hfront
    · rw [h.eq_of_plain (hwhole ▸ hpre)]
      exact .inl hwhole
    · refine .inr (h.startsWith (fun b hb ↦ ?_) hfront)
      rcases mem_append.mp hb with hb | hb
      · exact hpre b hb
      · rw [mem_singleton.mp hb]
        decide

/-- Some pair of corresponding pieces. -/
theorem any_mono {ss ts : List Text} {accept : Text → Bool}
    (hpieces : List.Forall₂ (Replaced Plain Mark) ss ts)
    (hmono : ∀ {s t}, Replaced Plain Mark s t → accept s = true → accept t = true)
    (hany : ss.any accept = true) : ts.any accept = true := by
  induction hpieces with
  | nil => exact hany
  | cons hfirst _ ih =>
    rw [any_cons, Bool.or_eq_true] at hany ⊢
    rcases hany with hany | hany
    · exact .inl (hmono hfirst hany)
    · exact .inr (ih hany)

theorem matchCleaned_mono (h : Replaced Plain Mark p q) (hmatch : matchCleaned p = true) :
    matchCleaned q = true := by
  rcases plain_of_lists with ⟨hexact, hsegments, hsubstrings, hstartses, henv⟩
  unfold matchCleaned at hmatch ⊢
  simp only [Bool.or_eq_true] at hmatch ⊢
  rcases hmatch with ((hmatch | hmatch) | hmatch) | hmatch
  · rw [h.eq_of_plain (hexact p (contains_iff_mem.mp hmatch))]
    exact .inl (.inl (.inl hmatch))
  · refine .inl (.inl (.inr (any_mono (h.splitOn Mark.plain mark_slash) ?_ hmatch)))
    intro s t hseg hmatch
    rw [Bool.or_eq_true, List.isPrefixOf_iff_prefix] at hmatch ⊢
    rcases hmatch with hmatch | hmatch
    · rw [hseg.eq_of_plain (hsegments s (contains_iff_mem.mp hmatch))]
      exact .inl hmatch
    · exact .inr (hseg.startsWith (henv _ (mem_singleton_self _)) hmatch)
  · refine .inl (.inr ?_)
    rw [any_eq_true] at hmatch ⊢
    rcases hmatch with ⟨word, hword, hfound⟩
    refine ⟨word, hword, decide_eq_true ?_⟩
    exact h.contains (hsubstrings word hword) (of_decide_eq_true hfound)
  · refine .inr ?_
    rw [any_eq_true] at hmatch ⊢
    rcases hmatch with ⟨pre, hpre, hfound⟩
    exact ⟨pre, hpre, matchesPrefix_mono (hstartses pre hpre) h hfound⟩

/-- A path that matches still matches after blocks of letters were replaced. -/
theorem matchNormalized_mono (h : Replaced Plain Mark p q) (hmatch : matchNormalized p = true) :
    matchNormalized q = true := by
  have hrooted : Replaced Plain Mark (if p.head? = some (ch '/') then p else ch '/' :: p)
      (if q.head? = some (ch '/') then q else ch '/' :: q) := by
    simp only [h.head?_iff Mark.plain mark_slash]
    split
    · exact h
    · exact h.keep _
  unfold matchNormalized at hmatch ⊢
  rw [Bool.or_eq_true] at hmatch ⊢
  rcases hmatch with hmatch | hmatch
  · refine .inl (any_mono (hrooted.splitOn Mark.plain mark_slash) ?_ hmatch)
    intro s t hseg hparent
    rw [beq_iff_eq] at hparent ⊢
    refine (hseg.eq_marks_iff Mark.plain fun b hb ↦ ?_).mp hparent
    have hdot : b ∈ [ch '.', ch '.'] := hb
    rw [show b = ch '.' by simpa using hdot]
    exact mark_dot
  · exact .inr (matchCleaned_mono (clean_replaced Mark.plain mark_slash mark_dot hrooted) hmatch)

/-! ## The normal form of an encoded path -/

theorem decodeLoop_of_notMem (rounds : ℕ) (hp : ch '%' ∉ p) : decodeLoop rounds p = p := by
  cases rounds with
  | zero => rfl
  | succ rounds => rw [decodeLoop, if_neg (by simpa using hp)]

/-- Three rounds are enough for what was encoded up to three times. -/
theorem decodeLoop_of_escapedTimes {times rounds : ℕ} {u : Text} (hq : ch '%' ∉ q)
    (h : EscapedTimes times q u) (hrounds : times ≤ rounds) : decodeLoop rounds u = q := by
  induction times generalizing rounds u with
  | zero =>
    have hu : q = u := h
    rw [← hu, decodeLoop_of_notMem _ hq]
  | succ times ih =>
    rcases h with ⟨between, hbefore, hlast⟩
    by_cases hu : ch '%' ∈ u
    · cases rounds with
      | zero => omega
      | succ rounds =>
        have hshorter := hlast.length_lt_of_mem hu
        have hne : between ≠ u := by
          intro heq
          rw [heq] at hshorter
          exact Nat.lt_irrefl _ hshorter
        rw [decodeLoop, if_pos (by simpa using hu), hlast.pathUnescape_eq]
        simp only [if_neg hne]
        exact ih hbefore (by omega)
    · have hsame := hlast.eq_of_notMem hu
      have hbetween : ch '%' ∉ between := hsame ▸ hu
      calc
        decodeLoop rounds u = u := decodeLoop_of_notMem rounds hu
        _ = between := hsame.symm
        _ = decodeLoop times between := (decodeLoop_of_notMem _ hbetween).symm
        _ = q := ih hbefore le_rfl

/-- There is nothing to decode, to turn or to drop. -/
def Unescaped (p : Text) : Prop := ch '%' ∉ p ∧ ch ';' ∉ p ∧ ch '\\' ∉ p

theorem Unescaped.replaced (hp : Unescaped p) (h : Replaced Plain Mark p q) : Unescaped q := by
  have hmem : ∀ {b}, Mark b → b ∉ p → b ∉ q := fun hb hnot hq ↦
    hnot ((h.mem_iff Mark.plain hb).mpr hq)
  refine ⟨hmem ?_ hp.1, hmem ?_ hp.2.1, hmem ?_ hp.2.2⟩ <;> unfold Mark <;> decide

theorem normalizeHTTPPath_of_escapedTimes {times : ℕ} (hq : Unescaped q) (htimes : times ≤ 3)
    {t : Text} (h : EscapedTimes times q (toLower lower t)) : normalizeHTTPPath lower t = q := by
  have hmap : q.map (fun b ↦ if b = ch '\\' then ch '/' else b) = q.map id :=
    map_congr_left fun b hb ↦ if_neg (by intro heq; exact hq.2.2 (heq ▸ hb))
  rw [normalizeHTTPPath, decodeLoop_of_escapedTimes hq.1 h htimes, hmap, map_id,
    dropParameters, if_neg (by simpa using hq.2.1)]

/-- An encoded path has the verdict of a path between the original and its lower case. -/
theorem matchExploitPath_of_escapedTimes (lower : LowerTable) (hp : Unescaped p) {times : ℕ}
    (htimes : times ≤ 3) {t : Text} (h : EscapedTimes times p t) (hlength : t.length ≤ maxHTTPPath) :
    ∃ q, Replaced Plain Mark p q ∧ Replaced Plain Mark q (toLower lower p) ∧
      matchExploitPath lower t = matchNormalized q := by
  have hlowered : PartlyLowered lower t (toLower _ t) := partlyLowered_toLower t
  rcases PartlyLowered.of_escapedTimes h hlowered with ⟨q, hq, hpartly⟩
  refine ⟨q, hpartly.replaced, hpartly.replaced_toLower, ?_⟩
  rw [matchExploitPath, if_neg (by omega),
    normalizeHTTPPath_of_escapedTimes (hp.replaced hpartly.replaced) htimes hq]

theorem matchExploitPath_of_unescaped (hp : Unescaped p) (hlength : p.length ≤ maxHTTPPath) :
    matchExploitPath lower p = matchNormalized (toLower lower p) := by
  have hlower : EscapedTimes 0 (toLower _ p) (toLower lower p) := rfl
  rw [matchExploitPath, if_neg (by omega),
    normalizeHTTPPath_of_escapedTimes (hp.replaced (replaced_toLower _ p)) (by omega) hlower]

theorem matchExploitPath_escapeAll (lower : LowerTable) (hp : Unescaped p) (hlength : p.length ≤ 1000) :
    EscapedTimes 1 p (escapeAll p) ∧ (escapeAll p).length ≤ maxHTTPPath ∧
      matchExploitPath lower (escapeAll p) = matchNormalized p := by
  have hescaped : EscapedTimes 1 p (escapeAll p) := ⟨p, rfl, escaped_escapeAll p⟩
  have hshort : (escapeAll p).length ≤ maxHTTPPath := by
    rw [length_escapeAll, maxHTTPPath, maxHTTPBody]
    omega
  refine ⟨hescaped, hshort, ?_⟩
  have hlower : EscapedTimes 1 p (toLower lower (escapeAll p)) := by
    rw [toLower_escapeAll]
    exact hescaped
  rw [matchExploitPath, if_neg (by omega), normalizeHTTPPath_of_escapedTimes hp (by omega) hlower]

end RanHoneypot.Trap
