import RanHoneypot.Data.RegexHiding
import RanHoneypot.Trap.SecretScrub

/-!
# Passwords of URLs under the scrub rules

The rules for cookies, authorization headers and bearer tokens come before the rule for URLs. Each of
them hides the password of a URL together with all that surrounds it, or leaves the URL as it is. The
rule for URLs then hides what is left, so that two texts that only differ in such a password become
equal.
-/

namespace RanHoneypot.Trap

open GoText Utf8 Regex List

/-! ## Classes -/

variable {cs : List Char} {u : TextRune}

def IsAlnum (v : ℕ) : Prop := (48 ≤ v ∧ v ≤ 57) ∨ (65 ≤ v ∧ v ≤ 90) ∨ (97 ≤ v ∧ v ≤ 122)

/-- A character of a password, and of a user name. -/
def Secret (u : TextRune) : Prop := IsAlnum u.1

/-- A character of the URL up to the password. -/
def Solid (u : TextRune) : Prop := IsAlnum u.1 ∨ u.1 = 58 ∨ u.1 = 47

def colon : TextRune := asciiUnit (ch ':')
def slash : TextRune := asciiUnit (ch '/')
def atSign : TextRune := asciiUnit (ch '@')

/-- A letter in either case, or a hyphen. -/
def InName (u : TextRune) : Prop := (65 ≤ foldRune u.1 ∧ foldRune u.1 ≤ 90) ∨ foldRune u.1 = 45

def InSeparator (u : TextRune) : Prop := u.1 ∈ [34, 39, 32, 9, 58, 61]

def IsBlank (u : TextRune) : Prop := u.1 = 32 ∨ u.1 = 9

theorem inRunes_iff : inRunes cs u = true ↔ ∃ c ∈ cs, u.1 = c.toNat := by
  simp [inRunes, oneRune]

theorem notIn_iff : notIn cs u = true ↔ ∀ c ∈ cs, u.1 ≠ c.toNat := by
  simp [notIn, inRunes, oneRune]

theorem blank_within : (plus blank).Within IsBlank := by
  have hblank : ∀ u : TextRune, blank u = true → IsBlank u := by
    intro u hu
    rcases inRunes_iff.mp hu with ⟨c, hc, heq⟩
    simp only [mem_cons, not_mem_nil, or_false] at hc
    rcases hc with hc | hc
    · exact .inl (by rw [heq, hc]; rfl)
    · exact .inr (by rw [heq, hc]; rfl)
  exact ⟨hblank, hblank⟩

def isNameChar (c : Char) : Bool :=
  (65 ≤ upperAscii c.toNat && upperAscii c.toNat ≤ 90) || upperAscii c.toNat == 45

theorem word_within (text : String) (htext : text.toList.all isNameChar = true) :
    (word text).Within InName := by
  refine within_items fun p hp u hu ↦ ?_
  rcases mem_map.mp hp with ⟨c, hc, rfl⟩
  have hfold : foldRune u.1 = upperAscii c.toNat := by simpa [folded] using hu
  rw [InName, hfold]
  simpa [isNameChar] using all_eq_true.mp htext c hc

theorem separator_within (hcs : cs.all (fun c ↦ [34, 39, 32, 9, 58, 61].contains c.toNat) = true) :
    (separator cs).Within InSeparator := by
  have hruns : ∀ {cs : List Char}, cs.all (fun c ↦ [34, 39, 32, 9, 58, 61].contains c.toNat) = true →
      ∀ u : TextRune, inRunes cs u = true → InSeparator u := by
    intro cs hcs u hu
    rcases inRunes_iff.mp hu with ⟨c, hc, heq⟩
    rw [InSeparator, heq]
    exact contains_iff_mem.mp (all_eq_true.mp hcs c hc)
  exact ⟨⟨hruns rfl, trivial⟩, hruns rfl, hruns hcs, hruns rfl⟩

theorem secret_spec (hu : Secret u) :
    Solid u ∧ isWord u = true ∧ ¬ InSeparator u ∧ ¬ IsBlank u := by
  unfold Secret IsAlnum at hu
  refine ⟨.inl hu, ?_, ?_, ?_⟩
  · simp only [isWord, Bool.or_eq_true, Bool.and_eq_true, decide_eq_true_eq]
    omega
  · simp only [InSeparator, mem_cons, not_mem_nil, or_false]
    omega
  · unfold IsBlank
    omega

instance : DecidablePred IsAlnum := fun v ↦
  inferInstanceAs (Decidable ((48 ≤ v ∧ v ≤ 57) ∨ (65 ≤ v ∧ v ≤ 90) ∨ (97 ≤ v ∧ v ≤ 122)))

/-- A character that does not occur in the URL up to the at sign. -/
def isStop (c : Char) : Bool :=
  !(decide (IsAlnum c.toNat) || c.toNat == 58 || c.toNat == 47 || c.toNat == 64)

theorem oneRune_of_solid {c : Char} (hc : isStop c = true) (hu : Solid u) :
    oneRune c u = false := by
  simp only [isStop, Bool.not_eq_true', Bool.or_eq_false_iff, decide_eq_false_iff_not,
    beq_eq_false_iff_ne] at hc
  refine beq_eq_false_iff_ne.mpr fun heq ↦ ?_
  rw [Solid, heq] at hu
  rcases hu with hu | hu | hu
  · exact hc.1.1.1 hu
  · exact hc.1.1.2 hu
  · exact hc.1.2 hu

theorem notIn_of_solid (hcs : cs.all isStop = true) (hu : Solid u) : notIn cs u = true := by
  refine notIn_iff.mpr fun c hc heq ↦ ?_
  have hone := oneRune_of_solid (all_eq_true.mp hcs c hc) hu
  exact absurd heq (by simpa [oneRune] using hone)

instance : DecidablePred InName := fun u ↦
  inferInstanceAs (Decidable ((65 ≤ foldRune u.1 ∧ foldRune u.1 ≤ 90) ∨ foldRune u.1 = 45))

instance : DecidablePred InSeparator := fun u ↦
  inferInstanceAs (Decidable (u.1 ∈ [34, 39, 32, 9, 58, 61]))

instance : DecidablePred IsBlank := fun u ↦ inferInstanceAs (Decidable (u.1 = 32 ∨ u.1 = 9))

/-! ## The rules before that for URLs -/

theorem value_covers (hcs : cs.all isStop = true) (hat : notIn cs atSign = true) :
    Covers isWord Solid atSign (value cs) :=
  covers_alt (covers_quoted (fun _ hu ↦ oneRune_of_solid rfl hu) (by decide))
    (covers_alt (covers_quoted (fun _ hu ↦ oneRune_of_solid rfl hu) (by decide))
      (covers_plus (fun _ hu ↦ notIn_of_solid hcs hu) hat))

/-- The scheme of an authorization header and the blanks behind it. -/
theorem scheme_within :
    (seq (oneOf (["bearer", "basic", "digest", "token"].map word)) (plus blank)).Within
      fun u ↦ InName u ∨ IsBlank u := by
  refine within_seq (within_oneOf fun r hr ↦ ?_) (blank_within.mono fun _ hu ↦ .inr hu)
  rcases mem_map.mp hr with ⟨text, htext, rfl⟩
  have hletters : ["bearer", "basic", "digest", "token"].all (fun text ↦
      text.toList.all isNameChar) = true := by
    decide +kernel
  exact (word_within _ (all_eq_true.mp hletters _ htext)).mono fun _ hu ↦ .inl hu

theorem not_blank_of_solid (hu : Solid u) : ¬ IsBlank u := by
  unfold Solid IsAlnum at hu
  unfold IsBlank
  omega

def cookieRe_hiding : Hiding isWord Solid Secret colon atSign cookieRe where
  name := seq boundary (seq (opt (word "set-")) (word "cookie"))
  separator := separator [':']
  inName := InName
  inSeparator := InSeparator
  kept := rfl
  name_within := within_seq trivial
    (within_seq (within_alt (word_within "set-" (by decide +kernel)) trivial)
      (word_within "cookie" (by decide +kernel)))
  separator_within := separator_within rfl
  separator_null := rfl
  hidden_covers := covers_plus (fun _ hu ↦ notIn_of_solid rfl hu) (by decide)
  hidden_null := rfl
  not_inName_y := by decide
  not_inName_z := by decide
  not_inSeparator_z := by decide
  solid_y := .inr (.inl (by decide))
  secret_spec := fun _ hu ↦
    ⟨(secret_spec hu).1, (secret_spec hu).2.1, (secret_spec hu).2.2.1⟩

def authHeaderRe_hiding : Hiding isWord Solid Secret colon atSign authHeaderRe where
  name := seq boundary (alt (word "proxy-authorization") (word "authorization"))
  separator := separator [':', '=']
  inName := InName
  inSeparator := InSeparator
  kept := rfl
  name_within := within_seq trivial
    (within_alt (word_within "proxy-authorization" (by decide +kernel))
      (word_within "authorization" (by decide +kernel)))
  separator_within := separator_within rfl
  separator_null := rfl
  hidden_covers := covers_opt scheme_within (by decide) (blank_within.endsIn rfl).seq
    (fun _ hu ↦ not_blank_of_solid hu) (value_covers rfl (by decide))
  hidden_null := rfl
  not_inName_y := by decide
  not_inName_z := by decide
  not_inSeparator_z := by decide
  solid_y := .inr (.inl (by decide))
  secret_spec := fun _ hu ↦
    ⟨(secret_spec hu).1, (secret_spec hu).2.1, (secret_spec hu).2.2.1⟩

def bearerRe_hiding : Hiding isWord Solid Secret colon atSign bearerRe where
  name := seq boundary (word "bearer")
  separator := plus blank
  inName := InName
  inSeparator := IsBlank
  kept := rfl
  name_within := within_seq trivial (word_within "bearer" (by decide +kernel))
  separator_within := blank_within
  separator_null := rfl
  hidden_covers := covers_plus (fun _ hu ↦ notIn_of_solid rfl hu) (by decide)
  hidden_null := rfl
  not_inName_y := by decide
  not_inName_z := by decide
  not_inSeparator_z := by decide
  solid_y := .inr (.inl (by decide))
  secret_spec := fun _ hu ↦
    ⟨(secret_spec hu).1, (secret_spec hu).2.1, (secret_spec hu).2.2.2⟩

/-! ## The rule for URLs -/

section Url

variable {prev : Option TextRune} {R T us W W' Y : List TextRune}

theorem oneRune_iff {c : Char} : oneRune c u = true ↔ u.1 = c.toNat := by
  simp [oneRune]

theorem mem_ends_urlKept {k : ℕ} {s : List TextRune} (hk : k ∈ ends isWord urlCredRe.kept prev s) :
    k = 3 ∧ ∃ a b c rest, s = a :: b :: c :: rest ∧ a.1 = 58 ∧ b.1 = 47 ∧ c.1 = 47 := by
  rcases mem_ends_seq.mp hk with ⟨i, hi, j, hj, hij⟩
  rcases mem_ends_item.mp hi with ⟨rfl, a, s, rfl, hcolon⟩
  rcases mem_ends_seq.mp hj with ⟨i', hi', j', hj', hij'⟩
  rcases mem_ends_item.mp hi' with ⟨rfl, b, s, hb, hslash⟩
  rcases mem_ends_item.mp hj' with ⟨rfl, c, rest, hc, hslash'⟩
  simp only [drop_succ_cons, drop_zero] at hb hc
  rw [hb, drop_succ_cons, drop_zero] at hc
  exact ⟨by omega, a, b, c, rest, by rw [hb, hc], oneRune_iff.mp hcolon, oneRune_iff.mp hslash,
    oneRune_iff.mp hslash'⟩

/-- What separates the parts of a URL is not found across its beginning. -/
theorem urlKept_le (hR : R ≠ []) {k : ℕ}
    (hk : k ∈ ends isWord urlCredRe.kept prev (R ++ colon :: T)) : k = 3 ∧ k ≤ R.length := by
  rcases mem_ends_urlKept hk with ⟨rfl, a, b, c, rest, hs, _, hb, hc⟩
  refine ⟨rfl, ?_⟩
  have hcolon : colon.1 ≠ 47 := by decide
  cases R with
  | nil => exact absurd rfl hR
  | cons x R =>
    cases R with
    | nil =>
      have heq : colon = b := (List.cons.inj (List.cons.inj hs).2).1
      exact absurd (heq ▸ hb) hcolon
    | cons x' R =>
      cases R with
      | nil =>
        have heq : colon = c := (List.cons.inj (List.cons.inj (List.cons.inj hs).2).2).1
        exact absurd (heq ▸ hc) hcolon
      | cons x'' R => simp

theorem urlHidden_within : urlCredRe.hidden.Within fun u ↦ u.1 ≠ 47 := by
  have hnot : ∀ {cs : List Char}, '/' ∈ cs → ∀ u : TextRune, notIn cs u = true → u.1 ≠ 47 :=
    fun hcs u hu ↦ notIn_iff.mp hu '/' hcs
  have hone : ∀ {c : Char}, c.toNat ≠ 47 → ∀ u : TextRune, oneRune c u = true → u.1 ≠ 47 :=
    fun hc u hu ↦ oneRune_iff.mp hu ▸ hc
  exact within_seq (within_seq (hnot (by decide)) (hnot (by decide)))
    (within_seq (hone (by decide)) (within_seq (within_seq (hnot (by decide)) (hnot (by decide)))
      (hone (by decide))))

theorem urlHidden_endsIn : urlCredRe.hidden.EndsIn isWord fun u ↦ u.1 = 64 := by
  have hat : (item (oneRune '@')).EndsIn isWord fun u ↦ u.1 = 64 :=
    Within.endsIn (fun u hu ↦ oneRune_iff.mp hu) rfl
  exact hat.seq.seq.seq

theorem urlHidden_le {e : ℕ} (he : e ∈ ends isWord urlCredRe.hidden prev (R ++ colon :: slash :: T)) :
    e ≤ R.length := by
  have hbarrier : e ≤ (R ++ [colon]).length := by
    rw [← singleton_append, ← append_assoc] at he
    refine urlHidden_within.le_of_not he fun x hx ↦ ?_
    rw [← Option.some.inj hx]
    decide
  rcases urlHidden_endsIn _ _ e he with ⟨hpos, x, hx, hat⟩
  by_contra hlong
  rw [length_append, length_singleton] at hbarrier
  have hindex : e - 1 = R.length := by omega
  rw [hindex, getElem?_append_right le_rfl, Nat.sub_self] at hx
  rw [← Option.some.inj hx] at hat
  exact absurd hat (by decide)

/-- A match in front of a URL ends there. -/
theorem url_matchAt_front (hR : R ≠ []) (prev : Option TextRune) (T T' : List TextRune) :
    urlCredRe.matchAt isWord prev (R ++ colon :: slash :: T) =
        urlCredRe.matchAt isWord prev (R ++ colon :: slash :: T') ∧
      ∀ k e, urlCredRe.matchAt isWord prev (R ++ colon :: slash :: T) = some (k, e) →
        0 < e ∧ k ≤ R.length ∧ e ≤ R.length := by
  have hmatch : ∀ T, urlCredRe.matchAt isWord prev (R ++ colon :: slash :: T) =
      (ends isWord urlCredRe.kept prev (R ++ colon :: slash :: T)).findSome? fun k ↦
        (ends isWord urlCredRe.hidden (before prev R k) (R.drop k ++ colon :: slash :: T)).head?.map
          fun e ↦ (k, k + e) := by
    intro T
    refine findSome?_congr fun k hk ↦ ?_
    have hle := (urlKept_le hR hk).2
    rw [before, take_append_of_le_length hle, before, drop_append_of_le_length hle]
  have hkept : ends isWord urlCredRe.kept prev (R ++ colon :: slash :: T) =
      ends isWord urlCredRe.kept prev (R ++ colon :: slash :: T') :=
    ends_append rfl (fun k hk ↦ (urlKept_le hR hk).2) fun k hk ↦ (urlKept_le hR hk).2
  have hhidden : ∀ k, ends isWord urlCredRe.hidden (before prev R k) (R.drop k ++ colon :: slash :: T) =
      ends isWord urlCredRe.hidden (before prev R k) (R.drop k ++ colon :: slash :: T') :=
    fun k ↦ ends_append rfl (fun e he ↦ urlHidden_le he) fun e he ↦ urlHidden_le he
  rw [hmatch T, hmatch T', hkept]
  constructor
  · exact findSome?_congr fun k _ ↦ by rw [hhidden k]
  · intro k e hfound
    rcases exists_of_findSome?_eq_some hfound with ⟨i, hi, hfound⟩
    rcases Option.map_eq_some_iff.mp hfound with ⟨j, hj, hij⟩
    rcases Prod.mk.inj hij with ⟨hk, he⟩
    have hthree := urlKept_le hR hi
    have hle := urlHidden_le (mem_of_head? hj)
    rw [length_drop] at hle
    omega

/-- At the credentials themselves the rule matches up to the at sign. -/
theorem url_matchAt_credentials (hus : us ≠ []) (hsecret : ∀ u ∈ us, Secret u) (hW : ∀ u ∈ W, Secret u)
    (hne : W ≠ []) :
    urlCredRe.matchAt isWord prev (colon :: slash :: slash :: us ++ [colon] ++ (W ++ atSign :: Y)) =
      some (3, (colon :: slash :: slash :: us ++ [colon]).length + W.length + 1) := by
  have hkept : ends isWord urlCredRe.kept prev
      (colon :: slash :: slash :: (us ++ colon :: (W ++ atSign :: Y))) = [3] := by
    simp [urlCredRe, ends, oneRune_iff, colon, slash, asciiUnit, ch]
  have hnotIn : ∀ {cs : List Char}, cs.all (fun c ↦ !decide (IsAlnum c.toNat)) = true →
      ∀ {u : TextRune}, Secret u → notIn cs u = true := by
    intro cs hcs u hu
    refine notIn_iff.mpr fun c hc heq ↦ ?_
    have hnot : ¬ IsAlnum c.toNat := by simpa using all_eq_true.mp hcs c hc
    exact hnot (heq ▸ hu)
  have hpassword : ∀ prev : Option TextRune, (ends isWord
      (seq (plus (notIn (['@'] ++ spaceChars ++ ['/', '\'', '"']))) (item (oneRune '@'))) prev
      (W ++ atSign :: Y)).head? = some (W.length + 1) :=
    fun prev ↦ head?_ends_plus_seq hne (fun u hu ↦ hnotIn rfl (hW u hu)) (by decide) rfl
  have hhidden : ∀ prev : Option TextRune, (ends isWord urlCredRe.hidden prev
      (us ++ colon :: (W ++ atSign :: Y))).head? = some (us.length + (1 + (W.length + 1))) := by
    intro prev
    refine head?_ends_plus_seq hus (fun u hu ↦ hnotIn rfl (hsecret u hu)) (by decide) ?_
    rw [head?_ends_item_seq (by decide), hpassword]
    rfl
  have htext : colon :: slash :: slash :: us ++ [colon] ++ (W ++ atSign :: Y) =
      colon :: slash :: slash :: (us ++ colon :: (W ++ atSign :: Y)) := by
    simp
  rw [htext, Rule.matchAt, hkept, findSome?_singleton]
  simp only [drop_succ_cons, drop_zero, hhidden, Option.map_some, length_append,
    length_cons, length_nil]
  congr 2
  omega

/-- Texts with the same URL but for the password become equal. -/
theorem replaceFrom_url (hus : us ≠ []) (hsecret : ∀ u ∈ us, Secret u) (hW : ∀ u ∈ W, Secret u)
    (hW' : ∀ u ∈ W', Secret u) (hlength : W.length = W'.length) :
    urlCredRe.replaceFrom isWord prev
        (R ++ (colon :: slash :: slash :: us) ++ [colon] ++ (W ++ atSign :: Y)) =
      urlCredRe.replaceFrom isWord prev
        (R ++ (colon :: slash :: slash :: us) ++ [colon] ++ (W' ++ atSign :: Y)) := by
  by_cases hne : W = []
  · rw [hne] at hlength
    rw [hne, length_eq_zero_iff.mp hlength.symm]
  have hne' : W' ≠ [] := fun hnil ↦ hne (length_eq_zero_iff.mp (by rw [hlength, hnil]; rfl))
  have hstep : ∀ (prev : Option TextRune) (W : List TextRune), (∀ u ∈ W, Secret u) → W ≠ [] →
      urlCredRe.replaceFrom isWord prev
        (colon :: slash :: slash :: us ++ [colon] ++ (W ++ atSign :: Y)) =
      (colon :: slash :: slash :: us ++ [colon]).take 3 ++ urlCredRe.mask ++
        urlCredRe.replaceFrom isWord (some atSign) Y := by
    intro prev W hW hne
    rw [Hiding.replaceFrom_hidden (url_matchAt_credentials hus hsecret hW hne) (by simp) (by omega),
      Nat.sub_self]
    rfl
  have hassoc : ∀ W : List TextRune,
      R ++ (colon :: slash :: slash :: us) ++ [colon] ++ (W ++ atSign :: Y) =
        R ++ (colon :: slash :: slash :: us ++ [colon] ++ (W ++ atSign :: Y)) := by
    intro W
    simp
  rw [hassoc W, hassoc W']
  refine Rule.replaceFrom_congr (fun prev ↦ ?_) (fun prev X hX ↦ ?_) _ R
  · rw [hstep prev W hW hne, hstep prev W' hW' hne']
  · rcases url_matchAt_front hX prev (slash :: us ++ [colon] ++ (W ++ atSign :: Y))
      (slash :: us ++ [colon] ++ (W' ++ atSign :: Y)) with ⟨hsame, hspec⟩
    exact ⟨hsame, fun k e hfound ↦ ⟨(hspec k e hfound).1, (hspec k e hfound).2.2⟩⟩

end Url

/-! ## All rules -/

/-- Equal texts, or texts that differ in the password of one URL. -/
def SameUpTo (us W W' t t' : List TextRune) : Prop :=
  t = t' ∨ ∃ X Y, t = X ++ (colon :: slash :: slash :: us) ++ [colon] ++ (W ++ atSign :: Y) ∧
    t' = X ++ (colon :: slash :: slash :: us) ++ [colon] ++ (W' ++ atSign :: Y)

section Rules

variable {us W W' t t' : List TextRune}

theorem SameUpTo.replaceAll {rule : Rule TextRune} (hrule : Hiding isWord Solid Secret colon atSign rule)
    (hus : ∀ u ∈ us, Secret u) (hW : ∀ u ∈ W, Secret u) (hW' : ∀ u ∈ W', Secret u)
    (hlength : W.length = W'.length) (h : SameUpTo us W W' t t') :
    SameUpTo us W W' (rule.replaceAll isWord t) (rule.replaceAll isWord t') := by
  have hsolid : ∀ u ∈ colon :: slash :: slash :: us, Solid u := by
    intro u hu
    simp only [mem_cons] at hu
    rcases hu with hu | hu | hu | hu
    · exact .inr (.inl (by rw [hu]; rfl))
    · exact .inr (.inr (by rw [hu]; rfl))
    · exact .inr (.inr (by rw [hu]; rfl))
    · exact (secret_spec (hus u hu)).1
  rcases h with hequal | ⟨X, Y, ht, ht'⟩
  · exact .inl (by rw [hequal])
  · rw [ht, ht']
    rcases hrule.replaceFrom_block hsolid hW hW' hlength with hequal | ⟨R, R', _, hR, hR'⟩
    · exact .inl hequal
    · exact .inr ⟨R, R', hR, hR'⟩

/-- The scrub hides the difference. -/
theorem SameUpTo.scrubRunes_eq (hne : us ≠ []) (hus : ∀ u ∈ us, Secret u) (hW : ∀ u ∈ W, Secret u)
    (hW' : ∀ u ∈ W', Secret u) (hlength : W.length = W'.length) (h : SameUpTo us W W' t t') :
    scrubRunes t = scrubRunes t' := by
  have hcookie := h.replaceAll cookieRe_hiding hus hW hW' hlength
  have hauth := hcookie.replaceAll authHeaderRe_hiding hus hW hW' hlength
  have hbearer := hauth.replaceAll bearerRe_hiding hus hW hW' hlength
  unfold scrubRunes
  rcases hbearer with hequal | ⟨X, Y, ht, ht'⟩
  · rw [hequal]
  · have hurl : urlCredRe.replaceAll isWord
          (X ++ (colon :: slash :: slash :: us) ++ [colon] ++ (W ++ atSign :: Y)) =
        urlCredRe.replaceAll isWord
          (X ++ (colon :: slash :: slash :: us) ++ [colon] ++ (W' ++ atSign :: Y)) :=
      replaceFrom_url hne hus hW hW' hlength
    rw [ht, ht', hurl]

end Rules

end RanHoneypot.Trap
