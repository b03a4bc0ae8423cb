import RanHoneypot.Data.GoText

/-!
# Redacted command lines

`redactCommand` of `trap.go` removes credential arguments from a command line before it is logged. It
looks for the first token that announces a secret and hides what follows. The line is cut into tokens
at white space, and a line that is redacted is put together again from its tokens.
-/

namespace RanHoneypot.Trap

open GoText Utf8 List

/-- `RAN_LOG_PASSWORDS`. -/
inductive PasswordMode where
  | on
  | mask
  | off
deriving DecidableEq

def wordRunes (word : String) : List ℕ := word.toList.map Char.toNat

/-- Verbs that carry a secret behind them, honored in the first two tokens only. -/
def sensitiveVerbs : List (List ℕ) := ["LOGIN", "PASS", "OPER", "AUTHENTICATE"].map wordRunes

/-- Words that hide everything behind them wherever they appear. -/
def sensitiveMarkers : List (List ℕ) :=
  ["AUTH", "AUTH2", "IDENTIFY", "REQUIREPASS", "MASTERAUTH", "MASTERUSER"].map wordRunes

/-- `strings.TrimPrefix(f, ":")`. -/
def trimColon (f : Text) : Text := if f.head? = some (ch ':') then f.tail else f

/-- The word that a token is looked up as. -/
def tokenWord (f : Text) : List ℕ := upperRunes (trimColon f)

/-- Keeps the first `kept` tokens and hides the rest. -/
def redactTail (mode : PasswordMode) (fields : List Text) (kept : ℕ) : Text :=
  let secret := join (ofText " ") (fields.drop kept)
  let text := join (ofText " ") (fields.take kept)
  if mode = .mask then text ++ ofText " *** (" ++ itoa secret.length ++ ofText ")" else text

/-- Whether the token at `index` announces a secret. -/
def announces (index : ℕ) (f : Text) : Bool :=
  sensitiveMarkers.contains (tokenWord f) || (index ≤ 1 && sensitiveVerbs.contains (tokenWord f))

/-- The loop over the tokens, with those that are still to come. -/
def redactLoop (mode : PasswordMode) (line : Text) (fields : List Text) (index : ℕ) :
    List Text → Text
  | [] => line
  | f :: rest =>
    if !announces index f then redactLoop mode line fields (index + 1) rest
    else if rest = [] then line
    else redactTail mode fields (index + 1)

/-- `ACL SETUSER` with a name and at least one rule. -/
def setsUser (fields : List Text) : Bool :=
  4 ≤ fields.length && equalFold (fields.getD 0 []) (wordRunes "ACL") &&
    equalFold (fields.getD 1 []) (wordRunes "SETUSER")

def redactCommand (mode : PasswordMode) (line : Text) : Text :=
  if mode = .on then line
  else if setsUser (fields line) then redactTail mode (fields line) 3
  else redactLoop mode line (fields line) 0 (fields line)

/-! ## Triggers -/

/-- A trigger ends with the token number `n`, counted from one. -/
def Triggers (fields : List Text) (n : ℕ) : Prop :=
  (∃ f, 0 < n ∧ fields[n - 1]? = some f ∧ announces (n - 1) f = true) ∨
    (n = 3 ∧ setsUser fields = true)

/-- The first trigger of a line ends with the token number `n`. -/
structure FirstTrigger (fields : List Text) (n : ℕ) : Prop where
  triggers : Triggers fields n
  first : ∀ m < n, ¬ Triggers fields m

/-- A rune that folds to a capital other than `K` has that capital as its upper case. -/
theorem upperRune_of_foldRune {r c : ℕ} (hc : c ≠ 75) (hletter : 65 ≤ c ∧ c ≤ 90)
    (hfold : foldRune r = c) : upperRune r = c := by
  unfold foldRune upperAscii at hfold
  unfold upperRune upperAscii
  split_ifs at hfold ⊢ <;> omega

/-- A token that is folded to a word without `K` is looked up as that word. -/
theorem tokenWord_of_equalFold {f : Text} {word : List ℕ} (hletters : ∀ c ∈ word, 65 ≤ c ∧ c ≤ 90)
    (hword : ∀ c ∈ word, c ≠ 75) (hfold : equalFold f word = true) : tokenWord f = word := by
  have hmap : (runes f).map (fun rune ↦ foldRune rune.1) = word := eq_of_beq hfold
  have hupper : upperRunes f = word := by
    rw [← hmap]
    apply map_congr_left
    intro rune hrune
    have hmem : foldRune rune.1 ∈ word := hmap ▸ mem_map_of_mem hrune
    exact upperRune_of_foldRune (hword _ hmem) (hletters _ hmem) rfl
  have hcolon : f.head? ≠ some (ch ':') := by
    intro hhead
    rcases head?_eq_some_iff.mp hhead with ⟨rest, hrest⟩
    have hfirst : foldRune 58 ∈ word := by
      rw [← hmap, hrest]
      exact mem_map.mpr ⟨decodeRune (ch ':' :: rest), by simp [runes, runesLoop], rfl⟩
    have hbound := hletters _ hfirst
    exact absurd hbound.1 (by decide)
  rw [tokenWord, trimColon, if_neg hcolon, hupper]

/-- The two words of `ACL SETUSER` announce nothing themselves. -/
theorem not_announces_of_setsUser {fields : List Text} (hacl : setsUser fields = true) {index : ℕ}
    (hindex : index < 2) {f : Text} (hf : fields[index]? = some f) : announces index f = false := by
  rw [setsUser, Bool.and_eq_true, Bool.and_eq_true] at hacl
  have hget : fields.getD index [] = f := by rw [getD_eq_getElem?_getD, hf, Option.getD_some]
  rcases Nat.lt_succ_iff_lt_or_eq.mp hindex with hzero | hone
  · have hword : tokenWord f = wordRunes "ACL" := by
      rw [← hget, Nat.lt_one_iff.mp hzero]
      exact tokenWord_of_equalFold (by decide) (by decide) hacl.1.2
    rw [announces, hword, Nat.lt_one_iff.mp hzero]
    rfl
  · have hword : tokenWord f = wordRunes "SETUSER" := by
      rw [← hget, hone]
      exact tokenWord_of_equalFold (by decide) (by decide) hacl.2
    rw [announces, hword, hone]
    rfl

/-- A line that sets a user has its first trigger at the name. -/
theorem FirstTrigger.eq_three {fields : List Text} {n : ℕ} (h : FirstTrigger fields n)
    (hacl : setsUser fields = true) : n = 3 := by
  rcases h.triggers with hann | hthree
  · rcases hann with ⟨f, hpos, hf, hannounces⟩
    rcases Nat.lt_trichotomy n 3 with hless | heq | hmore
    · have hquiet := not_announces_of_setsUser hacl (by omega : n - 1 < 2) hf
      cases hquiet.symm.trans hannounces
    · exact heq
    · exact absurd (.inr ⟨rfl, hacl⟩) (h.first 3 hmore)
  · exact hthree.1

/-! ## What the redaction depends on -/

theorem redactLoop_append (mode : PasswordMode) (line : Text) (fields : List Text) {index : ℕ}
    {quiet : List Text} {f : Text} {more : List Text}
    (hquiet : ∀ k g, quiet[k]? = some g → announces (index + k) g = false)
    (hannounces : announces (index + quiet.length) f = true) (hmore : more ≠ []) :
    redactLoop mode line fields index (quiet ++ f :: more) =
      redactTail mode fields (index + quiet.length + 1) := by
  induction quiet generalizing index with
  | nil =>
    rw [length_nil, Nat.add_zero] at hannounces
    simp only [nil_append, redactLoop, hannounces, length_nil]
    rw [if_neg (by simp), if_neg hmore]
  | cons g rest ih =>
    have hfirst : announces index g = false := hquiet 0 g rfl
    have hrest : ∀ k h, rest[k]? = some h → announces (index + 1 + k) h = false := by
      intro k h hk
      have hquiet' := hquiet (k + 1) h hk
      rwa [Nat.add_comm k 1, ← Nat.add_assoc] at hquiet'
    have hlength : index + (g :: rest).length = index + 1 + rest.length := by
      rw [length_cons]
      omega
    rw [hlength] at hannounces ⊢
    rw [cons_append, redactLoop, if_pos (by simp [hfirst]), ih hrest hannounces]

/-- A line with something behind its first trigger is cut there. -/
theorem redactCommand_eq {mode : PasswordMode} (hmode : mode ≠ .on) {line : Text} {n : ℕ}
    (h : FirstTrigger (fields line) n) (hmore : n < (fields line).length) :
    redactCommand mode line = redactTail mode (fields line) n := by
  rw [redactCommand, if_neg hmode]
  split
  · next hacl => rw [h.eq_three hacl]
  · next hacl =>
    rcases h.triggers with hann | hthree
    · rcases hann with ⟨f, hpos, hf, hannounces⟩
      rcases Nat.exists_eq_add_one_of_ne_zero (Nat.pos_iff_ne_zero.mp hpos) with ⟨k, rfl⟩
      have hget : (fields line)[k] = f := (List.getElem?_eq_some_iff.mp hf).2
      have hsplit : fields line = (fields line).take k ++ f :: (fields line).drop (k + 1) := by
        rw [← hget, getElem_cons_drop, take_append_drop]
      have hlength : ((fields line).take k).length = k := by
        rw [length_take]
        omega
      have hquiet : ∀ m g, ((fields line).take k)[m]? = some g → announces (0 + m) g = false := by
        intro m g hg
        rw [getElem?_take] at hg
        split at hg
        · rw [Nat.zero_add]
          by_contra hloud
          exact h.first (m + 1) (by omega) (.inl ⟨g, by omega, hg, Bool.of_not_eq_false hloud⟩)
        · cases hg
      have hrest : (fields line).drop (k + 1) ≠ [] := by
        rw [ne_eq, drop_eq_nil_iff]
        omega
      have hloop := redactLoop_append mode line (fields line) hquiet
        (by rw [hlength, Nat.zero_add]; exact hannounces) hrest
      rw [← hsplit, hlength, Nat.zero_add] at hloop
      exact hloop
    · exact absurd hthree.2 hacl

theorem Triggers.congr {fields fields' : List Text} {n m : ℕ} (hagree : fields.take n = fields'.take n)
    (hm : m ≤ n) (hmore' : n < fields'.length) (h : Triggers fields m) : Triggers fields' m := by
  have hget : ∀ k < n, fields[k]? = fields'[k]? := by
    intro k hk
    rw [← getElem?_take_of_lt hk, hagree, getElem?_take_of_lt hk]
  rcases h with hann | hthree
  · rcases hann with ⟨f, hpos, hf, hannounces⟩
    exact .inl ⟨f, hpos, hget (m - 1) (by omega) ▸ hf, hannounces⟩
  · have hacl := hthree.2
    rw [setsUser, getD_eq_getElem?_getD, getD_eq_getElem?_getD, hget 0 (by omega),
      hget 1 (by omega), ← getD_eq_getElem?_getD, ← getD_eq_getElem?_getD,
      Bool.and_eq_true, Bool.and_eq_true] at hacl
    refine .inr ⟨hthree.1, ?_⟩
    rw [setsUser, hacl.1.2, hacl.2, Bool.and_true, Bool.and_true]
    exact decide_eq_true (by omega)

/-- Lines that agree up to and including the first trigger, with something behind it, have the same
first trigger. -/
theorem FirstTrigger.congr {fields fields' : List Text} {n : ℕ} (h : FirstTrigger fields n)
    (hagree : fields.take n = fields'.take n) (hmore : n < fields.length)
    (hmore' : n < fields'.length) : FirstTrigger fields' n where
  triggers := h.triggers.congr hagree (le_refl n) hmore'
  first := fun m hm htriggers ↦
    h.first m hm (htriggers.congr hagree.symm (le_of_lt hm) hmore)

/-- What stands behind the first trigger of a line is not copied to the output: in mode `off` it does
not matter at all, and in mode `mask` only its length does. -/
theorem redactCommand_noninterference (line line' : Text) (n : ℕ)
    (htrigger : FirstTrigger (fields line) n) (hagree : (fields line).take n = (fields line').take n)
    (hmore : n < (fields line).length) (hmore' : n < (fields line').length) :
    redactCommand .off line = redactCommand .off line' ∧
      ((join (ofText " ") ((fields line).drop n)).length =
          (join (ofText " ") ((fields line').drop n)).length →
        redactCommand .mask line = redactCommand .mask line') := by
  have htrigger' := htrigger.congr hagree hmore hmore'
  constructor
  · rw [redactCommand_eq (by decide) htrigger hmore, redactCommand_eq (by decide) htrigger' hmore',
      redactTail, hagree]
    rfl
  · intro hlength
    rw [redactCommand_eq (by decide) htrigger hmore, redactCommand_eq (by decide) htrigger' hmore',
      redactTail, redactTail, hagree, hlength]

/-- Two Redis lines that log in with different passwords. -/
theorem redactCommand_noninterference_auth :
    redactCommand .off (ofText "HELLO 3 auth bob hunter2") =
        redactCommand .off (ofText "HELLO 3  auth eve x") ∧
      redactCommand .mask (ofText "HELLO 3 auth bob hunter2") =
        redactCommand .mask (ofText "HELLO 3 auth eve secret1") := by
  have htrigger : FirstTrigger (fields (ofText "HELLO 3 auth bob hunter2")) 3 := by
    refine ⟨.inl ⟨ofText "auth", by decide, by decide +kernel, by decide +kernel⟩, ?_⟩
    intro m hm htriggers
    rcases htriggers with hann | hacl
    · rcases hann with ⟨f, hpos, hf, hannounces⟩
      have hquiet : ∀ k < 2, ∀ g ∈ (fields (ofText "HELLO 3 auth bob hunter2"))[k]?,
          announces k g = false := by decide +kernel
      exact Bool.noConfusion ((hquiet (m - 1) (by omega) f hf).symm.trans hannounces)
    · omega
  exact ⟨(redactCommand_noninterference _ _ 3 htrigger (by decide +kernel) (by decide +kernel)
      (by decide +kernel)).1,
    (redactCommand_noninterference _ _ 3 htrigger (by decide +kernel) (by decide +kernel)
      (by decide +kernel)).2 (by decide +kernel)⟩

end RanHoneypot.Trap
