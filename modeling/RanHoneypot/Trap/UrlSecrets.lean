import RanHoneypot.Alert.MetaBounds
import RanHoneypot.Data.Utf8Valid
import RanHoneypot.Trap.ScrubRules

/-!
# Passwords of URLs in the meta of alerts

The command text is cut to 256 bytes before it is scrubbed. Where the cut falls into the credentials of a
URL, the at sign behind the password is gone and the rule for URLs does not find the password any more:
the part of it in front of the cut gets into the meta. The same holds for a URL with a password but no
user name, which the rule does not look for. In all other cases the meta does not depend on the
password.
-/

namespace RanHoneypot.Trap

open GoText Utf8 Regex Alert List

/-! ## Sanitizing -/

section Sanitize

variable {max : ℕ} {xs ys : List (ℕ × ℕ)} {written : Text}

theorem sanitizeLoop_fits (hxs : ∀ rune ∈ xs, IsScalar rune.1)
    (hfits : (written ++ sanitizeAll xs).length ≤ max) :
    sanitizeLoop max (xs ++ ys) written = sanitizeLoop max ys (written ++ sanitizeAll xs) := by
  induction xs generalizing written with
  | nil => simp [sanitizeAll]
  | cons rune xs ih =>
    have hlength := runeLen_sanitizeRune (hxs rune mem_cons_self)
    have hall : sanitizeAll (rune :: xs) =
        encodeRune (sanitizeRune ..) ++ sanitizeAll xs := flatMap_cons
    rw [hall, ← append_assoc] at hfits ⊢
    have hfirst : (written ++ encodeRune (sanitizeRune rune.1 rune.2)).length ≤ max := by
      rw [length_append] at hfits
      omega
    rw [length_append] at hfirst
    rw [cons_append, sanitizeLoop]
    rw [if_neg (by omega), ih (fun other hother ↦ hxs other (mem_cons_of_mem _ hother)) hfits]

/-- What follows a text that does not fit is not looked at. -/
theorem sanitizeLoop_cut (hxs : ∀ rune ∈ xs, IsScalar rune.1) (hwritten : written.length ≤ max)
    (hcut : max < (written ++ sanitizeAll xs).length) :
    sanitizeLoop max (xs ++ ys) written = sanitizeLoop max xs written := by
  induction xs generalizing written with
  | nil =>
    rw [sanitizeAll, flatMap_nil, append_nil] at hcut
    omega
  | cons rune xs ih =>
    have hlength := runeLen_sanitizeRune (hxs rune mem_cons_self)
    have hall : sanitizeAll (rune :: xs) =
        encodeRune (sanitizeRune ..) ++ sanitizeAll xs := flatMap_cons
    rw [hall, ← append_assoc] at hcut
    rw [cons_append, sanitizeLoop, sanitizeLoop]
    split
    · rfl
    · refine ih (fun other hother ↦ hxs other (mem_cons_of_mem _ hother)) ?_ hcut
      rw [length_append]
      omega

theorem sanitizeLoop_full (hys : ∀ rune ∈ ys, IsScalar rune.1) (hfull : max ≤ written.length) :
    sanitizeLoop max ys written = written := by
  cases ys with
  | nil => rfl
  | cons rune ys =>
    have hlength := runeLen_sanitizeRune (hys rune mem_cons_self)
    have hpos := length_pos_iff.mpr (encodeRune_ne_nil (sanitizeRune rune.1 rune.2))
    rw [sanitizeLoop]
    rw [if_pos (by omega)]

/-- What is written depends only on how much was written before. -/
theorem sanitizeLoop_length (max : ℕ) (ys : List (ℕ × ℕ)) (length : ℕ) :
    ∃ rest, ∀ written : Text, written.length = length →
      sanitizeLoop max ys written = written ++ rest := by
  induction ys generalizing length with
  | nil => exact ⟨[], fun written _ ↦ (append_nil _).symm⟩
  | cons rune ys ih =>
    by_cases hcut : (max : ℤ) < length + runeLen (sanitizeRune rune.1 rune.2)
    · refine ⟨[], fun written hwritten ↦ ?_⟩
      rw [sanitizeLoop]
      rw [if_pos (by rw [hwritten]; exact hcut), append_nil]
    · rcases ih (length + (encodeRune _).length) with ⟨rest, hrest⟩
      refine ⟨encodeRune (sanitizeRune rune.1 rune.2) ++ rest, fun written hwritten ↦ ?_⟩
      rw [sanitizeLoop]
      rw [if_neg (by rw [hwritten]; exact hcut), hrest _ (by rw [length_append, hwritten]),
        append_assoc]

end Sanitize

/-- `sanitizeMeta` writes valid text without the characters it replaces and leaves it alone when it
reads it again. It writes as many of the cleaned characters as fit, and `sanitizeHTTPValue` writes the
same at its limit. -/
theorem sanitizers_agree_at_fixed_point (s : Text) (max : ℕ) :
    let out := sanitizeMeta s max
    let cleaned := (runes s).map fun rune ↦ sanitizeRune rune.1 rune.2
    (Valid out ∧ out.length ≤ max ∧ ∀ rune ∈ runes out, isControl rune.1 = false ∧
      inRanges formatRanges rune.1 = false ∧ rune.1 ≠ 0x2028 ∧ rune.1 ≠ 0x2029) ∧
    sanitizeMeta out max = out ∧
    (∃ n, out = (cleaned.take n).flatMap encodeRune) ∧
    (∀ n, ((cleaned.take n).flatMap encodeRune).length ≤ max →
      (cleaned.take n).flatMap encodeRune <+: out) ∧
    sanitizeHTTPValue s = sanitizeMeta s 256 := by
  intro out cleaned
  have hcleaned (n : ℕ) : (cleaned.take n).flatMap encodeRune = sanitizeAll ((runes s).take n) := by
    rw [← map_take, flatMap_map]
    rfl
  refine ⟨?_, sanitizeMeta_idempotent s max, ?_, ?_, sanitizeHTTPValue_eq s⟩
  · rcases sanitizeMeta_spec s max with ⟨rs, hrs, heq, hlength⟩
    have hscalar : ∀ r ∈ rs, IsScalar r := fun r hr ↦ (hrs r hr).1
    simp only [out, heq] at hlength ⊢
    refine ⟨valid_flatMap_encodeRune hscalar, hlength, ?_⟩
    rw [runes_flatMap_encodeRune hscalar, forall_mem_map]
    intro r hr
    simpa [and_assoc] using (hrs r hr).allowed
  · rcases sanitizeMeta_split s max with ⟨xs, ys, hrunes, heq, _⟩
    refine ⟨xs.length, ?_⟩
    rw [hcleaned, hrunes, take_left]
    exact heq
  · intro n hfits
    rw [hcleaned] at hfits ⊢
    exact sanitizeMeta_longest hfits

/-! ## Texts with a URL -/

/-- Printable ASCII, which sanitizing does not change. -/
def IsPrintable (b : UInt8) : Prop := 0x20 ≤ b.toNat ∧ b.toNat < 0x7F

instance : DecidablePred IsPrintable := fun b ↦
  inferInstanceAs (Decidable (0x20 ≤ b.toNat ∧ b.toNat < 0x7F))

theorem encodeRune_printable :
    ∀ b : UInt8, IsPrintable b → encodeRune (sanitizeRune b.toNat 1) = [b] := by
  apply forall_byte
  decide +kernel

theorem IsPrintable.isAscii {b : UInt8} (hb : IsPrintable b) : IsAscii b := by
  have := hb.2
  rw [IsAscii]
  omega

theorem sanitizeAll_printable {s : Text} (hs : ∀ b ∈ s, IsPrintable b) :
    sanitizeAll (s.map fun b ↦ (b.toNat, 1)) = s := by
  induction s with
  | nil => rfl
  | cons b s ih =>
    have hb := encodeRune_printable b (hs b mem_cons_self)
    have hrest := ih fun c hc ↦ hs c (mem_cons_of_mem b hc)
    rw [sanitizeAll] at hrest ⊢
    rw [map_cons, flatMap_cons, hb, hrest, singleton_append]

/-- A text of ASCII letters and digits. -/
def IsAlnumText (s : Text) : Prop := ∀ b ∈ s, IsAlnum b.toNat

/-- The URL up to the password. -/
def urlFront (scheme user : Text) : Text :=
  scheme ++ (ch ':' :: ch '/' :: ch '/' :: user) ++ [ch ':']

/-- A URL with credentials in a text. -/
def urlText (pre scheme user password tail : Text) : Text :=
  pre ++ (urlFront scheme user ++ (password ++ ch '@' :: tail))

theorem IsAlnumText.printable {s : Text} (hs : IsAlnumText s) : ∀ b ∈ s, IsPrintable b := by
  intro b hb
  have halnum := hs b hb
  unfold IsAlnum at halnum
  unfold IsPrintable
  omega

theorem urlFront_printable {scheme user : Text} (hscheme : IsAlnumText scheme)
    (huser : IsAlnumText user) : ∀ b ∈ urlFront scheme user, IsPrintable b := by
  intro b hb
  simp only [urlFront, mem_append, mem_cons, not_mem_nil, or_false] at hb
  rcases hb with (hb | hb | hb | hb | hb) | hb
  · exact hscheme.printable b hb
  · rw [hb]
    decide
  · rw [hb]
    decide
  · rw [hb]
    decide
  · exact huser.printable b hb
  · rw [hb]
    decide

section Text

variable {pre scheme user password tail : Text}

variable {front : Text}

theorem runes_before_ascii (pre : Text) (hfront : ∀ b ∈ front, IsAscii b) (hne : front ≠ [])
    (rest : Text) :
    runes (pre ++ (front ++ rest)) =
      runes pre ++ (front.map (fun b ↦ (b.toNat, 1)) ++ runes rest) := by
  cases front with
  | nil => exact absurd rfl hne
  | cons b front =>
    rw [cons_append, runes_append _ (hfront b mem_cons_self), ← cons_append,
      runes_ascii hfront]

theorem units_before_ascii (pre : Text) (hfront : ∀ b ∈ front, IsAscii b) (hne : front ≠ [])
    (rest : Text) :
    units (pre ++ (front ++ rest)) = units pre ++ (front.map asciiUnit ++ units rest) := by
  cases front with
  | nil => exact absurd rfl hne
  | cons b front =>
    rw [cons_append, units_append _ (hfront b mem_cons_self), ← cons_append,
      units_ascii hfront]

theorem urlFront_ne_nil (scheme user : Text) : urlFront scheme user ≠ [] := by
  simp [urlFront]

theorem isScalar_of_mem_map (hfront : ∀ b ∈ front, IsAscii b) :
    ∀ rune ∈ front.map fun b ↦ (b.toNat, 1), IsScalar rune.1 := by
  intro rune hrune
  rcases mem_map.mp hrune with ⟨b, hb, rfl⟩
  exact isScalar_of_lt (hfront b hb)

/-- A front that takes all the room hides what follows it. -/
theorem sanitizeHTTPValue_cut (hfront : ∀ b ∈ front, IsPrintable b) (hne : front ≠ [])
    (hlong : maxHTTPValue ≤ (sanitizeAll (runes pre)).length + front.length) (rest rest' : Text) :
    sanitizeHTTPValue (pre ++ (front ++ rest)) = sanitizeHTTPValue (pre ++ (front ++ rest')) := by
  have hascii : ∀ b ∈ front, IsAscii b := fun b hb ↦ (hfront b hb).isAscii
  have hall : sanitizeAll (runes pre ++ front.map fun b ↦ (b.toNat, 1)) =
      sanitizeAll (runes pre) ++ front := by
    rw [sanitizeAll, flatMap_append, ← sanitizeAll, ← sanitizeAll, sanitizeAll_printable hfront]
  have hscalar : ∀ rune ∈ runes pre ++ front.map fun b ↦ (b.toNat, 1), IsScalar rune.1 := by
    intro rune hrune
    rcases mem_append.mp hrune with hrune | hrune
    · exact runes_isScalar _ _ hrune
    · exact isScalar_of_mem_map hascii _ hrune
  have hsame : ∀ rest, sanitizeHTTPValue (pre ++ (front ++ rest)) =
      if maxHTTPValue < (sanitizeAll (runes pre) ++ front).length
      then sanitizeLoop maxHTTPValue (runes pre ++ front.map fun b ↦ (b.toNat, 1)) []
      else sanitizeAll (runes pre) ++ front := by
    intro rest
    rw [sanitizeHTTPValue_eq, sanitizeMeta, runes_before_ascii _ hascii hne, ← append_assoc]
    split
    · next hcut => exact sanitizeLoop_cut hscalar (Nat.zero_le _) (by rw [hall]; exact hcut)
    · next hfits =>
      rw [sanitizeLoop_fits hscalar (by rw [nil_append, hall]; omega), nil_append, hall]
      refine sanitizeLoop_full (runes_isScalar _) ?_
      rw [length_append]
      exact hlong
  rw [hsame rest, hsame rest']

/-- A front that fits stands in the text, and what follows it depends only on its length. -/
theorem sanitizeHTTPValue_fits (pre tail : Text) (length : ℕ) :
    ∃ rest, ∀ front : Text, (∀ b ∈ front, IsPrintable b) → front ≠ [] → front.length = length →
      (sanitizeAll (runes pre)).length + length ≤ maxHTTPValue →
      sanitizeHTTPValue (pre ++ (front ++ tail)) = sanitizeAll (runes pre) ++ (front ++ rest) := by
  rcases sanitizeLoop_length maxHTTPValue (runes tail) ((sanitizeAll _).length + length) with
    ⟨rest, hrest⟩
  refine ⟨rest, fun front hfront hne hlength hfits ↦ ?_⟩
  have hascii : ∀ b ∈ front, IsAscii b := fun b hb ↦ (hfront b hb).isAscii
  have hpre : (([] : Text) ++ sanitizeAll (runes pre)).length ≤ maxHTTPValue := by
    rw [nil_append]
    omega
  have hboth : (([] : Text) ++ sanitizeAll (runes pre) ++
      sanitizeAll (front.map fun b ↦ (b.toNat, 1))).length ≤ maxHTTPValue := by
    rw [sanitizeAll_printable hfront, length_append, hlength]
    exact hfits
  rw [sanitizeHTTPValue_eq, sanitizeMeta, runes_before_ascii _ hascii hne,
    sanitizeLoop_fits (runes_isScalar _) hpre,
    sanitizeLoop_fits (isScalar_of_mem_map hascii) hboth, sanitizeAll_printable hfront,
    nil_append, hrest _ (by rw [length_append, hlength]), append_assoc]

theorem credentials_printable (hscheme : IsAlnumText scheme) (huser : IsAlnumText user)
    (hpassword : IsAlnumText password) :
    ∀ b ∈ urlFront scheme user ++ (password ++ [ch '@']), IsPrintable b := by
  intro b hb
  simp only [mem_append, mem_singleton] at hb
  rcases hb with hb | hb | hb
  · exact urlFront_printable hscheme huser b hb
  · exact hpassword.printable b hb
  · rw [hb]
    decide

theorem urlText_eq (pre scheme user password tail : Text) :
    urlText pre scheme user password tail =
      pre ++ ((urlFront scheme user ++ (password ++ [ch '@'])) ++ tail) := by
  simp [urlText]

/-- The runes of a text with a URL. -/
theorem units_urlText (pre tail : Text) (hscheme : IsAlnumText scheme) (huser : IsAlnumText user)
    (hpassword : IsAlnumText password) :
    units (urlText pre scheme user password tail) =
      units pre ++ scheme.map asciiUnit ++ (colon :: slash :: slash :: user.map asciiUnit) ++ [colon] ++
        (password.map asciiUnit ++ atSign :: units tail) := by
  have hprintable := credentials_printable hscheme huser hpassword
  rw [urlText_eq, units_before_ascii _ (fun b hb ↦ (hprintable b hb).isAscii) (by simp)]
  simp [urlFront, colon, slash, atSign]

theorem IsAlnumText.secret {s : Text} (hs : IsAlnumText s) : ∀ u ∈ s.map asciiUnit, Secret u := by
  intro u hu
  rcases mem_map.mp hu with ⟨b, hb, rfl⟩
  exact hs b hb

/-- The meta does not depend on a password that stands in front of the cut with its at sign. -/
theorem metaCommandText_inside {password' : Text} (hscheme : IsAlnumText scheme)
    (huser : IsAlnumText user) (hne : user ≠ []) (hpassword : IsAlnumText password)
    (hpassword' : IsAlnumText password') (hlength : password.length = password'.length)
    (hfits : (sanitizeAll (runes pre)).length + ((urlFront scheme user).length + (password.length + 1)) ≤
      maxHTTPValue) :
    metaCommandText (urlText pre scheme user password tail) =
      metaCommandText (urlText pre scheme user password' tail) := by
  rcases sanitizeHTTPValue_fits pre tail ((urlFront ..).length + (password.length + 1)) with
    ⟨rest, hrest⟩
  have hsanitized : ∀ word : Text, IsAlnumText word → word.length = password.length →
      sanitizeHTTPValue (urlText pre scheme user word tail) =
        urlText (sanitizeAll (runes pre)) scheme user word rest := by
    intro word hword hsame
    rw [urlText_eq, urlText_eq]
    refine hrest _ (credentials_printable hscheme huser hword) (by simp) ?_ hfits
    rw [length_append, length_append, length_singleton, hsame]
  have hscrub : scrubSecrets (urlText (sanitizeAll (runes pre)) scheme user password rest) =
      scrubSecrets (urlText (sanitizeAll (runes pre)) scheme user password' rest) := by
    have hsame : SameUpTo (user.map _) (password.map _) (password'.map _)
        (units (urlText ..))
        (units (urlText ..)) :=
      .inr ⟨units (sanitizeAll (runes pre)) ++ scheme.map asciiUnit, units rest,
        units_urlText _ rest hscheme huser hpassword, units_urlText _ _ hscheme huser hpassword'⟩
    exact congrArg (List.flatMap _) (hsame.scrubRunes_eq (by simpa using hne) huser.secret
      hpassword.secret hpassword'.secret (by simpa using hlength))
  rw [metaCommandText, metaCommandText, hsanitized password hpassword rfl,
    hsanitized password' hpassword' hlength.symm, hscrub]

/-- Nor on a password that stands behind the cut. -/
theorem metaCommandText_behind {password' : Text} (hscheme : IsAlnumText scheme)
    (huser : IsAlnumText user)
    (hlong : maxHTTPValue ≤ (sanitizeAll (runes pre)).length + (urlFront scheme user).length) :
    metaCommandText (urlText pre scheme user password tail) =
      metaCommandText (urlText pre scheme user password' tail) := by
  have hcut := sanitizeHTTPValue_cut (urlFront_printable hscheme huser) (urlFront_ne_nil _ _)
    hlong (password ++ ch '@' :: tail) (password' ++ ch '@' :: tail)
  rw [metaCommandText, metaCommandText, urlText, hcut, ← urlText]

end Text

/-! ## Passwords that get through -/

/-- Characters that make up no name of a secret. -/
def harmless : List UInt8 := [ch '@', ch 'x', ch 'y', ch 'z', ch ':', ch '/']

theorem printable_of_harmless {b : UInt8} (hb : b ∈ harmless) : IsPrintable b := by
  have hall : harmless.all (fun b ↦ decide (IsPrintable b)) = true := by decide
  exact of_decide_eq_true (all_eq_true.mp hall b hb)

theorem sanitizeHTTPValue_printable {s : Text} (hs : ∀ b ∈ s, IsPrintable b) :
    sanitizeHTTPValue s = s.take maxHTTPValue := by
  have htake : ∀ b ∈ s.take maxHTTPValue, IsPrintable b := fun b hb ↦ hs b (mem_of_mem_take hb)
  have hascii : ∀ b ∈ s.take maxHTTPValue, IsAscii b := fun b hb ↦ (htake b hb).isAscii
  have hrunes : runes s = (s.take maxHTTPValue).map (fun b ↦ (b.toNat, 1)) ++
      runes (s.drop maxHTTPValue) := by
    rw [← runes_ascii hascii, take_append_drop]
  have hfits : (([] : Text) ++ sanitizeAll ((s.take maxHTTPValue).map fun b ↦ (b.toNat, 1))).length ≤
      maxHTTPValue := by
    rw [sanitizeAll_printable htake]
    exact length_take_le ..
  rw [sanitizeHTTPValue_eq, sanitizeMeta, hrunes, sanitizeLoop_fits (isScalar_of_mem_map hascii) hfits,
    sanitizeAll_printable htake, nil_append]
  by_cases hlong : maxHTTPValue ≤ s.length
  · refine sanitizeLoop_full (runes_isScalar _) ?_
    rw [length_take]
    omega
  · rw [drop_eq_nil_of_le (by omega)]
    rfl

/-- Only the rule for URLs could find something in such a text. -/
theorem scrubSecrets_harmless {s : Text} (hs : ∀ b ∈ s, b ∈ harmless)
    (hurl : urlCredRe.replaceAll isWord (s.map asciiUnit) = s.map asciiUnit) : scrubSecrets s = s := by
  have hascii : ∀ b ∈ s, IsAscii b := fun b hb ↦ (printable_of_harmless (hs b hb)).isAscii
  have hunits : units s = s.map asciiUnit := by
    have happend := units_ascii hascii []
    rw [append_nil] at happend
    rw [happend]
    exact append_nil _
  have hmem : ∀ u ∈ s.map asciiUnit, u ∈ harmless.map asciiUnit := by
    intro u hu
    rcases mem_map.mp hu with ⟨b, hb, rfl⟩
    exact mem_map_of_mem (hs b hb)
  have hscrub : scrubRunes (s.map asciiUnit) = s.map asciiUnit := by
    unfold scrubRunes
    rw [cookieRe.replaceAll_of_not_possible (.inl (by decide +kernel)) hmem,
      authHeaderRe.replaceAll_of_not_possible (.inl (by decide +kernel)) hmem,
      bearerRe.replaceAll_of_not_possible (.inl (by decide +kernel)) hmem, hurl,
      flagRe.replaceAll_of_not_possible (.inl (by decide +kernel)) hmem,
      keyValueRe.replaceAll_of_not_possible (.inl (by decide +kernel)) hmem]
  rw [scrubSecrets, hunits, hscrub, flatMap_map]
  exact flatMap_singleton' s

/-- Without an at sign there are no credentials. -/
theorem url_replaceAll_of_no_at {s : Text} (hs : ∀ b ∈ s, b ∈ harmless.tail) :
    urlCredRe.replaceAll isWord (s.map asciiUnit) = s.map asciiUnit := by
  have hmem : ∀ u ∈ s.map asciiUnit, u ∈ harmless.tail.map asciiUnit := by
    intro u hu
    rcases mem_map.mp hu with ⟨b, hb, rfl⟩
    exact mem_map_of_mem (hs b hb)
  exact urlCredRe.replaceAll_of_not_possible (.inr (by decide +kernel)) hmem

/-- A match starts with the end of a scheme and the first character of a user name. -/
theorem url_matchAt_none {prev : Option TextRune} {t : List TextRune}
    (ht : ∀ a b c v rest, t = a :: b :: c :: v :: rest → a.1 = 58 → b.1 = 47 → c.1 = 47 → v.1 = 58) :
    urlCredRe.matchAt isWord prev t = none := by
  refine findSome?_eq_none_iff.mpr fun k hk ↦ ?_
  rcases mem_ends_urlKept hk with ⟨rfl, a, b, c, rest, rfl, ha, hb, hc⟩
  refine Option.map_eq_none_iff.mpr (head?_eq_none_iff.mpr ?_)
  refine eq_nil_iff_forall_not_mem.mpr fun e he ↦ ?_
  rcases mem_ends_seq.mp he with ⟨i, hi, _⟩
  rcases mem_ends_seq.mp hi with ⟨j, hj, _⟩
  rcases mem_ends_item.mp hj with ⟨_, v, rest', hrest, hv⟩
  have hcolon : v.1 = 58 := ht a b c v rest' (by rw [← hrest]; rfl) ha hb hc
  exact notIn_iff.mp hv ':' (by decide) hcolon

/-- An empty user name is not looked for. -/
theorem url_replaceAll_of_no_user {xs ws : List TextRune} (hxs : ∀ u ∈ xs, u.1 ≠ 58)
    (hws : ∀ u ∈ ws, u.1 ≠ 58 ∧ u.1 ≠ 47) :
    urlCredRe.replaceAll isWord (xs ++ colon :: slash :: slash :: colon :: ws) =
      xs ++ colon :: slash :: slash :: colon :: ws := by
  refine Rule.replaceFrom_eq_self fun prev t ht ↦ url_matchAt_none ?_
  rintro a b c v rest rfl ha hb hc
  induction xs with
  | cons x xs ih =>
    rcases suffix_cons_iff.mp ht with heq | ht
    · have hx : a = x := (List.cons.inj heq).1
      exact absurd ha (hx ▸ hxs x mem_cons_self)
    · exact ih (fun u hu ↦ hxs u (mem_cons_of_mem x hu)) ht
  | nil =>
    have hslash : slash.1 ≠ 58 := by decide
    rcases suffix_cons_iff.mp ht with heq | ht
    · have hv : v = colon := (List.cons.inj (List.cons.inj (List.cons.inj (List.cons.inj heq).2).2).2).1
      rw [hv]
      rfl
    rcases suffix_cons_iff.mp ht with heq | ht
    · exact absurd ha ((List.cons.inj heq).1 ▸ hslash)
    rcases suffix_cons_iff.mp ht with heq | ht
    · exact absurd ha ((List.cons.inj heq).1 ▸ hslash)
    rcases suffix_cons_iff.mp ht with heq | ht
    · have hb' : b ∈ ws := (List.cons.inj heq).2 ▸ mem_cons_self
      exact absurd hb (hws b hb').2
    · exact absurd ha (hws a (ht.subset mem_cons_self)).1

/-- A text in which only a URL could be found, with a password of one letter. -/
def visibleText (m k u n : ℕ) (letter : UInt8) : Text :=
  urlText (.replicate m (ch 'x')) (.replicate k (ch 'x')) (.replicate u (ch 'x')) (.replicate n letter) []

/-- The text up to the password. -/
def visibleFront (m k u : ℕ) : Text :=
  .replicate m (ch 'x') ++ urlFront (.replicate k (ch 'x')) (.replicate u (ch 'x'))

section Visible

variable {m k u n : ℕ} {letter : UInt8}

theorem visibleText_eq : visibleText m k u n letter =
    visibleFront m k u ++ (.replicate n letter ++ [ch '@']) := by
  simp [visibleText, visibleFront, urlText]

theorem length_visibleFront : (visibleFront m k u).length = m + k + u + 4 := by
  simp only [visibleFront, urlFront, length_append, length_cons, length_nil,
    length_replicate]
  omega

theorem mem_visibleFront (hletter : letter = ch 'y' ∨ letter = ch 'z') {b : UInt8}
    (hb : b ∈ visibleFront m k u ++ .replicate n letter) : b ∈ harmless.tail := by
  have hletters : letter ∈ harmless.tail := by
    rcases hletter with hletter | hletter <;> rw [hletter] <;> decide
  simp only [visibleFront, urlFront, mem_append, mem_cons, mem_replicate,
    not_mem_nil, or_false] at hb
  have hharmless : ∀ c ∈ harmless.tail, b = c → b ∈ harmless.tail := fun c hc heq ↦ heq ▸ hc
  rcases hb with (hb | ((hb | hb | hb | hb | hb) | hb)) | hb
  · exact hharmless _ (by decide) hb.2
  · exact hharmless _ (by decide) hb.2
  · exact hharmless _ (by decide) hb
  · exact hharmless _ (by decide) hb
  · exact hharmless _ (by decide) hb
  · exact hharmless _ (by decide) hb.2
  · exact hharmless _ (by decide) hb
  · exact hharmless _ hletters hb.2

theorem mem_visibleText (hletter : letter = ch 'y' ∨ letter = ch 'z') {b : UInt8}
    (hb : b ∈ visibleText m k u n letter) : b ∈ harmless := by
  rw [visibleText_eq, ← append_assoc] at hb
  rcases mem_append.mp hb with hb | hb
  · exact mem_of_mem_tail (mem_visibleFront hletter hb)
  · rw [mem_singleton.mp hb]
    decide

/-- The rule for URLs does not find credentials that are cut off or have no user name. -/
theorem url_replaceAll_visible (hletter : letter = ch 'y' ∨ letter = ch 'z')
    (hvisible : u = 0 ∨ maxHTTPValue < m + k + u + n + 5) :
    urlCredRe.replaceAll isWord (((visibleText m k u n letter).take maxHTTPValue).map asciiUnit) =
      ((visibleText m k u n letter).take maxHTTPValue).map asciiUnit := by
  have hlength : (visibleFront m k u ++ .replicate n letter).length = m + k + u + n + 4 := by
    rw [length_append, length_visibleFront, length_replicate]
    omega
  rw [visibleText_eq, ← append_assoc]
  by_cases hcut : maxHTTPValue < m + k + u + n + 5
  · rw [take_append_of_le_length (by omega)]
    exact url_replaceAll_of_no_at fun b hb ↦ mem_visibleFront hletter (mem_of_mem_take hb)
  · have hu : u = 0 := hvisible.resolve_right hcut
    have hall : (visibleFront m k u ++ .replicate n letter ++ [ch '@']).length ≤ maxHTTPValue := by
      rw [length_append, length_singleton]
      omega
    have hunits : (visibleFront m k u ++ .replicate n letter ++ [ch '@']).map asciiUnit =
        (List.replicate m (ch 'x') ++ .replicate k (ch 'x')).map asciiUnit ++
          colon :: slash :: slash :: colon :: (List.replicate n letter ++ [ch '@']).map asciiUnit := by
      simp only [visibleFront, urlFront, hu, replicate_zero, map_append, map_cons,
        append_assoc, cons_append, nil_append, colon, slash]
    rw [take_of_length_le hall, hunits]
    refine url_replaceAll_of_no_user (fun r hr ↦ ?_) (fun r hr ↦ ?_)
    · rcases mem_map.mp hr with ⟨b, hb, rfl⟩
      have hx : b = ch 'x' := by
        rcases mem_append.mp hb with hb | hb <;> exact (mem_replicate.mp hb).2
      rw [hx]
      decide
    · rcases mem_map.mp hr with ⟨b, hb, rfl⟩
      rcases mem_append.mp hb with hb | hb
      · rw [(mem_replicate.mp hb).2]
        rcases hletter with hletter | hletter <;> rw [hletter] <;> decide
      · rw [mem_singleton.mp hb]
        decide

theorem metaCommandText_visible (hletter : letter = ch 'y' ∨ letter = ch 'z')
    (hvisible : u = 0 ∨ maxHTTPValue < m + k + u + n + 5) :
    metaCommandText (visibleText m k u n letter) = (visibleText m k u n letter).take maxHTTPValue := by
  have hharmless : ∀ b ∈ (visibleText m k u n _).take maxHTTPValue, b ∈ harmless :=
    fun b hb ↦ mem_visibleText hletter (mem_of_mem_take hb)
  rw [metaCommandText,
    sanitizeHTTPValue_printable fun b hb ↦ printable_of_harmless (mem_visibleText hletter hb),
    scrubSecrets_harmless hharmless (url_replaceAll_visible hletter hvisible),
    sanitizeHTTPValue_printable fun b hb ↦ printable_of_harmless (hharmless b hb),
    take_take, Nat.min_self]

/-- The first character of the password is in the meta. -/
theorem metaCommandText_visible_ne (hn : 0 < n) (hfront : m + k + u + 4 < maxHTTPValue)
    (hvisible : u = 0 ∨ maxHTTPValue < m + k + u + n + 5) :
    metaCommandText (visibleText m k u n (ch 'y')) ≠ metaCommandText (visibleText m k u n (ch 'z')) := by
  rw [metaCommandText_visible (.inl rfl) hvisible, metaCommandText_visible (.inr rfl) hvisible]
  intro hequal
  have hat : ∀ letter : UInt8,
      ((visibleText m k u n letter).take maxHTTPValue)[m + k + u + 4]? = some letter := by
    intro letter
    rw [getElem?_take_of_lt hfront, visibleText_eq, ← length_visibleFront,
      getElem?_append_right le_rfl, Nat.sub_self, getElem?_append_left (by simpa using hn),
      getElem?_replicate, if_pos hn]
  have hsame : some (ch 'y') = some (ch 'z') := by
    rw [← hat (ch 'y'), ← hat (ch 'z'), hequal]
  exact absurd hsame (by decide)

end Visible

/-! ## The meta and the password -/

/-- For given lengths, the meta never depends on the password if and only if the password is empty or
behind the cut, or there is a user name and the at sign is in front of the cut. -/
theorem url_password_hidden_iff (m k u n : ℕ) :
    (∀ pre scheme user password password' tail : Text, (sanitizeAll (runes pre)).length = m →
      IsAlnumText scheme → scheme.length = k → IsAlnumText user → user.length = u →
      IsAlnumText password → IsAlnumText password' → password.length = n → password'.length = n →
      metaCommandText (urlText pre scheme user password tail) =
        metaCommandText (urlText pre scheme user password' tail)) ↔
      n = 0 ∨ 256 ≤ m + k + u + 4 ∨ (1 ≤ u ∧ m + k + u + n + 5 ≤ 256) := by
  constructor
  · intro hsame
    by_contra hnot
    have halnum : ∀ (n : ℕ) (letter : UInt8), IsAlnum letter.toNat →
        IsAlnumText (.replicate n letter) := by
      intro n letter hletter b hb
      rw [(mem_replicate.mp hb).2]
      exact hletter
    have hpre : (sanitizeAll (runes (.replicate m (ch 'x')))).length = m := by
      have hprintable := (halnum m (ch 'x') (by decide)).printable
      have hrunes := runes_ascii (fun b hb ↦ (hprintable b hb).isAscii) []
      rw [append_nil, runes_nil, append_nil] at hrunes
      rw [hrunes, sanitizeAll_printable hprintable, length_replicate]
    refine metaCommandText_visible_ne (m := m) (k := k) (u := u) (n := n) (by omega) ?_ ?_
      (hsame _ _ _ _ _ [] hpre (halnum k _ (by decide)) length_replicate (halnum u _ (by decide))
        length_replicate (halnum n _ (by decide)) (halnum n _ (by decide)) length_replicate
        length_replicate)
    · rw [maxHTTPValue]
      omega
    · rw [maxHTTPValue]
      omega
  · intro hlengths pre scheme user password password' tail hpre hscheme hk huser hu hpassword
      hpassword' hn hn'
    have hfront : (urlFront scheme user).length = k + u + 4 := by
      simp only [urlFront, length_append, length_cons, length_nil]
      omega
    rcases hlengths with hempty | hbehind | ⟨hne, hinside⟩
    · rw [length_eq_zero_iff.mp (hn.trans hempty), length_eq_zero_iff.mp (hn'.trans hempty)]
    · refine metaCommandText_behind hscheme huser ?_
      rw [maxHTTPValue]
      omega
    · have huser' : user ≠ [] := by
        intro hnil
        rw [hnil, length_nil] at hu
        omega
      refine metaCommandText_inside hscheme huser huser' hpassword hpassword' (hn.trans hn'.symm) ?_
      rw [maxHTTPValue]
      omega

/-- A password of ten characters that is cut in the middle. -/
theorem cut_password_visible :
    metaCommandText (visibleText 240 4 3 10 (ch 'y')) ≠
      metaCommandText (visibleText 240 4 3 10 (ch 'z')) :=
  metaCommandText_visible_ne (by decide) (by decide) (by decide)

end RanHoneypot.Trap
