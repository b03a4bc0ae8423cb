import RanHoneypot.Builder.Register
import RanHoneypot.Data.JsCoder

/-!
# Share links

A state is shared as the base64url text of a compact JSON document. The reader of a link trusts nothing:
it checks every name, drops what the register does not know, removes repeated traps, and stores values
the way the form does. What the form can produce is left unchanged by all of this.
-/

namespace RanHoneypot.Builder

open Js List Record

/-! ## The base64url code -/

def alphabet : JsText := js "ABCDEFGHIJKLMNOPQRSTUVWXYZabcdefghijklmnopqrstuvwxyz0123456789-_"

/-- The four digits of three bytes. -/
def digitGroup (b0 b1 b2 : ℕ) : List ℕ :=
  [b0 >>> 2, ((b0 &&& 3) <<< 4) ||| (b1 >>> 4), ((b1 &&& 15) <<< 2) ||| (b2 >>> 6), b2 &&& 63]

/-- Bytes that are missing at the end count as zero, and their digits are left out. -/
def base64Digits : List UInt8 → List ℕ
  | [] => []
  | [b0] => (digitGroup b0.toNat 0 0).take 2
  | [b0, b1] => (digitGroup b0.toNat b1.toNat 0).take 3
  | b0 :: b1 :: b2 :: rest => digitGroup b0.toNat b1.toNat b2.toNat ++ base64Digits rest

/-- base64url without padding. -/
def bytesToBase64Url (bytes : List UInt8) : JsText := (base64Digits bytes).map fun i ↦ alphabet.getD i 0

/-- The three bytes of four digits. -/
def byteGroup (v0 v1 v2 v3 : ℕ) : List UInt8 :=
  [UInt8.ofNat ((v0 <<< 2) ||| (v1 >>> 4)), UInt8.ofNat (((v1 &&& 15) <<< 4) ||| (v2 >>> 2)),
    UInt8.ofNat (((v2 &&& 3) <<< 6) ||| v3)]

def digitBytes : List ℕ → List UInt8
  | [] => []
  | [v0] => (byteGroup v0 0 0 0).take 1
  | [v0, v1] => (byteGroup v0 v1 0 0).take 1
  | [v0, v1, v2] => (byteGroup v0 v1 v2 0).take 2
  | v0 :: v1 :: v2 :: v3 :: rest => byteGroup v0 v1 v2 v3 ++ digitBytes rest

/-- The places of characters in the alphabet, if all of them are there. -/
def readDigits : List ℕ → Option (List ℕ)
  | [] => some []
  | c :: rest =>
    match alphabet.findIdx? fun u ↦ u.toNat == c with
    | none => none
    | some v => (readDigits rest).map (v :: ·)

/-- No result for a character outside the alphabet or an impossible length. -/
def base64UrlToBytes (text : JsText) : Option (List UInt8) :=
  if text.length % 4 = 1 then none else (readDigits (codePoints text)).map digitBytes

/-! ## Documents -/

def maxEntries : ℕ := 400

/-- The longest accepted value. -/
def maxValue : ℕ := 16384

/-- The longest accepted JSON text, in bytes. -/
def maxJSON : ℕ := 256 * 1024

def texts (names : List JsText) : Json := .arr (names.map .str)

def textRecord (values : Record JsText) : Json := .obj (values.entries.map fun e ↦ (e.1, .str e.2))

/-- A member that is left out when it is empty. -/
def optionalMember (key : JsText) (empty : Bool) (d : Json) : List (JsText × Json) :=
  if empty then [] else [(key, d)]

def compactEntries (s : BuilderState) : List (JsText × Json) :=
  (js "t", texts s.traps) ::
    (optionalMember (js "v") (withoutSecrets s.values).entries.isEmpty
        (textRecord (withoutSecrets s.values)) ++
      optionalMember (js "p") s.proxied.isEmpty (texts s.proxied))

/-- The document of a state. -/
def compact (s : BuilderState) : Json := .obj (compactEntries s)

def encodeState (s : BuilderState) : JsText := bytesToBase64Url (encodeText (stringify (compact s)))

def readNames : List Json → Option (List JsText)
  | [] => some []
  | .str name :: rest => if isTrapName name then (readNames rest).map (name :: ·) else none
  | _ :: _ => none

def names : Json → Option (List JsText)
  | .arr items => if maxEntries < items.length then none else readNames items
  | _ => none

/-- A list of names under a key; a missing key counts as an empty list. -/
def namesField (entries : List (JsText × Json)) (key : JsText) : Option (List JsText) :=
  match entries.lookup key with
  | none => some []
  | some d => names d

inductive ShareProblem where
  | invalid
  | tooLarge
deriving DecidableEq

structure ShareResult where
  state : BuilderState
  problem : Option ShareProblem
  /-- Traps and keys that the register does not know. -/
  dropped : List JsText
deriving DecidableEq

def fail (problem : ShareProblem) : ShareResult := ⟨defaultState, some problem, []⟩

section Decode

variable (cm : CaseMapping) (reg : Register)

def readValues : List (JsText × Json) → BuilderState → List JsText → ShareResult
  | [], s, dropped => ⟨s, none, dropped⟩
  | (key, .str value) :: rest, s, dropped =>
    if !isVariable key then fail .invalid
    else if maxValue < value.length then fail .tooLarge
    else if secretKeys.contains key ∨ key = ranTraps then readValues rest s dropped
    else if (resolveSetting cm reg key).isNone then readValues rest s (dropped ++ [key])
    else readValues rest (setValue cm reg s key value) dropped
  | _ :: _, _, _ => fail .invalid

def isKnown (name : JsText) : Bool := (findTrap reg name).isSome

def readCompact (entries : List (JsText × Json)) : ShareResult :=
  match namesField entries (js "t"), namesField entries (js "p") with
  | some rawTraps, some rawProxied =>
    let dropped := rawTraps.filter (fun n ↦ !isKnown reg n) ++ rawProxied.filter (fun n ↦ !isKnown reg n)
    let traps := dedupe (rawTraps.filter (isKnown reg))
    let proxied := (dedupe (rawProxied.filter (isKnown reg))).filter fun n ↦ traps.contains n
    match entries.lookup (js "v") with
    | none => ⟨⟨traps, empty, proxied⟩, none, dropped⟩
    | some (.obj values) =>
      if maxEntries < values.length then fail .tooLarge
      else readValues cm reg values ⟨traps, empty, proxied⟩ dropped
    | some _ => fail .invalid
  | _, _ => fail .invalid

/-- Whatever cannot be used yields the default state and a reason. -/
def decodeShare (hash : JsText) : ShareResult :=
  let text := trim (if hash.head? = some (unit '#') then hash.tail else hash)
  if text.isEmpty then ⟨defaultState, none, []⟩
  else
    match base64UrlToBytes text with
    | none => fail .invalid
    | some bytes =>
      if maxJSON < bytes.length then fail .tooLarge
      else
        match (decodeText bytes).bind parse with
        | some (.obj entries) => readCompact cm reg entries
        | _ => fail .invalid

def decodeState (hash : JsText) : BuilderState := (decodeShare cm reg hash).state

end Decode

/-! ## The code is undone -/

variable (bytes : List UInt8)

theorem shiftLeft_or (a : ℕ) {b k : ℕ} (hb : b < 2 ^ k) : (a <<< k) ||| b = a * 2 ^ k + b := by
  rw [← Nat.shiftLeft_add_eq_or_of_lt hb, Nat.shiftLeft_eq]

theorem digitGroup_eq {b0 b1 b2 : ℕ} (h1 : b1 < 256) (h2 : b2 < 256) :
    digitGroup b0 b1 b2 =
      [b0 / 4, b0 % 4 * 16 + b1 / 16, b1 % 16 * 4 + b2 / 64, b2 % 64] := by
  have hfirst : b1 >>> 4 < 2 ^ 4 := by
    omega
  have hsecond : b2 >>> 6 < 2 ^ 2 := by
    omega
  rw [digitGroup, shiftLeft_or _ hfirst, shiftLeft_or _ hsecond,
    show b0 &&& 3 = b0 % 4 from Nat.and_two_pow_sub_one_eq_mod b0 2,
    show b1 &&& 15 = b1 % 16 from Nat.and_two_pow_sub_one_eq_mod b1 4,
    show b2 &&& 63 = b2 % 64 from Nat.and_two_pow_sub_one_eq_mod b2 6]
  simp only [Nat.shiftRight_eq_div_pow]
  rfl

theorem byteGroup_eq {v0 v1 v2 v3 : ℕ} (h1 : v1 < 64) (h2 : v2 < 64) (h3 : v3 < 64) :
    byteGroup v0 v1 v2 v3 =
      [UInt8.ofNat (v0 * 4 + v1 / 16), UInt8.ofNat (v1 % 16 * 16 + v2 / 4),
        UInt8.ofNat (v2 % 4 * 64 + v3)] := by
  have hfirst : v1 >>> 4 < 2 ^ 2 := by
    omega
  have hsecond : v2 >>> 2 < 2 ^ 4 := by
    omega
  rw [byteGroup, shiftLeft_or _ hfirst, shiftLeft_or _ hsecond, shiftLeft_or _ (k := 6) h3,
    show v1 &&& 15 = v1 % 16 from Nat.and_two_pow_sub_one_eq_mod v1 4,
    show v2 &&& 3 = v2 % 4 from Nat.and_two_pow_sub_one_eq_mod v2 2]
  simp only [Nat.shiftRight_eq_div_pow]
  rfl

/-- The bytes of the digits of three bytes. -/
theorem byteGroup_digits (b0 b1 b2 : UInt8) :
    byteGroup (b0.toNat / 4) (b0.toNat % 4 * 16 + b1.toNat / 16) (b1.toNat % 16 * 4 + b2.toNat / 64)
      (b2.toNat % 64) = [b0, b1, b2] := by
  have h1 := b1.toNat_lt
  have h2 := b2.toNat_lt
  rw [byteGroup_eq (by omega) (by omega) (by omega)]
  have hfirst : b0.toNat / 4 * 4 + (b0.toNat % 4 * 16 + b1.toNat / 16) / 16 = b0.toNat := by omega
  have hsecond : (b0.toNat % 4 * 16 + b1.toNat / 16) % 16 * 16 +
      (b1.toNat % 16 * 4 + b2.toNat / 64) / 4 = b1.toNat := by omega
  have hthird : (b1.toNat % 16 * 4 + b2.toNat / 64) % 4 * 64 + b2.toNat % 64 = b2.toNat := by omega
  rw [hfirst, hsecond, hthird, UInt8.ofNat_toNat, UInt8.ofNat_toNat, UInt8.ofNat_toNat]

theorem digitBytes_base64Digits : digitBytes (base64Digits bytes) = bytes := by
  induction bytes using base64Digits.induct with
  | case1 => rfl
  | case2 b0 =>
    have hgroup := byteGroup_digits b0 0 0
    rw [base64Digits, digitGroup_eq (by decide) (by decide)]
    exact congrArg _ hgroup
  | case3 b0 b1 =>
    have hgroup := byteGroup_digits b0 b1 0
    rw [base64Digits, digitGroup_eq b1.toNat_lt (by decide)]
    exact congrArg _ hgroup
  | case4 b0 b1 b2 rest ih =>
    rw [base64Digits, digitGroup_eq b1.toNat_lt b2.toNat_lt]
    simp [digitBytes, byteGroup_digits, ih]

theorem base64Digits_lt : ∀ v ∈ base64Digits bytes, v < 64 := by
  have hgroup : ∀ {b0 b1 b2 : ℕ}, b0 < 256 → b1 < 256 → b2 < 256 → ∀ v ∈ digitGroup b0 b1 b2, v < 64 := by
    intro b0 b1 b2 h0 h1 h2 v hv
    rw [digitGroup_eq h1 h2] at hv
    simp only [mem_cons, not_mem_nil, or_false] at hv
    omega
  induction bytes using base64Digits.induct with
  | case1 => simp [base64Digits]
  | case2 b0 =>
    intro v hv
    exact hgroup b0.toNat_lt (by decide) (by decide) v (mem_of_mem_take hv)
  | case3 b0 b1 =>
    intro v hv
    exact hgroup b0.toNat_lt b1.toNat_lt (by decide) v (mem_of_mem_take hv)
  | case4 b0 b1 b2 rest ih =>
    intro v hv
    rw [base64Digits, mem_append] at hv
    rcases hv with hv | hv
    · exact hgroup b0.toNat_lt b1.toNat_lt b2.toNat_lt v hv
    · exact ih v hv

theorem base64Digits_length : (base64Digits bytes).length % 4 ≠ 1 := by
  induction bytes using base64Digits.induct with
  | case1 => decide
  | case2 | case3 => simp [base64Digits, digitGroup]
  | case4 b0 b1 b2 rest ih =>
    rw [base64Digits, length_append]
    have hfour : (digitGroup b0.toNat b1.toNat b2.toNat).length = 4 := rfl
    omega

/-- A character of the alphabet is found at its place and is neither white space nor a number sign. -/
theorem letter_facts : ∀ i < 64,
    (alphabet.findIdx? fun u ↦ u.toNat == (alphabet.getD i 0).toNat) = some i ∧
      isSpace (alphabet.getD i 0) = false ∧ isSurrogate (alphabet.getD i 0) = false ∧
      alphabet.getD i 0 ≠ unit '#' := by
  decide +kernel

theorem readDigits_letters {digits : List ℕ} (hdigits : ∀ v ∈ digits, v < 64) :
    readDigits (codePoints (digits.map fun i ↦ alphabet.getD i 0)) = some digits := by
  induction digits with
  | nil => rfl
  | cons v digits ih =>
    have hv := letter_facts v (hdigits v mem_cons_self)
    rw [map_cons, Paired.codePoints_single _ hv.2.2.1, readDigits, hv.1]
    simp only [ih fun w hw ↦ hdigits w (mem_cons_of_mem v hw), Option.map_some]

theorem base64UrlToBytes_bytesToBase64Url :
    base64UrlToBytes (bytesToBase64Url bytes) = some bytes := by
  rw [base64UrlToBytes, bytesToBase64Url, length_map, if_neg (base64Digits_length _),
    readDigits_letters (base64Digits_lt _), Option.map_some, digitBytes_base64Digits]

/-- The text of some bytes is taken by the reader as it is. -/
theorem base64_text_kept {bytes : List UInt8} (hne : bytes ≠ []) :
    (bytesToBase64Url bytes).head? ≠ some (unit '#') ∧
      trim (bytesToBase64Url bytes) = bytesToBase64Url bytes ∧
      (bytesToBase64Url bytes).isEmpty = false := by
  have hletters : ∀ u ∈ bytesToBase64Url bytes, isSpace u = false ∧ u ≠ unit '#' := by
    intro u hu
    rcases mem_map.mp hu with ⟨i, hi, rfl⟩
    have hi := letter_facts i (base64Digits_lt _ i hi)
    exact ⟨hi.2.1, hi.2.2.2⟩
  refine ⟨fun hhead ↦ ?_, (Trimmed.of_units fun u hu ↦ (hletters u hu).1).trim_eq, ?_⟩
  · exact (hletters _ (mem_of_mem_head? hhead)).2 rfl
  · refine Bool.eq_false_iff.mpr fun hempty ↦ hne ?_
    have hread := base64UrlToBytes_bytesToBase64Url bytes
    rw [List.isEmpty_iff.mp hempty] at hread
    exact (Option.some.inj hread).symm

/-! ## Documents are read back -/

theorem textual_texts (names : List JsText) : (texts names).Textual := by
  refine .arr fun d hd ↦ ?_
  rcases mem_map.mp hd with ⟨name, -, rfl⟩
  exact .str name

theorem textual_textRecord (values : Record JsText) : (textRecord values).Textual := by
  refine .obj ?_ fun e he ↦ ?_
  · rw [map_map]
    exact values.nodup
  · rcases mem_map.mp he with ⟨entry, -, rfl⟩
    exact .str entry.2

theorem mem_optionalMember {key : JsText} {empty : Bool} {d : Json} {e : JsText × Json}
    (he : e ∈ optionalMember key empty d) : e = (key, d) := by
  unfold optionalMember at he
  split at he
  · cases he
  · exact mem_singleton.mp he

theorem textual_compact (s : BuilderState) : (compact s).Textual := by
  have htv : js "t" ≠ js "v" := by decide
  have htp : js "t" ≠ js "p" := by decide
  have hvp : js "v" ≠ js "p" := by decide
  refine .obj ?_ fun e he ↦ ?_
  · unfold compactEntries optionalMember
    split <;> split <;> simp [htv, htp, hvp]
  · rw [compactEntries, mem_cons, mem_append] at he
    rcases he with he | he | he
    · rw [he]
      exact textual_texts _
    · rw [mem_optionalMember he]
      exact textual_textRecord _
    · rw [mem_optionalMember he]
      exact textual_texts _

theorem lookup_compact (s : BuilderState) :
    (compactEntries s).lookup (js "t") = some (texts s.traps) ∧
      (compactEntries s).lookup (js "v") =
        (if (withoutSecrets s.values).entries.isEmpty then none
          else some (textRecord (withoutSecrets s.values))) ∧
      (compactEntries s).lookup (js "p") = if s.proxied.isEmpty then none else some (texts s.proxied) := by
  have hv : (js "v" == js "t") = false := by decide
  have hp : (js "p" == js "t") = false := by decide
  have hpv : (js "p" == js "v") = false := by decide
  have hvp : (js "v" == js "p") = false := by decide
  unfold compactEntries optionalMember
  refine ⟨by simp, ?_, ?_⟩
  · split <;> split <;> simp [lookup_cons, hv, hvp]
  · split <;> split <;> simp [lookup_cons, hp, hpv]

theorem readNames_texts {names : List JsText} (hnames : ∀ name ∈ names, isTrapName name = true) :
    readNames (names.map .str) = some names := by
  induction names with
  | nil => rfl
  | cons name names ih =>
    rw [map_cons, readNames, if_pos (hnames name mem_cons_self),
      ih fun other hother ↦ hnames other (mem_cons_of_mem _ hother), Option.map_some]

theorem names_texts {list : List JsText} (hnames : ∀ name ∈ list, isTrapName name = true)
    (hlength : list.length ≤ maxEntries) : names (texts list) = some list := by
  rw [texts, names, length_map, if_neg (by omega), readNames_texts hnames]

/-! ## Links are read back -/

/-- Values that come from calls of `setValue` under known keys. The record they start from may hold
secrets, which only other code can put there. -/
inductive SetValues (cm : CaseMapping) (reg : Register) : Record JsText → Prop
  | start {values : Record JsText} (hsecret : ∀ key ∈ values.keys, key ∈ secretKeys) :
      SetValues cm reg values
  | set {s : BuilderState} {key : JsText} (h : SetValues cm reg s.values)
      (hknown : (resolveSetting cm reg key).isSome = true) (raw : JsText) :
      SetValues cm reg (setValue cm reg s key raw).values

variable {cm : CaseMapping}

theorem SetValues.stored {reg : Register} {values : Record JsText} (h : SetValues cm reg values) :
    ∀ e ∈ values.entries, e.1 ∈ secretKeys ∨ Stored cm reg e.1 e.2 := by
  induction h with
  | start hsecret => exact fun e he ↦ .inl (hsecret e.1 (mem_map.mpr ⟨e, he, rfl⟩))
  | set _ hknown raw ih =>
    intro e he
    rcases mem_setValue hknown he with hold | hnew
    · exact ih e hold
    · exact .inr hnew.2

/-- Stored values are read one after the other, and nothing is dropped. -/
theorem readValues_stored {reg : CheckedRegister} {entries : List (JsText × JsText)}
    (hstored : ∀ e ∈ entries, Stored cm reg.toRegister e.1 e.2)
    (hlength : ∀ e ∈ entries, e.2.length ≤ maxValue) (s : BuilderState) (dropped : List JsText) :
    readValues cm reg.toRegister (entries.map fun e ↦ (e.1, .str e.2)) s dropped =
      ⟨entries.foldl (fun s e ↦ setValue cm reg.toRegister s e.1 e.2) s, none, dropped⟩ := by
  induction entries generalizing s with
  | nil => rfl
  | cons e entries ih =>
    have he := hstored e mem_cons_self
    have hvalue := hlength e mem_cons_self
    have hvariable := CheckedRegister.isVariable_of_known he.known
    have hkey : ¬ (secretKeys.contains e.1 = true ∨ e.1 = ranTraps) := by
      rw [not_or]
      exact ⟨fun hmem ↦ he.not_secret (contains_iff_mem.mp hmem), he.ne_traps⟩
    have hknown : (resolveSetting cm reg.toRegister e.1).isNone = false := by
      rw [Option.isNone_eq_false_iff]
      exact he.known
    rw [map_cons, readValues, hvariable, Bool.not_true, if_neg Bool.false_ne_true,
      if_neg (by omega), if_neg hkey, hknown, foldl_cons]
    exact ih (fun other hother ↦ hstored other (mem_cons_of_mem e hother))
      (fun other hother ↦ hlength other (mem_cons_of_mem e hother)) _

/-- A state as the form can hold it: its traps are distinct and known, and so are those behind a
proxy, which are among them. -/
structure Shareable (cm : CaseMapping) (reg : CheckedRegister) (s : BuilderState) : Prop where
  traps_nodup : s.traps.Nodup
  traps_known : ∀ name ∈ s.traps, isKnown reg.toRegister name = true
  proxied_nodup : s.proxied.Nodup
  proxied_mem : ∀ name ∈ s.proxied, name ∈ s.traps
  values_set : SetValues cm reg.toRegister s.values

variable {reg : CheckedRegister} {s : BuilderState}

/-- The checks on a list of names leave it as it is. -/
theorem names_kept {list : List JsText} (hnodup : list.Nodup)
    (hknown : ∀ name ∈ list, isKnown reg.toRegister name = true) :
    names (texts list) = some list ∧ list.filter (isKnown reg.toRegister) = list ∧
      list.filter (fun n ↦ !isKnown reg.toRegister n) = [] ∧ dedupe list = list := by
  refine ⟨names_texts (fun name hname ↦ (CheckedRegister.trap_named (hknown name hname)).1)
    (CheckedRegister.length_le_of_known hnodup hknown), filter_eq_self.mpr hknown, ?_,
    dedupe_of_nodup hnodup⟩
  rw [filter_eq_nil_iff]
  intro name hname
  simp [hknown name hname]

theorem readCompact_compactEntries (h : Shareable cm reg s) (hentries : s.values.entries.length ≤ maxEntries)
    (hvalues : ∀ e ∈ s.values.entries, e.2.length ≤ maxValue) :
    readCompact cm reg.toRegister (compactEntries s) =
      ⟨{ s with values := withoutSecrets s.values }, none, []⟩ := by
  have htraps := names_kept h.traps_nodup h.traps_known
  have hproxied := names_kept h.proxied_nodup fun name hname ↦
    h.traps_known name (h.proxied_mem _ hname)
  have hlookup := lookup_compact s
  have hfieldT : namesField (compactEntries s) (js "t") = some s.traps := by
    exact htraps.1
  have hfieldP : namesField (compactEntries s) (js "p") = some s.proxied := by
    rw [namesField, hlookup.2.2]
    by_cases hempty : s.proxied.isEmpty = true
    · rw [if_pos hempty, List.isEmpty_iff.mp hempty]
    · rw [if_neg hempty]
      exact hproxied.1
  have hamong : s.proxied.filter (fun n ↦ s.traps.contains n) = s.proxied :=
    filter_eq_self.mpr fun name hname ↦ contains_iff_mem.mpr (h.proxied_mem _ hname)
  have hsub : ∀ e ∈ (withoutSecrets s.values).entries,
      Stored cm reg.toRegister e.1 e.2 ∧ e ∈ s.values.entries := by
    intro e he
    have hmem := mem_withoutSecrets.mp he
    exact ⟨(h.values_set.stored e hmem.2).resolve_left hmem.1, hmem.2⟩
  have hlength : (withoutSecrets _).entries.length ≤ maxEntries :=
    (filter_sublist.length_le).trans hentries
  rw [readCompact, hfieldT, hfieldP]
  simp only [htraps.2.1, htraps.2.2.1, htraps.2.2.2, hproxied.2.1, hproxied.2.2.1, hproxied.2.2.2,
    hamong, hlookup.2.1, append_nil]
  by_cases hempty : (withoutSecrets s.values).entries.isEmpty = true
  · have hvalues : withoutSecrets s.values = empty :=
      ext (List.isEmpty_iff.mp hempty)
    simp only [if_pos hempty]
    rw [hvalues]
  · simp only [if_neg hempty, textRecord, length_map, if_neg (show ¬ maxEntries <
      (withoutSecrets s.values).entries.length by omega)]
    rw [readValues_stored (fun e he ↦ (hsub e he).1) (fun e he ↦ hvalues e (hsub e he).2),
      foldl_setValue fun e he ↦ (hsub e he).1, setAll_empty]

/-- Bytes are read back from their text. A link gives back the state it was made of, without secrets. -/
theorem share_link_round_trip (cm : CaseMapping) (reg : CheckedRegister) (s : BuilderState)
    (hs : Shareable cm reg s) (hentries : s.values.entries.length ≤ 400)
    (hvalues : ∀ e ∈ s.values.entries, e.2.length ≤ 16384)
    (hjson : (encodeText (stringify (compact s))).length ≤ 256 * 1024) :
    (∀ bytes : List UInt8, base64UrlToBytes (bytesToBase64Url bytes) = some bytes) ∧
      decodeState cm reg.toRegister (encodeState s) = { s with values := withoutSecrets s.values } := by
  refine ⟨base64UrlToBytes_bytesToBase64Url, ?_⟩
  have htextual := textual_compact s
  have hkept := base64_text_kept htextual.encodeText_ne_nil
  have hread : (decodeText (encodeText (stringify (compact s)))).bind parse =
      some (.obj (compactEntries s)) := by
    rw [htextual.decodeText_encodeText, Option.bind_some, parse_stringify htextual, compact]
  have hshort : ¬ maxJSON < (encodeText _).length := not_lt.mpr hjson
  rw [decodeState, decodeShare, encodeState]
  simp [if_neg hkept.1, hkept.2.1, hkept.2.2, base64UrlToBytes_bytesToBase64Url, if_neg hshort,
    hread, readCompact_compactEntries hs hentries hvalues]

/-- Two traps, one of them behind a proxy. -/
def startState : BuilderState := ⟨[js "ssh", js "http"], empty, [js "http"]⟩

def sharedState : BuilderState :=
  { startState with values := empty.set (js "RAN_LOG_LEVEL") (js "debug") }

theorem setValue_startState :
    setValue CaseMapping.ascii generatedRegister.toRegister startState (js "RAN_LOG_LEVEL")
      (js " debug ") = sharedState := by
  decide +kernel

theorem share_link_round_trip_debug :
    decodeState CaseMapping.ascii generatedRegister.toRegister (encodeState sharedState) =
      { sharedState with values := withoutSecrets sharedState.values } := by
  refine (share_link_round_trip _ _ _
    ⟨by decide, ?_, by decide, ?_, ?_⟩ (by decide) ?_ (by decide +kernel)).2
  · have hall : sharedState.traps.all (isKnown generatedRegister.toRegister) = true := by
      decide +kernel
    exact all_eq_true.mp hall
  · have hall : sharedState.proxied.all (fun name ↦ sharedState.traps.contains name) = true := by
      decide
    exact fun name hname ↦ contains_iff_mem.mp (all_eq_true.mp hall _ hname)
  · have hset : SetValues CaseMapping.ascii generatedRegister.toRegister
        (setValue _ _ startState (js "RAN_LOG_LEVEL")
          (js " debug ")).values :=
      .set (.start fun key hkey ↦ absurd hkey not_mem_nil) (by decide +kernel) _
    exact setValue_startState ▸ hset
  · have hall : sharedState.values.entries.all (fun e ↦ decide (e.2.length ≤ 16384)) = true := by
      decide
    exact fun e he ↦ of_decide_eq_true (all_eq_true.mp hall e he)

/-- A trap that stands twice in the list of proxied traps comes back once. -/
theorem repeated_proxied_trap_merged :
    decodeState CaseMapping.ascii generatedRegister.toRegister
        (encodeState ⟨[js "http"], empty, [js "http", js "http"]⟩) =
      ⟨[js "http"], empty, [js "http"]⟩ := by
  decide +kernel

end RanHoneypot.Builder
