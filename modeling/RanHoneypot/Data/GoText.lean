import Mathlib.Data.Nat.Digits.Defs
import RanHoneypot.Data.Utf8

/-!
# Texts as byte strings

The functions of `strings`, `strconv` and `net` that read and write short texts such as numbers and
listen addresses. A text is any byte string; white space is that of Unicode, in its encoded form.
-/

namespace RanHoneypot.GoText

open Utf8 List UInt8

variable (r n : ℕ) (s : Text) {b : UInt8}

abbrev Text := List UInt8

/-- The byte of an ASCII character. -/
def ch (c : Char) : UInt8 := ofNat c.toNat

/-! ## Trimming and cutting -/

/-- The runes of `unicode.IsSpace`. -/
def spaceRunes : List ℕ :=
  [0x9, 0xA, 0xB, 0xC, 0xD, 0x20, 0x85, 0xA0, 0x1680] ++ (List.range 11).map (0x2000 + ·) ++
    [0x2028, 0x2029, 0x202F, 0x205F, 0x3000]

/-- Drops leading units as long as there is one, with a bound on the rounds. -/
def stripUnits (units : List Text) : ℕ → Text → Text
  | 0, s => s
  | rounds + 1, s =>
    match units.find? (·.isPrefixOf s) with
    | none => s
    | some unit => stripUnits units rounds (s.drop unit.length)

/-- `strings.TrimSpace`. A rune that is white space is found at either end by its encoding. -/
def trimSpace : Text :=
  let spaces := spaceRunes.map encodeRune
  let front := stripUnits spaces s.length s
  (stripUnits (spaces.map List.reverse) front.length front.reverse).reverse

/-- `unicode.IsSpace`. -/
def isSpace : Bool := spaceRunes.contains r

/-- The loop of `strings.Fields` over the runes of `s`. `field` holds the bytes of the field that is
being read. -/
def fieldsLoop : List (ℕ × ℕ) → Text → Text → List Text
  | [], _, field => if field = [] then [] else [field]
  | (r, size) :: rest, s, field =>
    if isSpace r then
      if field = [] then fieldsLoop rest (s.drop size) []
      else field :: fieldsLoop rest (s.drop size) []
    else fieldsLoop rest (s.drop size) (field ++ s.take size)

/-- `strings.Fields`. -/
def fields : List Text := fieldsLoop (runes s) s []

/-- `strings.Join`. -/
def join (sep : Text) (parts : List Text) : Text := sep.intercalate parts

/-- `strings.Cut` at a single byte. -/
def cut (sep : UInt8) (s : Text) : Option (Text × Text) :=
  match s.dropWhile (· ≠ sep) with
  | [] => none
  | _ :: after => some (s.takeWhile (· ≠ sep), after)

/-- `strings.TrimLeft` with a set of ASCII characters. -/
def trimLeft (cutset s : Text) : Text := s.dropWhile (cutset.contains ·)

/-- `strings.ToUpper` of an ASCII text. -/
def toUpper : Text := s.map fun b ↦ if ch 'a' ≤ b ∧ b ≤ ch 'z' then b - 32 else b

/-! ## Letter case

Texts are compared with words of ASCII letters. Of the other runes only U+0131 and U+017F have an
ASCII letter as their upper case, and only U+017F and U+212A fold to one; the others never make a text
equal to such a word and are left as they are. -/

def upperAscii : ℕ := if 97 ≤ r ∧ r ≤ 122 then r - 32 else r

/-- `unicode.ToUpper`. -/
def upperRune : ℕ := if r = 0x131 then 73 else if r = 0x17F then 83 else upperAscii r

/-- The representative of the runes that `strings.EqualFold` identifies. -/
def foldRune : ℕ := if r = 0x17F then 83 else if r = 0x212A then 75 else upperAscii r

/-- The runes of `strings.ToUpper`. -/
def upperRunes : List ℕ := (runes s).map fun rune ↦ upperRune rune.1

/-- `strings.EqualFold` with a word of ASCII capitals. -/
def equalFold (word : List ℕ) : Bool := (runes s).map (fun rune ↦ foldRune rune.1) == word

/-! ## Numbers -/

def isDigit (b : UInt8) : Bool := ch '0' ≤ b && b ≤ ch '9'

/-- The value of a text of digits. -/
def decimal : Option ℕ :=
  if s ≠ [] ∧ s.all isDigit then some (s.foldl (fun n b ↦ n * 10 + (b.toNat - 48)) 0) else none

/-- `strconv.Atoi`: an optional sign and digits, within the range of 64 bits. -/
def atoi : Option ℤ :=
  if s.head? = some (ch '-') then
    (decimal s.tail).bind fun n ↦ if n ≤ 2 ^ 63 then some (-(n : ℤ)) else none
  else
    (decimal (if s.head? = some (ch '+') then s.tail else s)).bind fun n ↦
      if n < 2 ^ 63 then some (n : ℤ) else none

/-- `strconv.Itoa` of a number that is not negative. -/
def itoa : Text :=
  if n = 0 then [ch '0'] else (Nat.digits 10 n).reverse.map fun digit ↦ ofNat (48 + digit)

/-! ## Numbers in two bytes -/

/-- `binary.BigEndian.Uint16(data[pos:])`. -/
def uint16 (data : Text) (pos : ℕ) : ℕ :=
  (data.getD pos 0).toNat * 256 + (data.getD (pos + 1) 0).toNat

/-- `binary.BigEndian.PutUint16`. -/
def putUint16 : Text := [ofNat (n / 256), ofNat n]

theorem uint16_of_drop {data rest : Text} {pos n : ℕ} (hn : n < 65536)
    (hdata : data.drop pos = putUint16 n ++ rest) : uint16 data pos = n := by
  have hhigh : data.getD pos 0 = ofNat (n / 256) := by
    rw [getD_eq_getElem?_getD, ← head?_drop, hdata]
    rfl
  have hlow : data.getD (pos + 1) 0 = ofNat n := by
    rw [getD_eq_getElem?_getD, ← head?_drop, ← drop_drop, hdata]
    rfl
  rw [uint16, hhigh, hlow, toNat_ofNat', toNat_ofNat']
  omega

/-! ## Joined parts and the first separator -/

theorem notMem_join {sep : Text} {parts : List Text} (hsep : b ∉ sep)
    (hparts : ∀ part ∈ parts, b ∉ part) : b ∉ join sep parts := by
  rw [join]
  induction parts with
  | nil =>
    exact not_mem_nil
  | cons part parts ih =>
    rw [forall_mem_cons] at hparts
    by_cases hnil : parts = []
    · rw [hnil, intercalate_singleton]
      exact hparts.1
    · rw [intercalate_cons_of_ne_nil hnil]
      simp only [mem_append, not_or]
      exact ⟨⟨hparts.1, hsep⟩, ih hparts.2⟩

/-- A text that is cut is the part before the first separator, the separator, and the part behind it. -/
theorem cut_eq_some_iff {sep : UInt8} {s before after : Text} :
    cut sep s = some (before, after) ↔ s = before ++ sep :: after ∧ sep ∉ before := by
  induction s generalizing before with
  | nil => simp [cut]
  | cons b s ih =>
    by_cases hb : b = sep
    · have hcut : cut sep (b :: s) = some ([], s) := by simp [cut, hb]
      rw [hcut]
      constructor
      · intro h
        cases h
        exact ⟨by rw [hb, nil_append], not_mem_nil⟩
      · intro h
        cases before with
        | nil => rw [(List.cons.inj h.1).2]
        | cons c before =>
          have hc := (List.cons.inj h.1).1
          exact absurd (by rw [← hc, hb]; exact mem_cons_self) h.2
    · have hcut : cut sep (b :: s) = (cut sep s).map fun parts ↦ (b :: parts.1, parts.2) := by
        simp only [cut, dropWhile_cons, takeWhile_cons, ne_eq, hb, not_false_eq_true, decide_true]
        cases s.dropWhile fun c ↦ decide ¬c = sep <;> rfl
      rw [hcut, Option.map_eq_some_iff]
      constructor
      · intro h
        rcases h with ⟨parts, hparts, hpair⟩
        cases hpair
        have hs := ih.mp hparts
        refine ⟨by rw [hs.1, cons_append], ?_⟩
        rw [mem_cons, not_or]
        exact ⟨Ne.symm hb, hs.2⟩
      · intro h
        cases before with
        | nil => exact absurd (List.cons.inj h.1).1 hb
        | cons c before =>
          have hparts := List.cons.inj h.1
          rw [mem_cons, not_or] at h
          refine ⟨(before, after), ih.mpr ⟨hparts.2, h.2.2⟩, ?_⟩
          rw [hparts.1]

/-! ## Addresses -/

/-- What `net.SplitHostPort` finds wrong. -/
inductive AddrFault where
  | missingPort
  | tooManyColons
  | missingBracket
  | unexpectedOpen
  | unexpectedClose
deriving DecidableEq

/-- `net.SplitHostPort`. The port starts behind the last colon. -/
def splitHostPort : Except AddrFault (Text × Text) :=
  let port := (s.reverse.takeWhile (· ≠ ch ':')).reverse
  let last := s.length - port.length - 1
  if ch ':' ∉ s then .error .missingPort
  else if s.head? = some (ch '[') then
    let close := s.idxOf (ch ']')
    if ch ']' ∉ s then .error .missingBracket
    else if close + 1 = s.length then .error .missingPort
    else if close + 1 ≠ last then
      .error (if s[close + 1]? = some (ch ':') then .tooManyColons else .missingPort)
    else if ch '[' ∈ s.drop 1 then .error .unexpectedOpen
    else if ch ']' ∈ s.drop (close + 1) then .error .unexpectedClose
    else .ok ((s.take close).drop 1, port)
  else if ch ':' ∈ s.take last then .error .tooManyColons
  else if ch '[' ∈ s then .error .unexpectedOpen
  else if ch ']' ∈ s then .error .unexpectedClose
  else .ok (s.take last, port)

/-- `net.JoinHostPort`. -/
def joinHostPort (host port : Text) : Text :=
  if ch ':' ∈ host then ch '[' :: host ++ [ch ']', ch ':'] ++ port else host ++ ch ':' :: port

/-! ## Printed numbers -/

theorem isDigit_iff : isDigit b = true ↔ 48 ≤ b.toNat ∧ b.toNat ≤ 57 := by
  have hlow : ch '0' = 48 := by decide
  have hhigh : ch '9' = 57 := by decide
  rw [isDigit, Bool.and_eq_true, decide_eq_true_iff, decide_eq_true_iff,
    le_iff_toNat_le]
  rfl

theorem toNat_digit {digit : ℕ} (hdigit : digit < 10) :
    (ofNat (48 + digit)).toNat = 48 + digit := by
  rw [toNat_ofNat']
  omega

theorem itoa_ne_nil : itoa n ≠ [] := by
  unfold itoa
  split
  · simp
  · next hn => simpa [Nat.digits_eq_nil_iff_eq_zero] using hn

theorem isDigit_of_mem_itoa {n : ℕ} (hb : b ∈ itoa n) : isDigit b = true := by
  unfold itoa at hb
  split at hb
  · rw [mem_singleton.mp hb]
    decide
  · rcases mem_map.mp hb with ⟨digit, hdigit, rfl⟩
    have hlt : digit < 10 := Nat.digits_lt_base (by omega) (mem_reverse.mp hdigit)
    rw [isDigit_iff, toNat_digit hlt]
    omega

/-- Reading a printed number gives the number back. -/
theorem decimal_itoa : decimal (itoa n) = some n := by
  have hall : (itoa n).all isDigit = true := by
    rw [all_eq_true]
    intro b hb
    exact isDigit_of_mem_itoa hb
  rw [decimal, if_pos ⟨itoa_ne_nil n, hall⟩]
  unfold itoa
  split
  · next hn =>
    rw [hn]
    rfl
  · have hread : ∀ digits : List ℕ, (∀ digit ∈ digits, digit < 10) →
        (digits.reverse.map fun digit ↦ ofNat (48 + digit)).foldl
          (fun n b ↦ n * 10 + (b.toNat - 48)) 0 = Nat.ofDigits 10 digits := by
      intro digits hdigits
      induction digits with
      | nil => rfl
      | cons digit rest ih =>
        rw [reverse_cons, map_append, foldl_append,
          ih fun other hother ↦ hdigits other (mem_cons_of_mem _ hother)]
        simp only [map_cons, map_nil, foldl_cons, foldl_nil, Nat.ofDigits_cons]
        rw [toNat_digit (hdigits digit mem_cons_self)]
        omega
    rw [hread _ fun digit hdigit ↦ Nat.digits_lt_base (by omega) hdigit, Nat.ofDigits_digits]

/-- The address of a port without a host. -/
theorem splitHostPort_join_nil {port : Text} (hcolon : ch ':' ∉ port) (hopen : ch '[' ∉ port)
    (hclose : ch ']' ∉ port) : splitHostPort (joinHostPort [] port) = .ok ([], port) := by
  have hjoin : joinHostPort [] port = ch ':' :: port := rfl
  have hport : ((ch ':' :: port).reverse.takeWhile (· ≠ ch ':')).reverse = port := by
    rw [reverse_cons, takeWhile_append_of_pos]
    · simp
    · intro b hb
      simp only [decide_eq_true_eq]
      intro heq
      exact hcolon (heq ▸ mem_reverse.mp hb)
  have hlast : (ch ':' :: port).length - port.length - 1 = 0 := by simp
  have hbracket : (ch ':' :: port).head? ≠ some (ch '[') := by
    simp only [head?_cons]
    decide
  rw [hjoin, splitHostPort]
  simp only [hport, hlast]
  rw [if_neg (by simp), if_neg hbracket, if_neg (by simp), if_neg, if_neg]
  · rfl
  · simpa [hclose] using (by decide : ch ']' ≠ ch ':')
  · simpa [hopen] using (by decide : ch '[' ≠ ch ':')

theorem splitHostPort_join_itoa : splitHostPort (joinHostPort [] (itoa n)) = .ok ([], itoa n) := by
  have hno : ∀ b : UInt8, isDigit b = false → b ∉ itoa n := by
    intro b hb hmem
    exact Bool.noConfusion (hb.symm.trans (isDigit_of_mem_itoa hmem))
  exact splitHostPort_join_nil (hno _ (by decide)) (hno _ (by decide)) (hno _ (by decide))

/-- A number within 64 bits is read back. -/
theorem atoi_itoa {n : ℕ} (hn : n < 2 ^ 63) : atoi (itoa n) = some (n : ℤ) := by
  have hhead : ∀ b : UInt8, isDigit b = false → (itoa n).head? ≠ some b := by
    intro b hb hfirst
    exact Bool.noConfusion (hb.symm.trans (isDigit_of_mem_itoa (mem_of_mem_head? hfirst)))
  rw [atoi, if_neg (hhead _ (by decide)), if_neg (hhead _ (by decide)), decimal_itoa,
    Option.bind_some, if_pos hn]

end RanHoneypot.GoText
