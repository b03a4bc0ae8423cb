import RanHoneypot.Data.JsRecord

/-!
# JSON texts

`JSON.stringify` and `JSON.parse` on texts of 16 bit units. A number is kept as its text. The writer
escapes surrogates that have no partner, so that what it writes can be encoded in UTF-8. Values made of
texts, arrays and objects are read back from what was written.
-/

namespace RanHoneypot.Js

open List

inductive Json where
  | null
  | bool (b : Bool)
  | num (text : JsText)
  | str (s : JsText)
  | arr (items : List Json)
  | obj (entries : List (JsText × Json))

/-! ## Writing -/

def quote : UInt16 := 34

def backslash : UInt16 := 92

def openBrace : UInt16 := 123

def closeBrace : UInt16 := 125

def isSurrogate (u : UInt16) : Bool := 0xD800 ≤ u.toNat && u.toNat ≤ 0xDFFF

def hexDigit (n : ℕ) : UInt16 := UInt16.ofNat (if n < 10 then 48 + n else 87 + n)

def unicodeEscape (u : UInt16) : JsText :=
  [backslash, unit 'u', hexDigit (u.toNat / 4096), hexDigit (u.toNat / 256 % 16),
    hexDigit (u.toNat / 16 % 16), hexDigit (u.toNat % 16)]

/-- The units with a short escape, and the letter behind the backslash. -/
def shortEscapes : List (UInt16 × UInt16) :=
  [(quote, quote), (backslash, backslash), (8, unit 'b'), (9, unit 't'), (10, unit 'n'),
    (12, unit 'f'), (13, unit 'r')]

def escapeUnit (u : UInt16) : JsText :=
  match shortEscapes.lookup u with
  | some letter => [backslash, letter]
  | none => if u.toNat < 0x20 || isSurrogate u then unicodeEscape u else [u]

def escapeText : JsText → JsText
  | [] => []
  | [u] => escapeUnit u
  | u :: v :: rest =>
    if isHighSurrogate u && isLowSurrogate v then u :: v :: escapeText rest
    else escapeUnit u ++ escapeText (v :: rest)

def quoteText (s : JsText) : JsText := quote :: (escapeText s ++ [quote])

mutual

def stringify : Json → JsText
  | .null => js "null"
  | .bool true => js "true"
  | .bool false => js "false"
  | .num text => text
  | .str s => quoteText s
  | .arr items => unit '[' :: (join (unit ',') (stringifyItems items) ++ [unit ']'])
  | .obj entries => openBrace :: (join (unit ',') (stringifyEntries entries) ++ [closeBrace])

def stringifyItems : List Json → List JsText
  | [] => []
  | d :: rest => stringify d :: stringifyItems rest

def stringifyEntries : List (JsText × Json) → List JsText
  | [] => []
  | (key, d) :: rest => (quoteText key ++ unit ':' :: stringify d) :: stringifyEntries rest

end

/-! ## Reading -/

def isBlank (u : UInt16) : Bool := u == 32 || u == 9 || u == 10 || u == 13

def skipBlanks (s : JsText) : JsText := s.dropWhile isBlank

def hexValue (u : UInt16) : Option ℕ :=
  if 48 ≤ u.toNat ∧ u.toNat ≤ 57 then some (u.toNat - 48)
  else if 97 ≤ u.toNat ∧ u.toNat ≤ 102 then some (u.toNat - 87)
  else if 65 ≤ u.toNat ∧ u.toNat ≤ 70 then some (u.toNat - 55)
  else none

def hexUnit (a b c d : UInt16) : Option UInt16 :=
  match hexValue a, hexValue b, hexValue c, hexValue d with
  | some a, some b, some c, some d => some (UInt16.ofNat (a * 4096 + b * 256 + c * 16 + d))
  | _, _, _, _ => none

/-- The unit that a letter behind a backslash means; a slash may be escaped too. -/
def unescapeLetter (letter : UInt16) : Option UInt16 :=
  if letter = unit '/' then some letter
  else (shortEscapes.find? fun e ↦ e.2 == letter).map Prod.fst

/-- A text up to its closing quote, and what follows it. -/
def parseText : JsText → Option (JsText × JsText)
  | [] => none
  | u :: rest =>
    if u = quote then some ([], rest)
    else if u = backslash then
      match rest with
      | [] => none
      | letter :: tail =>
        if letter = unit 'u' then
          match tail with
          | a :: b :: c :: d :: more =>
            match hexUnit a b c d with
            | none => none
            | some v => (parseText more).map fun r ↦ (v :: r.1, r.2)
          | _ => none
        else
          match unescapeLetter letter with
          | none => none
          | some v => (parseText tail).map fun r ↦ (v :: r.1, r.2)
    else if u.toNat < 0x20 then none
    else (parseText rest).map fun r ↦ (u :: r.1, r.2)

def isDigit (u : UInt16) : Bool := 48 ≤ u.toNat && u.toNat ≤ 57

/-- The rest behind an exponent, if there is one. -/
def dropExponent (s : JsText) : Option JsText :=
  match s with
  | [] => some []
  | e :: rest =>
    if e = unit 'e' ∨ e = unit 'E' then
      let digits := if rest.head? = some (unit '+') ∨ rest.head? = some (unit '-') then rest.tail else rest
      if (digits.takeWhile isDigit).isEmpty then none else some (digits.dropWhile isDigit)
    else some (e :: rest)

/-- The rest behind a fraction, if there is one. -/
def dropFraction (s : JsText) : Option JsText :=
  match s with
  | [] => some []
  | dot :: rest =>
    if dot = unit '.' then
      if (rest.takeWhile isDigit).isEmpty then none else some (rest.dropWhile isDigit)
    else some (dot :: rest)

def isNumber (s : JsText) : Bool :=
  let digits := if s.head? = some (unit '-') then s.tail else s
  let int := digits.takeWhile isDigit
  !int.isEmpty && (int.length == 1 || int.head? != some (unit '0')) &&
    ((dropFraction (digits.dropWhile isDigit)).bind dropExponent == some [])

def isTokenUnit (u : UInt16) : Bool :=
  isDigit u || (97 ≤ u.toNat && u.toNat ≤ 122) || (65 ≤ u.toNat && u.toNat ≤ 90) ||
    u == unit '+' || u == unit '-' || u == unit '.'

def parseToken (token : JsText) : Option Json :=
  if token = js "null" then some .null
  else if token = js "true" then some (.bool true)
  else if token = js "false" then some (.bool false)
  else if isNumber token then some (.num token)
  else none

mutual

/-- A value and what follows it. The first argument bounds the depth and the number of members; the
length of the text is always enough. -/
def parseValue : ℕ → JsText → Option (Json × JsText)
  | 0, _ => none
  | fuel + 1, s =>
    match skipBlanks s with
    | [] => none
    | u :: rest =>
      if u = quote then (parseText rest).map fun r ↦ (.str r.1, r.2)
      else if u = unit '[' then
        if (skipBlanks rest).head? = some (unit ']') then some (.arr [], (skipBlanks rest).tail)
        else (parseItems fuel rest).map fun r ↦ (.arr r.1, r.2)
      else if u = openBrace then
        if (skipBlanks rest).head? = some closeBrace then some (.obj [], (skipBlanks rest).tail)
        else (parseEntries fuel rest).map fun r ↦ (.obj (r.1.foldl (fun entries e ↦
          Record.setEntries entries e.1 e.2) []), r.2)
      else (parseToken ((u :: rest).takeWhile isTokenUnit)).map fun d ↦
        (d, (u :: rest).dropWhile isTokenUnit)

def parseItems : ℕ → JsText → Option (List Json × JsText)
  | 0, _ => none
  | fuel + 1, s =>
    match parseValue fuel s with
    | none => none
    | some (d, rest) =>
      match skipBlanks rest with
      | [] => none
      | u :: tail =>
        if u = unit ']' then some ([d], tail)
        else if u = unit ',' then (parseItems fuel tail).map fun r ↦ (d :: r.1, r.2)
        else none

def parseEntries : ℕ → JsText → Option (List (JsText × Json) × JsText)
  | 0, _ => none
  | fuel + 1, s =>
    match skipBlanks s with
    | [] => none
    | first :: behind =>
      if first ≠ quote then none
      else
        match parseText behind with
        | none => none
        | some (key, colon) =>
          match skipBlanks colon with
          | [] => none
          | c :: value =>
            if c ≠ unit ':' then none
            else
              match parseValue fuel value with
              | none => none
              | some (d, rest) =>
                match skipBlanks rest with
                | [] => none
                | u :: tail =>
                  if u = closeBrace then some ([(key, d)], tail)
                  else if u = unit ',' then
                    (parseEntries fuel tail).map fun r ↦ ((key, d) :: r.1, r.2)
                  else none

end

variable {u : UInt16} (rest : JsText)

variable {s : JsText} {d : Json}

/-- `JSON.parse`, which throws on a text that is no JSON. -/
def parse (s : JsText) : Option Json :=
  match parseValue s.length s with
  | none => none
  | some (d, rest) => if (skipBlanks rest).isEmpty then some d else none

/-! ## Texts are read back -/

theorem hexValue_hexDigit : ∀ n < 16, hexValue (hexDigit n) = some n := by
  decide

theorem hexUnit_unicodeEscape (u : UInt16) :
    hexUnit (hexDigit (u.toNat / 4096)) (hexDigit (u.toNat / 256 % 16))
      (hexDigit (u.toNat / 16 % 16)) (hexDigit (u.toNat % 16)) = some u := by
  have hu : u.toNat < 65536 := u.toNat_lt
  rw [hexUnit, hexValue_hexDigit _ (by omega), hexValue_hexDigit _ (by omega),
    hexValue_hexDigit _ (by omega), hexValue_hexDigit _ (by omega)]
  have hsum : u.toNat / 4096 * 4096 + u.toNat / 256 % 16 * 256 + u.toNat / 16 % 16 * 16 +
      u.toNat % 16 = u.toNat := by omega
  simp [hsum]

theorem shortEscape_read {letter : UInt16} (h : shortEscapes.lookup u = some letter) :
    letter ≠ unit 'u' ∧ unescapeLetter letter = some u := by
  have hall : shortEscapes.all (fun e ↦ e.2 != unit 'u' && unescapeLetter e.2 == some e.1) = true := by
    decide
  have hmem : (u, letter) ∈ shortEscapes := by
    rcases List.lookup_eq_some_iff.mp h with ⟨front, back, hsplit, -⟩
    rw [hsplit]
    simp
  simpa using all_eq_true.mp hall _ hmem

theorem parseText_plain (hquote : u ≠ quote) (hback : u ≠ backslash) (hprint : 0x20 ≤ u.toNat) :
    parseText (u :: rest) = (parseText rest).map fun r ↦ (u :: r.1, r.2) := by
  rw [parseText.eq_def]
  simp only [if_neg hquote, if_neg hback, if_neg (show ¬ u.toNat < 0x20 by omega)]

theorem parseText_quote : parseText (quote :: rest) = some ([], rest) := by
  rw [parseText.eq_def]
  simp

theorem parseText_short {letter : UInt16} (tail : JsText) (hletter : letter ≠ unit 'u')
    (hu : unescapeLetter letter = some u) :
    parseText (backslash :: letter :: tail) = (parseText tail).map fun r ↦ (u :: r.1, r.2) := by
  have hback : backslash ≠ quote := by decide
  rw [parseText.eq_def]
  simp [if_neg hback, if_neg hletter, hu]

theorem parseText_unicode {a b c d : UInt16} (tail : JsText) (hu : hexUnit a b c d = some u) :
    parseText (backslash :: unit 'u' :: a :: b :: c :: d :: tail) =
      (parseText tail).map fun r ↦ (u :: r.1, r.2) := by
  have hback : backslash ≠ quote := by decide
  rw [parseText.eq_def]
  simp [if_neg hback, hu]

theorem parseText_escapeUnit (u : UInt16) (rest : JsText) :
    parseText (escapeUnit u ++ rest) = (parseText rest).map fun r ↦ (u :: r.1, r.2) := by
  unfold escapeUnit
  split
  · next letter hletter =>
    have hread := shortEscape_read hletter
    exact parseText_short _ hread.1 hread.2
  · next hnone =>
    split
    · exact parseText_unicode _ (hexUnit_unicodeEscape u)
    · next hplain =>
      have hne : u ≠ quote ∧ u ≠ backslash := by
        constructor <;> intro heq <;> rw [heq] at hnone <;> exact absurd hnone (by decide)
      have hprint : 0x20 ≤ u.toNat := by
        simp only [Bool.or_eq_true, decide_eq_true_eq] at hplain
        omega
      exact parseText_plain _ hne.1 hne.2 hprint

theorem surrogate_plain (hu : 0xD800 ≤ u.toNat) : u ≠ quote ∧ u ≠ backslash ∧ 0x20 ≤ u.toNat := by
  refine ⟨fun heq ↦ ?_, fun heq ↦ ?_, by omega⟩ <;> rw [heq] at hu <;> exact absurd hu (by decide)

theorem parseText_escapeText (s rest : JsText) :
    parseText (escapeText s ++ quote :: rest) = some (s, rest) := by
  induction s using escapeText.induct with
  | case1 => exact parseText_quote _
  | case2 u => rw [escapeText, parseText_escapeUnit, parseText_quote, Option.map_some]
  | case3 u v tail hpair ih =>
    simp only [isHighSurrogate, isLowSurrogate, Bool.and_eq_true, decide_eq_true_eq] at hpair
    have hu := surrogate_plain (u := u) (by omega)
    have hv := surrogate_plain (u := v) (by omega)
    rw [escapeText, if_pos (by simp [isHighSurrogate, isLowSurrogate, hpair]), cons_append,
      cons_append, parseText_plain _ hu.1 hu.2.1 hu.2.2, parseText_plain _ hv.1 hv.2.1 hv.2.2, ih]
    rfl
  | case4 u v tail hpair ih =>
    rw [escapeText, if_neg hpair, append_assoc, parseText_escapeUnit, ih, Option.map_some]

/-! ## Values are read back -/

/-- A value made of texts, arrays and objects. -/
inductive Json.Textual : Json → Prop
  | str (s : JsText) : Textual (.str s)
  | arr {items : List Json} (hitems : ∀ d ∈ items, Textual d) : Textual (.arr items)
  | obj {entries : List (JsText × Json)} (hnodup : (entries.map Prod.fst).Nodup)
      (hentries : ∀ e ∈ entries, Textual e.2) : Textual (.obj entries)

/-- How a text that was written starts. -/
def Opens (s : JsText) : Prop := ∃ u rest, s = u :: rest ∧ (u = quote ∨ u = unit '[' ∨ u = openBrace)

theorem Opens.skipBlanks (h : Opens s) (rest : JsText) : skipBlanks (s ++ rest) = s ++ rest := by
  rcases h with ⟨u, tail, rfl, hu⟩
  rw [Js.skipBlanks, cons_append, dropWhile_cons_of_neg]
  rcases hu with rfl | rfl | rfl <;> decide

theorem Json.Textual.opens (h : d.Textual) : Opens (stringify d) := by
  cases h with
  | str s => exact ⟨_, _, by rw [stringify, quoteText], .inl rfl⟩
  | arr => exact ⟨_, _, by rw [stringify], .inr (.inl rfl)⟩
  | obj => exact ⟨_, _, by rw [stringify], .inr (.inr rfl)⟩

theorem Opens.append (h : Opens s) (rest : JsText) : Opens (s ++ rest) := by
  rcases h with ⟨u, tail, rfl, hu⟩
  exact ⟨u, tail ++ rest, rfl, hu⟩

theorem Opens.join {sep : UInt16} {part : JsText} {parts : List JsText} (h : Opens part) :
    Opens (join sep (part :: parts)) := by
  cases parts with
  | nil => simpa [Js.join] using h
  | cons next parts =>
    exact h.append _

theorem Opens.head_ne (h : Opens s) (rest : JsText) :
    (Js.skipBlanks (s ++ rest)).head? ≠ some (unit ']') ∧
      (Js.skipBlanks (s ++ rest)).head? ≠ some closeBrace := by
  rw [h.skipBlanks]
  rcases h with ⟨u, tail, rfl, hu⟩
  rw [cons_append, head?_cons]
  rcases hu with rfl | rfl | rfl <;> decide

theorem opens_quoteText (s : JsText) : Opens (quoteText s) := ⟨quote, _, rfl, .inl rfl⟩

/-- The statement about one value: enough fuel reads it, whatever follows. -/
def ReadBack (d : Json) : Prop :=
  ∀ fuel rest, (stringify d).length ≤ fuel → parseValue fuel (stringify d ++ rest) = some (d, rest)

theorem length_join_cons (sep : UInt16) (part next : JsText) (parts : List JsText) :
    (join sep (part :: next :: parts)).length =
      part.length + 1 + (join sep (next :: parts)).length := by
  rw [join_cons_cons, length_append, length_cons]
  omega

theorem skipBlanks_mark (hu : isBlank u = false) : skipBlanks (u :: rest) = u :: rest :=
  dropWhile_cons_of_neg (by simp [hu])

theorem parseItems_join {items : List Json} (hne : items ≠ []) (hread : ∀ d ∈ items, ReadBack d)
    {fuel : ℕ} (rest : JsText) (hfuel : (join (unit ',') (stringifyItems items)).length + 1 ≤ fuel) :
    parseItems fuel (join (unit ',') (stringifyItems items) ++ unit ']' :: rest) =
      some (items, rest) := by
  induction items generalizing fuel with
  | nil => exact absurd rfl hne
  | cons d items ih =>
    cases fuel with
    | zero => omega
    | succ fuel =>
      rw [parseItems]
      cases items with
      | nil =>
        have hjoin : join (unit ',') (stringifyItems [d]) = stringify d := by
          simp [stringifyItems, join]
        rw [hjoin] at hfuel ⊢
        rw [hread d mem_cons_self fuel _ (by omega)]
        simp only [skipBlanks_mark _ (show isBlank (unit ']') = false by decide), if_true]
      | cons next items =>
        have hcomma : unit ',' ≠ unit ']' := by decide
        rw [stringifyItems, stringifyItems, length_join_cons, ← stringifyItems] at hfuel
        rw [stringifyItems, stringifyItems, join_cons_cons, ← stringifyItems, append_assoc,
          hread d mem_cons_self fuel _ (by omega)]
        simp only [cons_append, skipBlanks_mark _ (show isBlank (unit ',') = false by decide),
          if_neg hcomma, if_true]
        rw [ih (by simp) (fun e he ↦ hread e (mem_cons_of_mem d he)) (by omega), Option.map_some]

theorem parseEntries_join {entries : List (JsText × Json)} (hne : entries ≠ [])
    (hread : ∀ e ∈ entries, ReadBack e.2) {fuel : ℕ} (rest : JsText)
    (hfuel : (join (unit ',') (stringifyEntries entries)).length + 1 ≤ fuel) :
    parseEntries fuel (join (unit ',') (stringifyEntries entries) ++ closeBrace :: rest) =
      some (entries, rest) := by
  induction entries generalizing fuel with
  | nil => exact absurd rfl hne
  | cons e entries ih =>
    rcases e with ⟨key, d⟩
    have hentry : ∀ tail : JsText, quoteText key ++ unit ':' :: stringify d ++ tail =
        quote :: (escapeText key ++ quote :: unit ':' :: (stringify d ++ tail)) := by
      intro tail
      simp [quoteText]
    have hd : ReadBack d := hread (key, d) mem_cons_self
    cases fuel with
    | zero => omega
    | succ fuel =>
      rw [parseEntries]
      cases entries with
      | nil =>
        have hjoin : join (unit ',') (stringifyEntries [(key, d)]) =
            quoteText key ++ unit ':' :: stringify d := by
          simp [stringifyEntries, join]
        rw [hjoin] at hfuel ⊢
        have hlength : (stringify d).length ≤ fuel := by
          rw [length_append, length_cons] at hfuel
          omega
        rw [hentry]
        simp [skipBlanks_mark _ (show isBlank quote = false by decide), parseText_escapeText,
          skipBlanks_mark _ (show isBlank (unit ':') = false by decide), hd fuel _ hlength,
          skipBlanks_mark _ (show isBlank closeBrace = false by decide)]
      | cons next entries =>
        have hcomma : unit ',' ≠ closeBrace := by decide
        rcases next with ⟨nextKey, nextValue⟩
        rw [stringifyEntries, stringifyEntries, length_join_cons, ← stringifyEntries] at hfuel
        have hlength : (stringify d).length ≤ fuel := by
          rw [length_append, length_cons] at hfuel
          omega
        rw [stringifyEntries, stringifyEntries, join_cons_cons, ← stringifyEntries, append_assoc,
          hentry]
        simp only [skipBlanks_mark _ (show isBlank quote = false by decide), ne_eq, not_true_eq_false,
          if_false, parseText_escapeText, skipBlanks_mark _ (show isBlank (unit ':') = false by decide),
          hd fuel _ hlength, cons_append,
          skipBlanks_mark _ (show isBlank (unit ',') = false by decide), if_neg hcomma, if_true]
        rw [ih (by simp) (fun e he ↦ hread e (mem_cons_of_mem _ he)) (by omega), Option.map_some]

theorem Json.Textual.readBack (h : d.Textual) : ReadBack d := by
  induction h with
  | str s =>
    intro fuel rest hfuel
    rw [stringify, quoteText] at hfuel ⊢
    cases fuel with
    | zero => simp at hfuel
    | succ fuel =>
      rw [parseValue, cons_append, skipBlanks_mark _ (by decide)]
      simp [parseText_escapeText]
  | @arr items hitems ih =>
    intro fuel rest hfuel
    rw [stringify] at hfuel ⊢
    have hbracket : unit '[' ≠ quote := by decide
    cases fuel with
    | zero => simp at hfuel
    | succ fuel =>
      rw [parseValue, cons_append, skipBlanks_mark _ (by decide)]
      simp only [if_neg hbracket, append_assoc, cons_append, nil_append]
      cases items with
      | nil =>
        have hnil : join (unit ',') (stringifyItems []) = [] := by simp [stringifyItems, join]
        simp only [hnil, nil_append, skipBlanks_mark _ (show isBlank (unit ']') = false by decide),
          head?_cons, if_true, tail_cons]
      | cons d items =>
        have hopens : Opens (join (unit ',') (stringifyItems (d :: items))) := by
          exact ((hitems d mem_cons_self).opens).join
        rw [if_neg (hopens.head_ne _).1, parseItems_join (by simp) ih _ (by simpa using hfuel)]
        rfl
  | @obj entries hnodup hentries ih =>
    intro fuel rest hfuel
    rw [stringify] at hfuel ⊢
    have hquote : openBrace ≠ quote := by decide
    have hbracket : openBrace ≠ unit '[' := by decide
    cases fuel with
    | zero => simp at hfuel
    | succ fuel =>
      rw [parseValue, cons_append, skipBlanks_mark _ (by decide)]
      simp only [if_neg hquote, if_neg hbracket, if_true, append_assoc, cons_append,
        nil_append]
      cases entries with
      | nil =>
        have hnil : join (unit ',') (stringifyEntries []) = [] := by simp [stringifyEntries, join]
        simp [hnil, skipBlanks_mark _ (show isBlank closeBrace = false by decide)]
      | cons e entries =>
        have hopens : Opens (join (unit ',') (stringifyEntries (e :: entries))) := by
          exact ((opens_quoteText _).append _).join
        have hwritten : (e :: entries).foldl (fun acc e ↦ Record.setEntries acc e.1 e.2) [] =
            e :: entries :=
          (Record.foldl_setEntries Record.empty _).trans (Record.entries_setAll hnodup)
        rw [if_neg (hopens.head_ne _).2, parseEntries_join (by simp) ih _ (by simpa using hfuel),
          Option.map_some, hwritten]

/-- What was written is parsed to the value it was written from. -/
theorem parse_stringify (h : d.Textual) : parse (stringify d) = some d := by
  have hread := h.readBack (stringify d).length [] le_rfl
  rw [append_nil] at hread
  rw [parse, hread]
  rfl

end RanHoneypot.Js
