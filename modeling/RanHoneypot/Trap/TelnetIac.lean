import Mathlib.Data.List.Induction
import RanHoneypot.Data.GoText

/-!
# Telnet commands in the input of a session

Telnet mixes commands into the data: every command begins with the byte 255, called IAC, and a data byte
255 is sent twice. A command is an offer or a request about an option (three bytes), a subnegotiation
between `IAC SB` and `IAC SE`, or one of the other commands of two bytes. The trap takes the commands out
of a line, refuses every option and remembers the terminal type that the client reports.

In a subnegotiation a byte 255 is sent twice too. The search for `IAC SE` does not know that, so it may
take the second byte of such a pair for the beginning of the end.
-/

namespace RanHoneypot.Trap.Telnet

open GoText List

def telnetIAC : UInt8 := 255
def telnetDONT : UInt8 := 254
def telnetDO : UInt8 := 253
def telnetWONT : UInt8 := 252
def telnetWILL : UInt8 := 251
def telnetSB : UInt8 := 250
def telnetSE : UInt8 := 240

def telnetOptTTYPE : UInt8 := 24
def telnetTTYPEIs : UInt8 := 0

def maxTelnetTType : ℕ := 64
def maxTelnetReplyBytes : ℕ := 192

def isPrintable (c : UInt8) : Bool := 0x20 ≤ c && c < 0x7f

def printableLoop (limit : ℕ) : Text → Text → Text
  | [], out => out
  | c :: b, out =>
    if limit ≤ out.length then out
    else printableLoop limit b (if isPrintable c then out ++ [c] else out)

def printableBounded (b : Text) (limit : ℕ) : Text := printableLoop limit b []

/-- What the parser has found so far. -/
@[ext] structure Parsed where
  clean : Text
  replies : Text
  ttype : Text
  deriving DecidableEq

namespace Parsed

def start : Parsed := ⟨[], [], []⟩

def data (p : Parsed) (b : UInt8) : Parsed := { p with clean := p.clean ++ [b] }

/-- The reaction to an option command. -/
def option (p : Parsed) (cmd opt : UInt8) : Parsed :=
  if p.replies.length + 3 ≤ maxTelnetReplyBytes then
    if cmd = telnetDO then { p with replies := p.replies ++ [telnetIAC, telnetWONT, opt] }
    else if cmd = telnetWILL then { p with replies := p.replies ++ [telnetIAC, telnetDONT, opt] }
    else p
  else p

/-- The reaction to a subnegotiation. -/
def subnegotiation (p : Parsed) : Text → Parsed
  | opt :: kind :: body =>
    if opt = telnetOptTTYPE ∧ kind = telnetTTYPEIs then
      { p with ttype := printableBounded body maxTelnetTType }
    else p
  | _ => p

end Parsed

/-- What stands before the first `IAC SE`, and what stands behind it. -/
def findSE : Text → Option (Text × Text)
  | a :: b :: rest =>
    if a = telnetIAC ∧ b = telnetSE then some ([], rest)
    else (findSE (b :: rest)).map fun found ↦ (a :: found.1, found.2)
  | _ => none

def parseLoop : ℕ → Text → Parsed → Parsed
  | 0, _, p => p
  | _ + 1, [], p => p
  | rounds + 1, b :: rest, p =>
    if b ≠ telnetIAC then parseLoop rounds rest (p.data b)
    else
      match rest with
      | [] => p
      | cmd :: rest =>
        if cmd = telnetIAC then parseLoop rounds rest (p.data telnetIAC)
        else if cmd ∈ [telnetDO, telnetDONT, telnetWILL, telnetWONT] then
          match rest with
          | [] => p
          | opt :: rest => parseLoop rounds rest (p.option cmd opt)
        else if cmd = telnetSB then
          match findSE rest with
          | none => p
          | some (body, rest) => parseLoop rounds rest (p.subnegotiation body)
        else parseLoop rounds rest p

def parseTelnetIAC (input : Text) : Parsed := parseLoop input.length input .start

/-! ## What a client sends -/

inductive OptionCommand where
  | asks
  | asksNot
  | offers
  | offersNot
  deriving DecidableEq

def OptionCommand.byte : OptionCommand → UInt8
  | asks => telnetDO
  | asksNot => telnetDONT
  | offers => telnetWILL
  | offersNot => telnetWONT

/-- The bytes that make a command of two bytes together with IAC. -/
def ShortCommand : Type :=
  {cmd : UInt8 // cmd ∉ [telnetIAC, telnetDO, telnetDONT, telnetWILL, telnetWONT, telnetSB]}

inductive Token where
  | data (b : UInt8)
  | option (cmd : OptionCommand) (opt : UInt8)
  | short (cmd : ShortCommand)
  | subnegotiation (body : Text)

/-- Every IAC is sent twice. -/
def double (text : Text) : Text :=
  text.flatMap fun b ↦ if b = telnetIAC then [telnetIAC, telnetIAC] else [b]

namespace Token

def encode : Token → Text
  | data b => double [b]
  | option cmd opt => [telnetIAC, cmd.byte, opt]
  | short cmd => [telnetIAC, cmd.val]
  | subnegotiation body => telnetIAC :: telnetSB :: (double body ++ [telnetIAC, telnetSE])

def dataBytes : Token → Text
  | data b => [b]
  | _ => []

/-- DO is refused with WONT, WILL with DONT. -/
def reply : Token → Text
  | option .asks opt => [telnetIAC, telnetWONT, opt]
  | option .offers opt => [telnetIAC, telnetDONT, opt]
  | _ => []

/-- The terminal type in a subnegotiation that reports one. -/
def terminalType : Token → Option Text
  | subnegotiation (opt :: kind :: name) =>
    if opt = telnetOptTTYPE ∧ kind = telnetTTYPEIs then some name else none
  | _ => none

end Token

variable (tokens : List Token) (body rest : Text) (p : Parsed)

def encodeTokens (tokens : List Token) : Text := tokens.flatMap Token.encode

/-- What a telnet peer makes of the tokens: the data, one refusal for every request and offer as far as
they fit, and the terminal type reported last. -/
def meaning (tokens : List Token) : Parsed where
  clean := tokens.flatMap Token.dataBytes
  replies := (tokens.flatMap Token.reply).take maxTelnetReplyBytes
  ttype := (((tokens.filterMap Token.terminalType).getLast?.getD []).filter isPrintable).take maxTelnetTType

/-! ## Printable text -/

theorem printableLoop_eq (limit : ℕ) (b out : Text) (hout : out.length ≤ limit) :
    printableLoop limit b out = (out ++ b.filter isPrintable).take limit := by
  induction b generalizing out with
  | nil => rw [printableLoop, filter_nil, append_nil, take_of_length_le hout]
  | cons c b ih =>
    rw [printableLoop]
    split
    · next hfull =>
      have hlength : out.length = limit := le_antisymm hout hfull
      rw [take_append_of_le_length hfull, ← hlength, take_length]
    · next hroom =>
      by_cases hc : isPrintable c = true
      · rw [if_pos hc, ih _ (by simp only [length_append, length_singleton]; omega),
          filter_cons_of_pos hc, append_assoc, singleton_append]
      · rw [if_neg hc, ih _ hout, filter_cons_of_neg hc]

theorem printableBounded_eq (b : Text) (limit : ℕ) :
    printableBounded b limit = (b.filter isPrintable).take limit :=
  printableLoop_eq limit b [] (Nat.zero_le limit)

/-! ## Doubled bytes -/

@[simp] theorem double_nil : double [] = [] := rfl

theorem double_cons (b : UInt8) (text : Text) :
    double (b :: text) = (if b = telnetIAC then [telnetIAC, telnetIAC] else [b]) ++ double text :=
  flatMap_cons

theorem filter_double (text : Text) :
    (double text).filter isPrintable = text.filter isPrintable := by
  induction text with
  | nil => rfl
  | cons b text ih =>
    have hhead : (if b = telnetIAC then [telnetIAC, telnetIAC] else [b]).filter isPrintable =
        [b].filter isPrintable := by
      split
      · next hb =>
        rw [hb]
        decide
      · rfl
    rw [double_cons, filter_append, hhead, ih, ← filter_append, singleton_append]

theorem findSE_cons {a : UInt8} {rest : Text} (ha : ¬ [telnetIAC, telnetSE] <+: a :: rest) :
    findSE (a :: rest) = (findSE rest).map fun found ↦ (a :: found.1, found.2) := by
  cases rest with
  | nil => rfl
  | cons b rest =>
    rw [findSE, if_neg]
    intro hab
    apply ha
    exact ⟨rest, by rw [hab.1, hab.2, cons_append, cons_append, nil_append]⟩

theorem findSE_of_isPrefix : findSE (telnetIAC :: telnetSE :: rest) = some ([], rest) := by
  rw [findSE, if_pos ⟨rfl, rfl⟩]

/-- Behind doubled bytes the search finds the end that was sent, unless an IAC in the body stands before the
byte SE. Then it stops there, and the rest of the body is left in the input. -/
theorem findSE_double :
    findSE (double body ++ telnetIAC :: telnetSE :: rest) =
      match findSE body with
      | none => some (double body, rest)
      | some (front, back) =>
        some (double front ++ [telnetIAC], double back ++ telnetIAC :: telnetSE :: rest) := by
  induction body with
  | nil => exact findSE_of_isPrefix _
  | cons b body ih =>
    by_cases hb : b = telnetIAC
    · have hpair : double (b :: body) = telnetIAC :: telnetIAC :: double body := by
        rw [double_cons, if_pos hb, cons_append, singleton_append]
      have hfirst : ∀ text : Text, ¬ [telnetIAC, telnetSE] <+: telnetIAC :: telnetIAC :: text := by
        intro text hpre
        rw [cons_prefix_cons, cons_prefix_cons] at hpre
        exact absurd hpre.2.1 (by decide)
      rw [hpair, cons_append, cons_append, findSE_cons (hfirst _)]
      by_cases hend : [telnetIAC, telnetSE] <+: b :: body
      · -- The byte SE behind the pair makes the search stop.
        rcases hend with ⟨back, hback⟩
        have hbody : body = telnetSE :: back := (List.cons.inj hback).2.symm
        have hse : double (telnetSE :: back) = telnetSE :: double back := by
          rw [double_cons, if_neg (by decide), singleton_append]
        rw [hb, hbody, findSE_of_isPrefix]
        rfl
      · have hsecond : ¬ [telnetIAC, telnetSE] <+: telnetIAC ::
            (double body ++ telnetIAC :: telnetSE :: rest) := by
          rw [hb, cons_prefix_cons] at hend
          rw [cons_prefix_cons]
          intro hpre
          cases body with
          | nil =>
            rw [double_nil, nil_append, cons_prefix_cons] at hpre
            exact absurd hpre.2.1 (by decide)
          | cons c body =>
            rw [double_cons] at hpre
            by_cases hc : c = telnetIAC
            · rw [if_pos hc, cons_append, cons_append, cons_prefix_cons] at hpre
              exact absurd hpre.2.1 (by decide)
            · rw [if_neg hc, cons_append, cons_append, cons_prefix_cons] at hpre
              apply hend
              rw [cons_prefix_cons]
              exact ⟨rfl, hpre.2.1, List.nil_prefix⟩
        rw [findSE_cons hsecond, ih, findSE_cons hend]
        cases findSE body with
        | none => rfl
        | some found =>
          have hfront : double (b :: found.1) = telnetIAC :: telnetIAC :: double found.1 := by
            rw [double_cons, if_pos hb, cons_append, singleton_append]
          simp [hfront]
    · have hplain : ∀ text : Text, double (b :: text) = b :: double text := by
        intro text
        rw [double_cons, if_neg hb, singleton_append]
      have hfirst : ∀ text : Text, ¬ [telnetIAC, telnetSE] <+: b :: text := by
        intro text hpre
        rw [cons_prefix_cons] at hpre
        exact hb hpre.1.symm
      rw [hplain, cons_append, findSE_cons (hfirst _), ih, findSE_cons (hfirst _)]
      cases findSE body with
      | none => rfl
      | some found => simp [hplain]

theorem findSE_eq {text front back : Text} (hfound : findSE text = some (front, back)) :
    text = front ++ telnetIAC :: telnetSE :: back := by
  induction text generalizing front with
  | nil => cases hfound
  | cons a text ih =>
    by_cases hpre : [telnetIAC, telnetSE] <+: a :: text
    · rcases hpre with ⟨rest, hrest⟩
      rw [← hrest, cons_append] at hfound ⊢
      cases hfound
      rfl
    · rw [findSE_cons hpre] at hfound
      rcases Option.map_eq_some_iff.mp hfound with ⟨found, htail, hpair⟩
      cases hpair
      rw [ih htail, cons_append]

/-- The search stops at the first place where it can. -/
theorem findSE_append (front back : Text) : ∃ first last : Text,
    findSE (front ++ telnetIAC :: telnetSE :: back) = some (first, last) ∧ back.length ≤ last.length := by
  induction front with
  | nil => exact ⟨[], back, findSE_of_isPrefix _, le_refl _⟩
  | cons a front ih =>
    rw [cons_append]
    by_cases hpre : [telnetIAC, telnetSE] <+: a :: (front ++ telnetIAC :: telnetSE :: back)
    · rcases hpre with ⟨rest, hrest⟩
      have hlength := congrArg List.length hrest
      rw [← hrest, cons_append]
      refine ⟨[], rest, findSE_of_isPrefix _, ?_⟩
      simp only [length_append, length_cons, length_nil] at hlength
      omega
    · rcases ih with ⟨first, last, hfound, hlength⟩
      refine ⟨a :: first, last, ?_, hlength⟩
      rw [findSE_cons hpre, hfound, Option.map_some]

/-! ## The loop -/

theorem parseLoop_enough {rounds more : ℕ} {rest : Text} (hrounds : rest.length ≤ rounds)
    (hmore : rest.length ≤ more) : parseLoop rounds rest p = parseLoop more rest p := by
  induction rounds generalizing more rest p with
  | zero =>
    rw [eq_nil_of_length_eq_zero (Nat.le_zero.mp hrounds)]
    cases more <;> rfl
  | succ rounds ih =>
    cases rest with
    | nil => cases more <;> rfl
    | cons b rest =>
      cases more with
      | zero => simp at hmore
      | succ more =>
        simp only [length_cons, Nat.add_le_add_iff_right] at hrounds hmore
        simp only [parseLoop]
        split
        · exact ih _ hrounds hmore
        · cases rest with
          | nil => rfl
          | cons cmd rest =>
            simp only [length_cons] at hrounds hmore
            simp only
            split
            · exact ih _ (by omega) (by omega)
            · split
              · cases rest with
                | nil => rfl
                | cons opt rest =>
                  simp only [length_cons] at hrounds hmore
                  exact ih _ (by omega) (by omega)
              · split
                · cases hfound : findSE rest with
                  | none => rfl
                  | some found =>
                    have hlength := congrArg List.length (findSE_eq hfound)
                    simp only [length_append, length_cons] at hlength
                    exact ih _ (by omega) (by omega)
                · exact ih _ (by omega) (by omega)

/-- The parser in front of the rest of its input. -/
def parseFrom (rest : Text) (p : Parsed) : Parsed := parseLoop rest.length rest p

theorem parseFrom_data {b : UInt8} (hb : b ≠ telnetIAC) (rest : Text) (p : Parsed) :
    parseFrom (b :: rest) p = parseFrom rest (p.data b) := by
  simp [parseFrom, parseLoop, if_pos hb]

theorem parseFrom_iac :
    parseFrom (telnetIAC :: telnetIAC :: rest) p = parseFrom rest (p.data telnetIAC) := by
  exact parseLoop_enough _ (Nat.le_succ _) (le_refl _)

theorem parseFrom_option (cmd : OptionCommand) (opt : UInt8) (rest : Text) (p : Parsed) :
    parseFrom (telnetIAC :: cmd.byte :: opt :: rest) p = parseFrom rest (p.option cmd.byte opt) := by
  have hiac : cmd.byte ≠ telnetIAC := by cases cmd <;> decide
  have hoption : cmd.byte ∈ [telnetDO, telnetDONT, telnetWILL, telnetWONT] := by cases cmd <;> decide
  simp only [parseFrom, length_cons, parseLoop, ne_eq, not_true_eq_false, if_neg hiac,
    if_pos hoption]
  exact parseLoop_enough _ (by omega) (le_refl _)

theorem parseFrom_short (cmd : ShortCommand) (rest : Text) (p : Parsed) :
    parseFrom (telnetIAC :: cmd.val :: rest) p = parseFrom rest p := by
  have hcmd := cmd.property
  simp only [mem_cons, not_mem_nil, or_false, not_or] at hcmd
  have hoption : cmd.val ∉ [telnetDO, telnetDONT, telnetWILL, telnetWONT] := by
    simp only [mem_cons, not_mem_nil, or_false, not_or]
    exact ⟨hcmd.2.1, hcmd.2.2.1, hcmd.2.2.2.1, hcmd.2.2.2.2.1⟩
  simp only [parseFrom, length_cons, parseLoop, ne_eq, not_true_eq_false, if_neg hcmd.1,
    if_neg hoption, if_neg hcmd.2.2.2.2.2]
  exact parseLoop_enough _ (Nat.le_succ _) (le_refl _)

theorem parseFrom_subnegotiation {text body rest : Text} (hfound : findSE text = some (body, rest))
    (p : Parsed) :
    parseFrom (telnetIAC :: telnetSB :: text) p = parseFrom rest (p.subnegotiation body) := by
  have hlength := congrArg List.length (findSE_eq hfound)
  simp only [length_append, length_cons] at hlength
  have hoption : telnetSB ∉ [telnetDO, telnetDONT, telnetWILL, telnetWONT] := by decide
  simp only [parseFrom, length_cons, parseLoop, ne_eq, not_true_eq_false, hfound]
  exact parseLoop_enough _ (by omega) (le_refl _)

theorem parseFrom_double (text rest : Text) (p : Parsed) :
    parseFrom (double text ++ rest) p = parseFrom rest { p with clean := p.clean ++ text } := by
  induction text generalizing p with
  | nil => rw [double_nil, nil_append, append_nil]
  | cons b text ih =>
    have hstep : parseFrom (double (b :: text) ++ rest) p =
        parseFrom (double text ++ rest) (p.data b) := by
      rw [double_cons, append_assoc]
      by_cases hb : b = telnetIAC
      · rw [if_pos hb, cons_append, singleton_append, parseFrom_iac, hb]
      · rw [if_neg hb, singleton_append, parseFrom_data hb]
    rw [hstep, ih]
    simp [Parsed.data]

/-! ## Tokens -/

/-- The bytes of a body that the search for its end leaves in the input. -/
def leak (body : Text) : Text :=
  match findSE body with
  | none => []
  | some (_, back) => back

/-- What the search gives out as the body. -/
def reported (body : Text) : Text :=
  match findSE body with
  | none => double body
  | some (front, _) => double front ++ [telnetIAC]

/-- What the parser makes of a token. -/
def Parsed.after (p : Parsed) : Token → Parsed
  | .data b => p.data b
  | .option cmd opt => p.option cmd.byte opt
  | .short _ => p
  | .subnegotiation body =>
    { p.subnegotiation (reported body) with clean := p.clean ++ leak body }

theorem clean_subnegotiation (body : Text) : (p.subnegotiation body).clean = p.clean := by
  unfold Parsed.subnegotiation
  split
  · split <;> rfl
  · rfl

/-- The bytes that stay behind are read as data, and the true end as a short command. -/
theorem parseFrom_body :
    parseFrom (telnetIAC :: telnetSB :: (double body ++ telnetIAC :: telnetSE :: rest)) p =
      parseFrom rest (p.after (.subnegotiation body)) := by
  have hsearch := findSE_double body rest
  have hclean : ∀ raw, (p.subnegotiation _).clean = p.clean := clean_subnegotiation p
  cases hfound : findSE body with
  | none =>
    rw [hfound] at hsearch
    rw [parseFrom_subnegotiation hsearch, Parsed.after, leak, reported, hfound]
    simp [← hclean (double body)]
  | some found =>
    rw [hfound] at hsearch
    have hend : parseFrom (telnetIAC :: telnetSE :: rest) = parseFrom rest :=
      funext fun q ↦ parseFrom_short ⟨telnetSE, by decide⟩ rest q
    rw [parseFrom_subnegotiation hsearch, parseFrom_double, hend, Parsed.after, leak, reported, hfound]
    simp only [hclean]

theorem parseFrom_token (token : Token) (rest : Text) (p : Parsed) :
    parseFrom (token.encode ++ rest) p = parseFrom rest (p.after token) := by
  cases token with
  | data b => exact parseFrom_double _ _ p
  | option cmd opt => exact parseFrom_option _ _ _ p
  | short cmd => exact parseFrom_short _ _ p
  | subnegotiation body =>
    have hform : Token.encode (.subnegotiation body) ++ rest =
        telnetIAC :: telnetSB :: (double body ++ telnetIAC :: telnetSE :: rest) := by
      simp [Token.encode]
    rw [hform, parseFrom_body]

theorem parseFrom_tokens : parseFrom (encodeTokens tokens) p = tokens.foldl Parsed.after p := by
  induction tokens generalizing p with
  | nil => rfl
  | cons token tokens ih =>
    rw [encodeTokens, flatMap_cons, parseFrom_token]
    exact ih (p.after _)

theorem parseTelnetIAC_encodeTokens :
    parseTelnetIAC (encodeTokens tokens) = tokens.foldl Parsed.after .start :=
  parseFrom_tokens tokens .start

/-- The search finds the end of the body where it is, or its last two bytes already look like the end. -/
def Harmless : Token → Prop
  | .subnegotiation body => ∀ front back : Text, body = front ++ telnetIAC :: telnetSE :: back → back = []
  | _ => True

theorem harmless_subnegotiation_iff {body : Text} :
    Harmless (.subnegotiation body) ↔ leak body = [] := by
  constructor
  · intro hharmless
    unfold leak
    cases hfound : findSE body with
    | none => rfl
    | some found => exact hharmless found.1 found.2 (findSE_eq hfound)
  · intro hleak front back hbody
    rcases findSE_append front back with ⟨first, last, hfound, hlength⟩
    rw [leak, hbody, hfound] at hleak
    simp only at hleak
    rw [hleak] at hlength
    exact eq_nil_of_length_eq_zero (Nat.le_zero.mp hlength)

/-! ## Terminal types -/

theorem subnegotiation_of_ne {opt kind : UInt8}
    (hother : opt ≠ telnetOptTTYPE ∨ kind ≠ telnetTTYPEIs) (body : Text) :
    p.subnegotiation (opt :: kind :: body) = p := by
  rw [Parsed.subnegotiation, if_neg]
  intro his
  cases hother with
  | inl hopt => exact hopt his.1
  | inr hkind => exact hkind his.2

theorem subnegotiation_tail (front : Text) {tail : Text} (htail : tail.filter isPrintable = []) :
    p.subnegotiation (front ++ telnetIAC :: tail) = p.subnegotiation (front ++ [telnetIAC]) := by
  have hprint : ∀ text : Text, (text ++ telnetIAC :: tail).filter isPrintable =
      (text ++ [telnetIAC]).filter isPrintable := by
    intro text
    rw [filter_append, filter_append, filter_cons_of_neg (by decide), htail,
      filter_cons_of_neg (by decide), filter_nil]
  match front with
  | [] =>
    cases tail with
    | nil => rfl
    | cons kind tail => exact subnegotiation_of_ne p (.inl (by decide)) _
  | [opt] =>
    calc p.subnegotiation (opt :: telnetIAC :: tail)
        = p := subnegotiation_of_ne p (.inr (by decide)) tail
      _ = p.subnegotiation (opt :: telnetIAC :: []) := (subnegotiation_of_ne p (.inr (by decide)) []).symm
  | opt :: kind :: text =>
    simp [Parsed.subnegotiation, printableBounded_eq, hprint]

theorem subnegotiation_double (body : Text) :
    p.subnegotiation (double body) = p.subnegotiation body := by
  match body with
  | [] => rfl
  | opt :: body =>
    rw [double_cons]
    by_cases hopt : opt = telnetIAC
    · rw [if_pos hopt, cons_append, cons_append, hopt]
      rw [subnegotiation_of_ne p (.inl (by decide))]
      cases body with
      | nil => rfl
      | cons kind text => rw [subnegotiation_of_ne p (.inl (by decide))]
    · rw [if_neg hopt, singleton_append]
      match body with
      | [] => rfl
      | kind :: body =>
        rw [double_cons]
        by_cases hkind : kind = telnetIAC
        · rw [if_pos hkind, cons_append, hkind]
          rw [subnegotiation_of_ne p (.inr (by decide)), subnegotiation_of_ne p (.inr (by decide))]
        · rw [if_neg hkind, singleton_append]
          simp only [Parsed.subnegotiation, printableBounded_eq, filter_double]

/-- A body that leaks nothing is reported as if it had been taken out whole. -/
theorem subnegotiation_reported {body : Text} (hleak : leak body = []) :
    p.subnegotiation (reported body) = p.subnegotiation body := by
  cases hfound : findSE body with
  | none =>
    rw [reported, hfound]
    exact subnegotiation_double p _
  | some found =>
    rw [leak, hfound] at hleak
    have hbody : body = found.1 ++ telnetIAC :: [telnetSE] := by
      rw [findSE_eq hfound]
      exact congrArg (fun back ↦ found.1 ++ telnetIAC :: telnetSE :: back) hleak
    have hpair : double (found.1 ++ [telnetIAC]) = double found.1 ++ telnetIAC :: [telnetIAC] := by
      rw [double, flatMap_append]
      rfl
    calc p.subnegotiation (reported body)
        = p.subnegotiation (double found.1 ++ [telnetIAC]) := by rw [reported, hfound]
      _ = p.subnegotiation (double found.1 ++ telnetIAC :: [telnetIAC]) :=
          (subnegotiation_tail p _ (by decide)).symm
      _ = p.subnegotiation (found.1 ++ [telnetIAC]) := by rw [← hpair, subnegotiation_double]
      _ = p.subnegotiation (found.1 ++ telnetIAC :: [telnetSE]) :=
          (subnegotiation_tail p _ (by decide)).symm
      _ = p.subnegotiation body := by rw [hbody]

theorem subnegotiation_eq (body : Text) :
    p.subnegotiation body =
      { p with
        ttype := ((Token.terminalType (.subnegotiation body)).map
          fun name ↦ (name.filter isPrintable).take maxTelnetTType).getD p.ttype } := by
  match body with
  | [] => rfl
  | [_] => rfl
  | opt :: kind :: name =>
    simp only [Parsed.subnegotiation, Token.terminalType, printableBounded_eq]
    split <;> rfl

/-! ## Refusals -/

theorem three_dvd_replies : 3 ∣ (tokens.flatMap Token.reply).length := by
  induction tokens with
  | nil => exact dvd_zero 3
  | cons token tokens ih =>
    rw [flatMap_cons, length_append]
    refine Nat.dvd_add ?_ ih
    cases token with
    | option cmd opt =>
      cases cmd with
      | asks | offers => exact dvd_refl 3
      | _ => exact dvd_zero 3
    | _ => exact dvd_zero 3

theorem take_replies {all : Text} (hall : 3 ∣ all.length) {reply : Text} (hreply : reply.length = 3) :
    (all ++ reply).take maxTelnetReplyBytes =
      if (all.take maxTelnetReplyBytes).length + 3 ≤ maxTelnetReplyBytes
      then all.take maxTelnetReplyBytes ++ reply else all.take maxTelnetReplyBytes := by
  have hmax : maxTelnetReplyBytes = 192 := rfl
  rw [length_take]
  split
  · next hroom =>
    rw [take_of_length_le (by rw [length_append]; omega),
      take_of_length_le (by omega)]
  · next hfull => rw [take_append_of_le_length (by omega)]

theorem replies_option (cmd : OptionCommand) (opt : UInt8) (tokens : List Token)
    (hp : p.replies = (tokens.flatMap Token.reply).take maxTelnetReplyBytes) :
    p.option cmd.byte opt = { p with
      replies := ((tokens ++ [Token.option cmd opt]).flatMap Token.reply).take maxTelnetReplyBytes } := by
  have htake := @take_replies (tokens.flatMap _) (three_dvd_replies _)
  rw [flatMap_append, flatMap_singleton, Parsed.option]
  cases cmd with
  | asks | offers =>
    rw [htake rfl, ← hp]
    split <;> rfl
  | asksNot =>
    have hreply : Token.reply (.option .asksNot opt) = [] := rfl
    rw [hreply, append_nil, ← hp]
    exact ite_self p
  | offersNot =>
    have hreply : Token.reply (.option .offersNot opt) = [] := rfl
    rw [hreply, append_nil, ← hp]
    exact ite_self p

/-! ## Whole inputs -/

theorem meaning_concat {token : Token} (htoken : Harmless token) :
    (meaning tokens).after token = meaning (tokens ++ [token]) := by
  cases token with
  | data b =>
    ext1 <;> simp [Parsed.after, Parsed.data, meaning, Token.dataBytes, Token.reply, Token.terminalType]
  | short cmd =>
    ext1 <;> simp [Parsed.after, meaning, Token.dataBytes, Token.reply, Token.terminalType]
  | option cmd opt =>
    rw [Parsed.after, replies_option _ cmd _ tokens rfl]
    ext1 <;> simp [meaning, Token.dataBytes, Token.terminalType]
  | subnegotiation body =>
    have hleak := harmless_subnegotiation_iff.mp htoken
    rw [Parsed.after, subnegotiation_reported _ hleak, subnegotiation_eq, hleak]
    ext1
    · simp [meaning, Token.dataBytes]
    · simp [meaning, Token.reply]
    · simp only [meaning, filterMap_append]
      cases hname : Token.terminalType (.subnegotiation body) <;> simp [hname]

theorem foldl_after_eq_meaning {tokens : List Token} (hharmless : ∀ token ∈ tokens, Harmless token) :
    tokens.foldl Parsed.after .start = meaning tokens := by
  induction tokens using List.reverseRecOn with
  | nil => rfl
  | append_singleton tokens token ih =>
    have hfront := ih fun other hother ↦ hharmless other (mem_append_left _ hother)
    have htoken := hharmless token (mem_append_right _ (mem_singleton.mpr rfl))
    rw [foldl_concat, hfront, meaning_concat _ htoken]

/-- The bytes of a token that reach the session as data. -/
def Token.surfaced : Token → Text
  | .subnegotiation body => leak body
  | token => token.dataBytes

theorem clean_foldl_after :
    (tokens.foldl Parsed.after p).clean = p.clean ++ tokens.flatMap Token.surfaced := by
  induction tokens generalizing p with
  | nil => rw [foldl_nil, flatMap_nil, append_nil]
  | cons token tokens ih =>
    have hclean : (p.after token).clean = p.clean ++ token.surfaced := by
      cases token with
      | data b => rfl
      | short cmd => exact (append_nil _).symm
      | option cmd opt =>
        have hsurfaced : Token.surfaced (.option cmd opt) = [] := rfl
        rw [hsurfaced, append_nil, Parsed.after, Parsed.option]
        split
        · split
          · rfl
          · split <;> rfl
        · rfl
      | subnegotiation body => rfl
    rw [foldl_cons, ih, hclean, flatMap_cons, append_assoc]

theorem dataBytes_length_le (token : Token) : token.dataBytes.length ≤ token.surfaced.length := by
  cases token with
  | subnegotiation body => exact Nat.zero_le _
  | _ => exact le_refl _

/-- Leaked bytes make the data longer than what was sent, and nothing makes it shorter again. -/
theorem surfaced_eq_of_length {tokens : List Token}
    (hlength : (tokens.flatMap Token.surfaced).length = (tokens.flatMap Token.dataBytes).length) :
    ∀ token ∈ tokens, token.surfaced.length = token.dataBytes.length := by
  have hle : ∀ tokens : List Token,
      (tokens.flatMap Token.dataBytes).length ≤ (tokens.flatMap Token.surfaced).length := by
    intro tokens
    induction tokens with
    | nil => exact le_refl _
    | cons token tokens ih =>
      rw [flatMap_cons, flatMap_cons, length_append, length_append]
      exact Nat.add_le_add (dataBytes_length_le _) ih
  induction tokens with
  | nil => intro token htoken; cases htoken
  | cons first tokens ih =>
    rw [flatMap_cons, flatMap_cons, length_append, length_append] at hlength
    have hfirst := dataBytes_length_le first
    have htail := hle tokens
    intro token htoken
    cases htoken with
    | head => omega
    | tail _ htoken => exact ih (by omega) token htoken

/-- The parser understands what a client sends exactly if no subnegotiation has an IAC before a byte SE,
other than as its last two bytes. -/
theorem parse_encoded_iff (tokens : List Token) :
    parseTelnetIAC (encodeTokens tokens) = meaning tokens ↔
      ∀ body, .subnegotiation body ∈ tokens →
        ∀ front back : Text, body = front ++ telnetIAC :: telnetSE :: back → back = [] := by
  rw [parseTelnetIAC_encodeTokens]
  constructor
  · intro hparse body hbody
    have hclean := congrArg Parsed.clean hparse
    rw [clean_foldl_after] at hclean
    have hlength := surfaced_eq_of_length (congrArg _ hclean) _ hbody
    exact harmless_subnegotiation_iff.mpr (eq_nil_of_length_eq_zero hlength)
  · intro hbodies
    apply foldl_after_eq_meaning
    intro token htoken
    cases token with
    | subnegotiation body => exact hbodies body htoken
    | _ => trivial

/-- A terminal type that contains the bytes 255 and 240 loses its end, which shows up in the data. -/
theorem parse_leaks_body :
    parseTelnetIAC (encodeTokens [.subnegotiation [24, 0, 97, 255, 240, 98], .data 99]) =
        ⟨[98, 99], [], [97]⟩ ∧
      meaning [.subnegotiation [24, 0, 97, 255, 240, 98], .data 99] = ⟨[99], [], [97, 98]⟩ := by
  decide

end RanHoneypot.Trap.Telnet
