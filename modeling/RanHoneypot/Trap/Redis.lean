import Mathlib.Data.Nat.Digits.Lemmas
import RanHoneypot.Trap.LineReader

/-!
# Commands of the Redis trap

`readRedisCommand` of `redis.go` reads a command as an array of bulk strings, or as a line of words.
Lines and counted bytes alternate on one buffered reader: a header is read up to its line break, an
argument by its length, so an argument may hold anything, also what looks like a header.
-/

namespace RanHoneypot.Trap.Redis

open GoText List

variable {r : BufReader UInt8} {rest : Text}

variable {r' : BufReader UInt8} {args : List Text}

def maxRESPArgs : ℕ := 128
def maxRESPBulk : ℕ := 4096

def redisBufferSize : ℕ := 4096

inductive RedisError where
  | line (error : LineError)
  | unexpectedEnd
  | invalidCount (line : Text)
  | arrayTooLarge (count : ℤ)
  | expectedBulk (header : Text)
  | invalidLength (header : Text)
deriving DecidableEq

/-- A command or an error, and the reader behind it. -/
abbrev Reading (α : Type) := Except RedisError α × BufReader UInt8

/-- One round of the loop of `readRESPArray`. The two bytes behind an argument are not looked at. -/
def readBulk (r : BufReader UInt8) : Reading Text :=
  match readLineLimited maxLineLen r with
  | (.error error, r) => (.error (.line error), r)
  | (.ok line, r) =>
    let header := trimLineBreak line
    if header.head? ≠ some (ch '$') then (.error (.expectedBulk header), r)
    else
      match atoi header.tail with
      | none => (.error (.invalidLength header), r)
      | some length =>
        if length < 0 ∨ maxRESPBulk < length then (.error (.invalidLength header), r)
        else
          match r.readFull (length.toNat + 2) with
          | (none, r) => (.error .unexpectedEnd, r)
          | (some data, r) => (.ok (data.take length.toNat), r)

def bulkLoop : ℕ → BufReader UInt8 → List Text → Reading (List Text)
  | 0, r, args => (.ok args, r)
  | count + 1, r, args =>
    match readBulk r with
    | (.error error, r) => (.error error, r)
    | (.ok arg, r) => bulkLoop count r (args ++ [arg])

def readRESPArray (r : BufReader UInt8) : Reading (List Text) :=
  match readLineLimited maxLineLen r with
  | (.error error, r) => (.error (.line error), r)
  | (.ok line, r) =>
    let line := trimLineBreak line
    match atoi line.tail with
    | none => (.error (.invalidCount line), r)
    | some count =>
      if count < 0 then (.error (.invalidCount line), r)
      else if maxRESPArgs < count then (.error (.arrayTooLarge count), r)
      else bulkLoop count.toNat r []

def readInlineCommand (r : BufReader UInt8) : Reading (List Text) :=
  match readLineLimited maxLineLen r with
  | (.error error, r) => (.error (.line error), r)
  | (.ok line, r) => (.ok (if trimLineBreak line = [] then [] else fields (trimLineBreak line)), r)

def readRedisCommand (r : BufReader UInt8) : Reading (List Text) :=
  match r.peek 1 with
  | (none, r) => (.error .unexpectedEnd, r)
  | (some b, r) => if b.head? = some (ch '*') then readRESPArray r else readInlineCommand r

/-- The commands that are read one after the other. -/
def readCommands : ℕ → BufReader UInt8 → Reading (List (List Text))
  | 0, r => (.ok [], r)
  | count + 1, r =>
    match readRedisCommand r with
    | (.error error, r) => (.error error, r)
    | (.ok args, r) =>
      match readCommands count r with
      | (.error error, r) => (.error error, r)
      | (.ok rest, r) => (.ok (args :: rest), r)

/-! ## Commands as they are sent -/

/-- A command within the limits of the trap. -/
structure Command where
  args : List Text
  args_le : args.length ≤ maxRESPArgs
  bulk_le : ∀ arg ∈ args, arg.length ≤ maxRESPBulk

def crlf : Text := [ch '\r', ch '\n']

/-- A type and a number in a line. -/
def encodeHeader (kind : UInt8) (n : ℕ) : Text := kind :: itoa n ++ crlf

def encodeBulk (arg : Text) : Text := encodeHeader (ch '$') arg.length ++ (arg ++ crlf)

def Command.encode (c : Command) : Text :=
  encodeHeader (ch '*') c.args.length ++ c.args.flatMap encodeBulk

/-! ## Reading them back -/

/-- The reader behind bytes that were read, with the others still unread. -/
structure Behind (r : BufReader UInt8) (rest : Text) : Prop where
  wf : r.WF
  pending : r.pending = rest

theorem length_itoa_le {n : ℕ} (hn : n ≤ maxRESPBulk) : (itoa n).length ≤ 4 := by
  rw [maxRESPBulk] at hn
  unfold itoa
  split
  · decide
  · rw [length_map, length_reverse]
    exact (Nat.digits_length_le_iff (by decide) n).mpr (by omega)

theorem readLineLimited_header {kind : UInt8} {n : ℕ} (hr : Behind r (encodeHeader kind n ++ rest))
    (hkind : kind ≠ ch '\n') (hn : n ≤ maxRESPBulk) :
    ∃ r', readLineLimited maxLineLen r = (.ok (encodeHeader kind n), r') ∧ Behind r' rest := by
  have hfeed : ch '\n' ∉ kind :: itoa n ++ [ch '\r'] := by
    have hdigits : ch '\n' ∉ itoa n := by
      intro hmem
      exact absurd (isDigit_of_mem_itoa hmem) (by decide)
    simp only [cons_append, mem_cons, mem_append, not_mem_nil, not_or]
    exact ⟨hkind.symm, hdigits, by decide⟩
  have hpending : r.pending = (kind :: itoa n ++ [ch '\r']) ++ ch '\n' :: rest := by
    rw [hr.pending]
    simp [encodeHeader, crlf]
  have hfirst : firstLine r.pending = encodeHeader kind n := by
    rw [hpending, firstLine_break hfeed]
    simp [encodeHeader, crlf]
  have hlength : (encodeHeader kind n).length ≤ maxLineLen := by
    have hdigits := length_itoa_le hn
    simp only [encodeHeader, crlf, length_append, length_cons, length_nil, maxLineLen]
    omega
  have hline : lineOf maxLineLen [] r.pending = .ok (encodeHeader kind n) := by
    rw [lineOf, hfirst, length_nil, if_neg (by omega), if_pos (by rw [hpending]; simp)]
    rfl
  rcases readLineLimited_spec hr.wf with ⟨hread, hrest⟩
  rcases hrest _ hline with ⟨hwf, hbehind⟩
  refine ⟨(readLineLimited _ r).2, Prod.ext (hread.trans hline) rfl, hwf, ?_⟩
  rw [hbehind, hfirst, hr.pending, drop_left]

theorem trimLineBreak_header (kind : UInt8) (n : ℕ) : trimLineBreak (encodeHeader kind n) = kind :: itoa n := by
  have hsplit : kind :: itoa n = kind :: (itoa n).dropLast ++ [(itoa n).getLast (itoa_ne_nil n)] := by
    rw [cons_append, dropLast_append_getLast]
  rw [encodeHeader, hsplit]
  exact trimLineBreak_crlf _ (isDigit_of_mem_itoa (getLast_mem _))

theorem readBulk_encode {arg : Text} (hr : Behind r (encodeBulk arg ++ rest))
    (harg : arg.length ≤ maxRESPBulk) : ∃ r', readBulk r = (.ok arg, r') ∧ Behind r' rest := by
  rw [encodeBulk, append_assoc] at hr
  rcases readLineLimited_header hr (by decide) harg with ⟨r', hread, hr'⟩
  have hlong : arg.length + 2 ≤ r'.pending.length := by
    rw [hr'.pending]
    simp [crlf]
  have hlimit : arg.length < 2 ^ 63 := by
    rw [maxRESPBulk] at harg
    omega
  rcases BufReader.readFull_spec hr'.wf hlong with ⟨hwf, hdata, hrest⟩
  have hbytes : (arg ++ crlf).length = arg.length + 2 := by rw [length_append]; rfl
  rw [hr'.pending, ← hbytes, take_left] at hdata
  rw [hr'.pending, ← hbytes, drop_left] at hrest
  refine ⟨(r'.readFull (arg.length + 2)).2, ?_, hbytes ▸ hwf, hbytes ▸ hrest⟩
  have hfull : r'.readFull (arg.length + 2) = (some (arg ++ crlf), (r'.readFull _).2) :=
    Prod.ext (hbytes ▸ hdata) rfl
  simp only [readBulk, hread, trimLineBreak_header, head?_cons, ne_eq, not_true_eq_false, ite_false,
    tail_cons, atoi_itoa hlimit]
  rw [if_neg (by omega), Int.toNat_natCast, hfull]
  simp only [take_left]

theorem bulkLoop_encode (hr : Behind r (args.flatMap encodeBulk ++ rest))
    (hargs : ∀ arg ∈ args, arg.length ≤ maxRESPBulk) (before : List Text) :
    ∃ r', bulkLoop args.length r before = (.ok (before ++ args), r') ∧ Behind r' rest := by
  induction args generalizing r before with
  | nil => exact ⟨r, by rw [append_nil]; rfl, hr⟩
  | cons arg args ih =>
    rw [forall_mem_cons] at hargs
    rw [flatMap_cons, append_assoc] at hr
    rcases readBulk_encode hr hargs.1 with ⟨r', hread, hr'⟩
    rcases ih hr' hargs.2 (before ++ [arg]) with ⟨r'', hloop, hr''⟩
    refine ⟨r'', ?_, hr''⟩
    rw [length_cons, bulkLoop, hread]
    simp [hloop]

theorem readRedisCommand_encode (c : Command) (hr : Behind r (c.encode ++ rest)) :
    ∃ r', readRedisCommand r = (.ok c.args, r') ∧ Behind r' rest := by
  have hcount : c.args.length ≤ maxRESPBulk := c.args_le.trans (by decide)
  have hlimit : c.args.length < 2 ^ 63 := by
    rw [maxRESPBulk] at hcount
    omega
  have hstar : r.pending = ch '*' :: r.pending.tail := by
    rw [hr.pending]
    rfl
  rcases BufReader.peek_spec hr.wf hr.wf.size_pos with ⟨hwf, hsame, hpeek⟩
  have hpeeked : r.peek 1 = (some [ch '*'], (r.peek 1).2) := by
    refine Prod.ext ?_ rfl
    rw [hpeek, hstar]
    rfl
  have hr₁ : Behind (r.peek 1).2 (encodeHeader (ch '*') c.args.length ++
      (c.args.flatMap encodeBulk ++ rest)) := by
    refine ⟨hwf, ?_⟩
    rw [hsame, hr.pending, Command.encode, append_assoc]
  rcases readLineLimited_header hr₁ (by decide) hcount with ⟨r₂, hread, hr₂⟩
  rcases bulkLoop_encode hr₂ c.bulk_le [] with ⟨r₃, hloop, hr₃⟩
  refine ⟨r₃, ?_, hr₃⟩
  have hargs := c.args_le
  rw [readRedisCommand, hpeeked]
  simp only [head?_cons, ite_true, readRESPArray, hread, trimLineBreak_header, tail_cons,
    atoi_itoa hlimit]
  rw [if_neg (by omega), if_neg (by omega), Int.toNat_natCast, hloop, nil_append]

theorem readCommands_encode {cmds : List Command}
    (hr : Behind r (cmds.flatMap Command.encode ++ rest)) :
    ∃ r', readCommands cmds.length r = (.ok (cmds.map Command.args), r') ∧ Behind r' rest := by
  induction cmds generalizing r with
  | nil => exact ⟨r, rfl, hr⟩
  | cons c cmds ih =>
    rw [flatMap_cons, append_assoc] at hr
    rcases readRedisCommand_encode c hr with ⟨r', hread, hr'⟩
    rcases ih hr' with ⟨r'', hloop, hr''⟩
    refine ⟨r'', ?_, hr''⟩
    rw [length_cons, readCommands, hread]
    simp [hloop]

/-! ## Arbitrary input -/

theorem readBulk_le {arg : Text} (hread : readBulk r = (.ok arg, r')) :
    arg.length ≤ maxRESPBulk := by
  simp only [readBulk] at hread
  split at hread
  · cases hread
  · split at hread
    · cases hread
    · split at hread
      · cases hread
      · next length _ =>
        split at hread
        · cases hread
        · next hlength =>
          split at hread
          · cases hread
          · cases hread
            rw [length_take]
            omega

theorem bulkLoop_le {count : ℕ} {before : List Text}
    (hbefore : ∀ arg ∈ before, arg.length ≤ maxRESPBulk)
    (hloop : bulkLoop count r before = (.ok args, r')) :
    args.length = before.length + count ∧ ∀ arg ∈ args, arg.length ≤ maxRESPBulk := by
  induction count generalizing r before with
  | zero =>
    cases hloop
    exact ⟨rfl, hbefore⟩
  | succ count ih =>
    rw [bulkLoop] at hloop
    split at hloop
    · cases hloop
    · next arg r₁ hread =>
      have hall : ∀ other ∈ before ++ [arg], other.length ≤ maxRESPBulk := by
        rw [forall_mem_append, forall_mem_singleton]
        exact ⟨hbefore, readBulk_le hread⟩
      rcases ih hall hloop with ⟨hlength, hbulk⟩
      rw [length_append, length_singleton] at hlength
      exact ⟨by omega, hbulk⟩

theorem readRESPArray_le (hread : readRESPArray r = (.ok args, r')) :
    args.length ≤ maxRESPArgs ∧ ∀ arg ∈ args, arg.length ≤ maxRESPBulk := by
  simp only [readRESPArray] at hread
  split at hread
  · cases hread
  · split at hread
    · cases hread
    · next count _ =>
      split at hread
      · cases hread
      · split at hread
        · cases hread
        · next hcount =>
          rcases bulkLoop_le (forall_mem_nil _) hread with ⟨hlength, hbulk⟩
          rw [length_nil] at hlength
          exact ⟨by omega, hbulk⟩

/-- A command is read back with its arguments, whatever they contain, and nothing behind it is taken; so
are the commands of a pipeline. No array is returned beyond the limits. -/
theorem resp_decoding {r : BufReader UInt8} (hr : r.WF) :
    (∀ (c : Command) (rest : Text), r.pending = c.encode ++ rest →
      ∃ r', readRedisCommand r = (.ok c.args, r') ∧ r'.WF ∧ r'.pending = rest) ∧
    (∀ (cmds : List Command) (rest : Text), r.pending = cmds.flatMap Command.encode ++ rest →
      ∃ r', readCommands cmds.length r = (.ok (cmds.map Command.args), r') ∧ r'.WF ∧ r'.pending = rest) ∧
    ∀ args r', r.pending.head? = some (ch '*') → readRedisCommand r = (.ok args, r') →
      args.length ≤ 128 ∧ ∀ arg ∈ args, arg.length ≤ 4096 := by
  refine ⟨fun c rest hpending ↦ ?_, fun cmds rest hpending ↦ ?_, fun args r' hstar hread ↦ ?_⟩
  · rcases readRedisCommand_encode c ⟨hr, hpending⟩ with ⟨r', hread, hbehind⟩
    exact ⟨r', hread, hbehind.wf, hbehind.pending⟩
  · rcases readCommands_encode ⟨hr, hpending⟩ with ⟨r', hread, hbehind⟩
    exact ⟨r', hread, hbehind.wf, hbehind.pending⟩
  · rcases BufReader.peek_spec hr hr.size_pos with ⟨_, _, hpeek⟩
    have hhead : ∀ b, (r.peek 1).1 = some b → b.head? = some (ch '*') := by
      intro b hb
      rw [hpeek] at hb
      split at hb
      · injection hb with hb
        rw [← hb, head?_take, if_neg (by decide), hstar]
      · cases hb
    rw [readRedisCommand] at hread
    split at hread
    · cases hread
    · next b r₁ hpeeked =>
      rw [if_pos (hhead b (by rw [hpeeked]))] at hread
      exact readRESPArray_le hread

/-- A ping whose bytes arrive in two reads, with the start of another command behind it. -/
theorem resp_decoding_ping :
    ∃ r', readRedisCommand (.ofChunks redisBufferSize
        [Utf8.ofText "*1\r\n$4\r", Utf8.ofText "\nPING\r\n*2\r\n"]) = (.ok [Utf8.ofText "PING"], r') ∧
      r'.WF ∧ r'.pending = Utf8.ofText "*2\r\n" :=
  (resp_decoding (BufReader.wf_ofChunks (by decide) (by decide))).1
    ⟨[Utf8.ofText _], by decide, by decide⟩ (Utf8.ofText _) (by decide)

end RanHoneypot.Trap.Redis
