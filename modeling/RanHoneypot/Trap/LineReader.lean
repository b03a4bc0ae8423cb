import RanHoneypot.Data.BufReader
import RanHoneypot.Data.GoText

/-!
# Lines of a connection

`readLineLimited` of `linereader.go` reads a line of bounded length through a buffered reader. A line
that does not fit the buffer arrives in pieces, and the limit is checked after every piece. The outcome
depends on the bytes that are pending only, whatever the size of the buffer and the chunks are.
-/

namespace RanHoneypot.Trap

open GoText List

def maxLineLen : ℕ := 4096

inductive LineError where
  | tooLong
  | eof
deriving DecidableEq

/-- The loop of `readLinePartial`, with a bound on its rounds and the bytes read so far. -/
def readLineLoop (max : ℕ) : ℕ → BufReader UInt8 → Text → Except LineError Text × BufReader UInt8
  | 0, r, _ => (.error .tooLong, r)
  | rounds + 1, r, line =>
    let chunk := (r.readSlice (ch '\n')).1.1
    let after := (r.readSlice (ch '\n')).2
    if max < line.length + chunk.length then (.error .tooLong, after)
    else
      match (r.readSlice (ch '\n')).1.2 with
      | .found => (.ok (line ++ chunk), after)
      | .bufferFull => readLineLoop max rounds after (line ++ chunk)
      | .eof => (.error .eof, after)

/-- A line of at most `max` bytes with its line break. -/
def readLineLimited (max : ℕ) (r : BufReader UInt8) : Except LineError Text × BufReader UInt8 :=
  readLineLoop max (max + 1) r []

/-- `strings.TrimRight(line, "\r\n")`. -/
def trimLineBreak (line : Text) : Text :=
  (line.reverse.dropWhile fun b ↦ b = ch '\r' ∨ b = ch '\n').reverse

/-- The first line of a stream with its line break. -/
def firstLine (stream : Text) : Text := stream.take (stream.idxOf (ch '\n') + 1)

/-- What a stream gives behind the bytes of a line that were read before. -/
def lineOf (max : ℕ) (line stream : Text) : Except LineError Text :=
  if max < line.length + (firstLine stream).length then .error .tooLong
  else if ch '\n' ∈ stream then .ok (line ++ firstLine stream)
  else .error .eof

theorem firstLine_append {front : Text} (hfront : ch '\n' ∉ front) (rest : Text) :
    firstLine (front ++ rest) = front ++ firstLine rest := by
  rw [firstLine, idxOf_append_of_notMem hfront, Nat.add_assoc, take_length_add_append, firstLine]

theorem firstLine_break {front : Text} (hfront : ch '\n' ∉ front) (rest : Text) :
    firstLine (front ++ ch '\n' :: rest) = front ++ [ch '\n'] := by
  rw [firstLine_append hfront, firstLine]
  rfl

theorem firstLine_eq_self {stream : Text} (hnone : ch '\n' ∉ stream) : firstLine stream = stream := by
  have happend := firstLine_append hnone []
  rwa [show firstLine [] = [] from rfl, append_nil] at happend

theorem trimLineBreak_crlf (front : Text) {last : UInt8} (hlast : isDigit last = true) :
    trimLineBreak (front ++ [last] ++ [ch '\r', ch '\n']) = front ++ [last] := by
  have hstays : ¬ (last = ch '\r' ∨ last = ch '\n') := by
    intro hbreak
    rcases hbreak with hbreak | hbreak
    · exact absurd (hbreak ▸ hlast) (by decide)
    · exact absurd (hbreak ▸ hlast) (by decide)
  simp [trimLineBreak, hstays]

section

variable {ε : Type*} {max : ℕ} {r : BufReader UInt8}

/-- The loop of `readLinePartial`, with a bound on its rounds and the bytes read so far. The connection
ends with the error `err`. -/
def readLinePartialLoop (errTooLong err : ε) (max : ℤ) :
    ℕ → BufReader UInt8 → Text → (Text × Option ε) × BufReader UInt8
  | 0, r, _ => (([], some errTooLong), r)
  | rounds + 1, r, buf =>
    let chunk := (r.readSlice (ch '\n')).1.1
    let after := (r.readSlice (ch '\n')).2
    if buf.length + chunk.length > max then (([], some errTooLong), after)
    else
      match (r.readSlice (ch '\n')).1.2 with
      | .found => ((buf ++ chunk, none), after)
      | .bufferFull => readLinePartialLoop errTooLong err max rounds after (buf ++ chunk)
      | .eof => ((buf ++ chunk, some err), after)

/-- The text read, and the error if there is one. -/
def readLinePartial (errTooLong err : ε) (max : ℤ) (r : BufReader UInt8) :
    (Text × Option ε) × BufReader UInt8 :=
  readLinePartialLoop errTooLong err max (max.toNat + 1) r []

/-- What a stream gives behind the bytes `buf` that were read before. -/
def partialOf (errTooLong err : ε) (max : ℤ) (buf stream : Text) : Text × Option ε :=
  if buf.length + (firstLine stream).length > max then ([], some errTooLong)
  else (buf ++ firstLine stream, if ch '\n' ∈ stream then none else some err)

theorem readLinePartialLoop_spec (errTooLong err : ε) (max : ℤ) (rounds : ℕ) (buf : Text) (hr : r.WF)
    (hrounds : max < buf.length + rounds) :
    (readLinePartialLoop errTooLong err max rounds r buf).1 =
        partialOf errTooLong err max buf r.pending ∧
      ((partialOf errTooLong err max buf r.pending).2 = none →
        (readLinePartialLoop errTooLong err max rounds r buf).2.WF ∧
        (readLinePartialLoop errTooLong err max rounds r buf).2.pending =
          r.pending.drop (firstLine r.pending).length) := by
  induction rounds generalizing r buf with
  | zero =>
    have hlong : partialOf errTooLong err max buf r.pending = ([], some errTooLong) := by
      rw [partialOf, if_pos (by omega)]
    rw [hlong]
    exact ⟨rfl, by rintro ⟨⟩⟩
  | succ rounds ih =>
    rcases BufReader.readSlice_spec (ch '\n') hr with ⟨hslice, hpending, hwf⟩
    rw [readLinePartialLoop]
    simp only [hslice]
    by_cases hfound : ch '\n' ∈ r.pending.take r.size
    · have hmem : ch '\n' ∈ r.pending := mem_of_mem_take hfound
      simp only [BufReader.sliceOf, if_pos hfound] at hpending ⊢
      rw [← firstLine, partialOf]
      split
      · exact ⟨rfl, by rintro ⟨⟩⟩
      · refine ⟨rfl, fun _ ↦ ⟨hwf, ?_⟩⟩
        have hindex : r.pending.idxOf (ch '\n') < r.pending.length := idxOf_lt_length_of_mem hmem
        rw [hpending, firstLine, length_take, Nat.min_eq_left hindex]
    · by_cases hfull : r.size ≤ r.pending.length
      · have hchunk : (r.pending.take _).length = r.size := length_take_of_le hfull
        have hpos := hr.size_pos
        have hsplit : firstLine r.pending = r.pending.take r.size ++ firstLine (r.pending.drop r.size) := by
          rw [← firstLine_append hfound, take_append_drop]
        have hmem : ch '\n' ∈ r.pending ↔ ch '\n' ∈ r.pending.drop r.size := by
          conv_lhs => rw [← take_append_drop r.size r.pending, mem_append]
          exact or_iff_right hfound
        simp only [BufReader.sliceOf, if_neg hfound, if_pos hfull] at hpending ⊢
        split
        · next hlong =>
          have htoo : partialOf errTooLong err max buf r.pending = ([], some errTooLong) := by
            rw [partialOf, if_pos (by rw [hsplit, length_append]; omega)]
          rw [htoo]
          exact ⟨rfl, by rintro ⟨⟩⟩
        · have hsame : partialOf errTooLong err max buf r.pending =
              partialOf errTooLong err max (buf ++ r.pending.take r.size) (r.pending.drop r.size) := by
            simp [partialOf, hsplit, hmem, add_assoc]
          have hmore : max < (buf ++ r.pending.take r.size).length + rounds := by
            rw [length_append]
            omega
          rcases ih _ hwf hmore with ⟨hline, hrest⟩
          rw [hpending, ← hsame] at hline hrest
          refine ⟨hline, fun hnone ↦ ⟨(hrest hnone).1, ?_⟩⟩
          rw [(hrest hnone).2, hsplit, length_append, hchunk, drop_drop]
      · have hnone : ch '\n' ∉ r.pending := by rwa [take_of_length_le (by omega)] at hfound
        simp only [BufReader.sliceOf, if_neg hfound, if_neg hfull]
        rw [partialOf, firstLine_eq_self hnone]
        split
        · exact ⟨rfl, by rintro ⟨⟩⟩
        · exact ⟨rfl, by rintro ⟨⟩⟩

theorem readLinePartial_eq (errTooLong err : ε) (max : ℤ) (hr : r.WF) :
    (readLinePartial errTooLong err max r).1 = partialOf errTooLong err max [] r.pending ∧
      ((partialOf errTooLong err max [] r.pending).2 = none →
        (readLinePartial errTooLong err max r).2.pending =
          r.pending.drop (firstLine r.pending).length) := by
  have hrounds : max < ([] : Text).length + (max.toNat + 1 : ℕ) := by
    omega
  rcases readLinePartialLoop_spec errTooLong err max _ [] hr hrounds with ⟨hline, hrest⟩
  exact ⟨hline, fun hnone ↦ (hrest hnone).2⟩

/-- The outcome depends on the pending bytes only: a line within the limit, nothing if the line or the
rest of the stream is longer, and otherwise everything together with the read error. -/
theorem line_read_whatever_the_buffer (errTooLong err : ε) (max : ℤ) (hr : r.WF) :
    (∀ front back, ch '\n' ∉ front → r.pending = front ++ ch '\n' :: back →
      (front.length + 1 ≤ max →
        (readLinePartial errTooLong err max r).1 = (front ++ [ch '\n'], none) ∧
        (readLinePartial errTooLong err max r).2.pending = back) ∧
      (front.length + 1 > max → (readLinePartial errTooLong err max r).1 = ([], some errTooLong))) ∧
    (ch '\n' ∉ r.pending →
      (readLinePartial errTooLong err max r).1 =
        if r.pending.length > max then ([], some errTooLong) else (r.pending, some err)) := by
  rcases readLinePartial_eq errTooLong err max hr with ⟨hline, hrest⟩
  refine ⟨fun front back hfront hstream ↦ ?_, fun hnone ↦ ?_⟩
  · have hmem : ch '\n' ∈ r.pending := by simp [hstream]
    have hfirst : firstLine r.pending = front ++ [ch '\n'] := by rw [hstream, firstLine_break hfront]
    rw [partialOf, hfirst, if_pos hmem] at hline hrest
    refine ⟨fun hfits ↦ ?_, fun hlong ↦ ?_⟩
    · rw [if_neg (by simp; omega)] at hline hrest
      refine ⟨hline, (hrest rfl).trans ?_⟩
      simp [hstream]
    · rw [hline, if_pos (by simp; omega)]
  · rw [hline, partialOf, firstLine_eq_self hnone, if_neg hnone]
    simp

theorem line_read_whatever_the_buffer_split :
    (readLinePartial (0 : ℕ) 1 4 (BufReader.ofChunks 2 [[65], [66, 10], [67]])).1 =
      ([65, 66] ++ [10], none) :=
  ((line_read_whatever_the_buffer 0 1 4 (BufReader.wf_ofChunks (by decide) (by decide))).1
    [65, 66] [67] (by decide) rfl).1 (by decide) |>.1

/-- `readLineLimited` drops the text that comes with an error. -/
theorem readLineLoop_eq (rounds : ℕ) (line : Text) :
    readLineLoop max rounds r line =
      ((readLinePartialLoop .tooLong .eof max rounds r line).1.2.elim
        (.ok (readLinePartialLoop LineError.tooLong .eof max rounds r line).1.1) .error,
      (readLinePartialLoop LineError.tooLong .eof max rounds r line).2) := by
  induction rounds generalizing r line with
  | zero => rfl
  | succ rounds ih =>
    rw [readLineLoop, readLinePartialLoop]
    simp only [← Nat.cast_add, Nat.cast_lt]
    split
    · rfl
    · split
      · rfl
      · exact ih _
      · rfl

theorem lineOf_eq (line stream : Text) :
    lineOf max line stream = (partialOf LineError.tooLong .eof max line stream).2.elim
      (.ok (partialOf LineError.tooLong .eof max line stream).1) .error := by
  rw [lineOf, partialOf]
  simp only [← Nat.cast_add, Nat.cast_lt]
  split
  · rfl
  · split <;> rfl

theorem readLineLimited_spec (hr : r.WF) :
    (readLineLimited max r).1 = lineOf max [] r.pending ∧
      ∀ text, lineOf max [] r.pending = .ok text →
        (readLineLimited max r).2.WF ∧
        (readLineLimited max r).2.pending = r.pending.drop (firstLine r.pending).length := by
  rcases readLinePartialLoop_spec LineError.tooLong .eof max (max + 1) [] hr (by simp) with
    ⟨hline, hrest⟩
  rw [readLineLimited, readLineLoop_eq, lineOf_eq, hline]
  refine ⟨rfl, fun text htext ↦ hrest ?_⟩
  cases hend : (partialOf LineError.tooLong .eof max [] r.pending).2 with
  | none => rfl
  | some e => simp [hend] at htext

/-- A line is found if its line break is within the limit. -/
theorem lineOf_eq_ok_iff (stream text : Text) :
    lineOf max [] stream = .ok text ↔ ch '\n' ∈ stream.take max ∧ text = firstLine stream := by
  by_cases hmem : ch '\n' ∈ stream
  · have hindex : stream.idxOf (ch '\n') < stream.length := idxOf_lt_length_of_mem hmem
    have hlength : (firstLine _).length = stream.idxOf (ch '\n') + 1 := length_take_of_le hindex
    rw [mem_take_iff_idxOf_lt hmem, lineOf, length_nil, nil_append]
    split
    · next hlong => simp only [reduceCtorEq, false_iff]; omega
    · next hfits =>
      rw [Except.ok.injEq, eq_comm]
      exact ⟨fun heq ↦ ⟨by omega, heq⟩, And.right⟩
  · have hnone : ch '\n' ∉ stream.take max := fun htake ↦ hmem (mem_of_mem_take htake)
    rw [lineOf]
    split <;> simp [hnone]

end

end RanHoneypot.Trap
