import Mathlib.Algebra.Group.Nat.Defs
import Mathlib.Data.Int.Basic
import Mathlib.Data.List.Basic

/-!
# Runes of byte strings

The decoder and encoder of `unicode/utf8`. A byte string may be malformed: a byte that starts no
encoding is read as `runeError` with size 1, and reading goes on behind it.
-/

namespace RanHoneypot.Utf8

/-- U+FFFD, which stands for a malformed byte. -/
def runeError : ℕ := 0xFFFD

/-- The number of bytes after a first byte and the range of the second byte. -/
def leadByte (b : ℕ) : Option (ℕ × ℕ × ℕ) :=
  if 0xC2 ≤ b ∧ b ≤ 0xDF then some (1, 0x80, 0xBF)
  else if b = 0xE0 then some (2, 0xA0, 0xBF)
  else if b = 0xED then some (2, 0x80, 0x9F)
  else if 0xE1 ≤ b ∧ b ≤ 0xEF then some (2, 0x80, 0xBF)
  else if b = 0xF0 then some (3, 0x90, 0xBF)
  else if 0xF1 ≤ b ∧ b ≤ 0xF3 then some (3, 0x80, 0xBF)
  else if b = 0xF4 then some (3, 0x80, 0x8F)
  else none

def isContinuation (b : UInt8) : Bool := 0x80 ≤ b.toNat && b.toNat ≤ 0xBF

/-- The value of the continuation bytes `tail` behind the leading bits `lead`. -/
def joinBits (lead : ℕ) (tail : List UInt8) : ℕ :=
  tail.foldl (fun acc b ↦ acc * 64 + b.toNat % 64) lead

/-- The first rune of a byte string and the number of bytes it takes. -/
def decodeRune : List UInt8 → ℕ × ℕ
  | [] => (runeError, 0)
  | first :: rest =>
    if first.toNat < 0x80 then (first.toNat, 1)
    else
      match leadByte first.toNat with
      | none => (runeError, 1)
      | some (count, low, high) =>
        let tail := rest.take count
        let second := (tail.headD 0).toNat
        if tail.length = count ∧ low ≤ second ∧ second ≤ high ∧ tail.all isContinuation then
          (joinBits (first.toNat % 2 ^ (6 - count)) tail, count + 1)
        else (runeError, 1)

/-- The loop `for i := 0; i < len(s); i += size`, with a bound on its rounds. -/
def runesLoop : ℕ → List UInt8 → List (ℕ × ℕ)
  | 0, _ => []
  | rounds + 1, s =>
    if s = [] then [] else decodeRune s :: runesLoop rounds (s.drop (decodeRune s).2)

/-- The runes of a byte string with their sizes. Every round reads at least one byte. -/
def runes (s : List UInt8) : List (ℕ × ℕ) := runesLoop s.length s

/-- The encoded length, or -1 for a value that is no rune. -/
def runeLen (r : ℕ) : ℤ :=
  if r < 0x80 then 1
  else if r < 0x800 then 2
  else if 0xD800 ≤ r ∧ r ≤ 0xDFFF then -1
  else if r < 0x10000 then 3
  else if r ≤ 0x10FFFF then 4
  else -1

/-- The encoding of a rune; values that are no rune are written as `runeError`. -/
def encodeRune (r : ℕ) : List UInt8 :=
  let valid := if (0xD800 ≤ r ∧ r ≤ 0xDFFF) ∨ 0x10FFFF < r then runeError else r
  let continuation (shift : ℕ) : UInt8 := UInt8.ofNat (0x80 + valid / 2 ^ shift % 64)
  if valid < 0x80 then [UInt8.ofNat valid]
  else if valid < 0x800 then [UInt8.ofNat (0xC0 + valid / 64), continuation 0]
  else if valid < 0x10000 then [UInt8.ofNat (0xE0 + valid / 4096), continuation 6, continuation 0]
  else [UInt8.ofNat (0xF0 + valid / 262144), continuation 12, continuation 6, continuation 0]

/-- The bytes of a text. -/
def ofText (text : String) : List UInt8 := text.toList.flatMap fun c ↦ encodeRune c.toNat

end RanHoneypot.Utf8
