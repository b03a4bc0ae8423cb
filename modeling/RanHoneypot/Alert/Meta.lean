import Mathlib.Data.List.DropRight
import Mathlib.Data.List.Sort
import RanHoneypot.Data.Utf8
import RanHoneypot.Alert.Class

/-!
# Event meta

The meta of an alert merges what the trap reports about its client with what the sensor knows. Trap
keys and values are client controlled, so secrets are dropped, control and format characters are
replaced, and the number and the size of the keys are bounded (`crowdsec.go`).
-/

namespace RanHoneypot.Alert

open Utf8

variable (input : Meta) (r : ℕ)

def maxMetaValueBytes : ℕ := 256
def maxMetaKeyBytes : ℕ := 64
def maxMetaKeys : ℕ := 32

/-- Keys set by the sensor; they always survive the bounds. -/
def sensorMetaKeys : List Bytes :=
  ["class", "protocol", "dest_port", "auth_attempts", "commands", "payload_bytes"].map ofText

/-- Keys that are dropped, compared case insensitively. -/
def secretMetaKeys : List Bytes :=
  ["password", "pass", "passwd", "secret", "token", "authorization"].map ofText

/-! ## Character classes -/

/-- `unicode.IsControl`. -/
def isControl : Bool := r < 0x20 || (0x7F ≤ r && r ≤ 0x9F)

/-- The ranges of `unicode.Cf`. -/
def formatRanges : List (ℕ × ℕ) :=
  [(0xAD, 0xAD), (0x600, 0x605), (0x61C, 0x61C), (0x6DD, 0x6DD), (0x70F, 0x70F), (0x890, 0x891),
   (0x8E2, 0x8E2), (0x180E, 0x180E), (0x200B, 0x200F), (0x202A, 0x202E), (0x2060, 0x2064),
   (0x2066, 0x206F), (0xFEFF, 0xFEFF), (0xFFF9, 0xFFFB), (0x110BD, 0x110BD), (0x110CD, 0x110CD),
   (0x13430, 0x1343F), (0x1BCA0, 0x1BCA3), (0x1D173, 0x1D17A), (0xE0001, 0xE0001),
   (0xE0020, 0xE007F)]

def inRanges (ranges : List (ℕ × ℕ)) (r : ℕ) : Bool :=
  ranges.any fun range ↦ range.1 ≤ r && r ≤ range.2

/-- The ranges of `unicode.IsSpace`. -/
def spaceRanges : List (ℕ × ℕ) :=
  [(0x9, 0xD), (0x20, 0x20), (0x85, 0x85), (0xA0, 0xA0), (0x1680, 0x1680), (0x2000, 0x200A),
   (0x2028, 0x2029), (0x202F, 0x202F), (0x205F, 0x205F), (0x3000, 0x3000)]

/-- `unicode.ToLower` as far as its result is an ASCII character: U+0130 and U+212A are the only
runes outside ASCII with a lower case form in ASCII. Other runes are kept. -/
def toLowerAscii : ℕ :=
  if 0x41 ≤ r ∧ r ≤ 0x5A then r + 0x20
  else if r = 0x130 then 0x69
  else if r = 0x212A then 0x6B
  else r

/-! ## Bounds -/

def sanitizeRune (size : ℕ) : ℕ :=
  if r = runeError ∧ size ≤ 1 then 0x3F
  else if isControl r || inRanges formatRanges r || r == 0x2028 || r == 0x2029 then 0x20
  else r

def sanitizeLoop (max : ℕ) : List (ℕ × ℕ) → Bytes → Bytes
  | [], written => written
  | (r, size) :: rest, written =>
    let out := sanitizeRune r size
    if (max : ℤ) < written.length + runeLen out then written
    else sanitizeLoop max rest (written ++ encodeRune out)

/-- Replaces control and format characters and cuts at a rune boundary within `max` bytes. -/
def sanitizeMeta (s : Bytes) (max : ℕ) : Bytes := sanitizeLoop max (runes s) []

/-- The comparison of `strings.ToLower(strings.TrimSpace(k))` with the secret keys. -/
def isSecretKey (k : Bytes) : Bool :=
  let isSpace (r : ℕ) := inRanges spaceRanges r
  let trimmed := (((runes k).map Prod.fst).dropWhile isSpace).rdropWhile isSpace
  (trimmed.map toLowerAscii).flatMap encodeRune ∈ secretMetaKeys

/-- The loop over the sorted trap keys. -/
def boundTrapKeys (input : Meta) : List Bytes → Meta → Meta
  | [], out => out
  | k :: rest, out =>
    if maxMetaKeys ≤ out.keys.length then out
    else
      let sk := sanitizeMeta k maxMetaKeyBytes
      if sk = [] ∨ sk ∈ sensorMetaKeys then boundTrapKeys input rest out
      else
        boundTrapKeys input rest
          (out.insert sk (sanitizeMeta ((input.lookup k).getD []) maxMetaValueBytes))

/-- Drops secret keys, sanitizes keys and values and caps the number of keys. -/
def boundMeta : Meta :=
  let sensor := input.entries.foldl (fun out entry ↦
    if entry.1 ∈ sensorMetaKeys then out.insert entry.1 (sanitizeMeta entry.2 maxMetaValueBytes)
    else out) (∅ : Meta)
  let trapKeys := input.keys.filter fun k ↦
    decide (k ∉ sensorMetaKeys) && decide (k ≠ []) && !isSecretKey k
  boundTrapKeys input (trapKeys.insertionSort (· ≤ ·)) sensor

/-- Merges the trap meta with the sensor meta, which wins, and bounds the result. -/
def eventMeta (ev : Event) : Meta :=
  let itoa (n : ℤ) := ofText (toString n)
  boundMeta <|
    ((((((ev.meta'.insert (ofText "class") (ofText ev.cls.toText)).insert
      (ofText "protocol") (ofText ev.info.protocol)).insert
      (ofText "dest_port") (itoa ev.info.destPort)).insert
      (ofText "auth_attempts") (itoa ev.info.authAttempts)).insert
      (ofText "commands") (itoa ev.info.commands)).insert
      (ofText "payload_bytes") (itoa ev.info.payloadBytes))

/-- The meta list of an alert: the bounded meta once more, sorted by key. -/
def buildEventMeta (meta' : Meta) : List (Bytes × Bytes) :=
  if meta'.keys.length = 0 then []
  else
    let bounded := boundMeta meta'
    (bounded.keys.insertionSort (· ≤ ·)).map fun k ↦ (k, (bounded.lookup k).getD [])

/-! ## The parts of `boundMeta` -/

/-- The sensor keys of a meta map with their sanitized values. -/
def sensorPart : Meta :=
  input.entries.foldl (fun out entry ↦
    if entry.1 ∈ sensorMetaKeys then out.insert entry.1 (sanitizeMeta entry.2 maxMetaValueBytes)
    else out) (∅ : Meta)

/-- The other keys that are neither empty nor secret, sorted. -/
def trapKeys : List Bytes :=
  (input.keys.filter fun k ↦
    decide (k ∉ sensorMetaKeys) && decide (k ≠ []) && !isSecretKey k).insertionSort (· ≤ ·)

/-- One round of the loop over the trap keys. -/
def boundTrapKey (out : Meta) (k : Bytes) : Meta :=
  if sanitizeMeta k maxMetaKeyBytes = [] ∨ sanitizeMeta k maxMetaKeyBytes ∈ sensorMetaKeys then out
  else
    out.insert (sanitizeMeta k maxMetaKeyBytes)
      (sanitizeMeta ((input.lookup k).getD []) maxMetaValueBytes)

end RanHoneypot.Alert
