import RanHoneypot.Data.ByteNumbers
import RanHoneypot.Data.GoInt
import RanHoneypot.Data.GoText

/-!
# BER elements

The encoder that the traps share, and the readers of the LDAP and SNMP traps. An element is a tag byte,
the length of the value in short or long form, and the value. There are three readers of elements: one
reads from a connection, one from a byte slice, and one from a slice at an offset.
-/

namespace RanHoneypot.Trap

open GoText ByteNumbers List UInt8

/-! ## Encoder -/

variable (w : IntWidth) (tag b : UInt8) (rest : Text)

variable {length : ℕ} {value : Text}

variable (data s : Text)

/-- Drops at most `count` zero bytes in front. -/
def dropZeros : ℕ → Text → Text
  | count + 1, b :: rest => if b = 0 then dropZeros count rest else b :: rest
  | _, bytes => bytes

/-- The length octets; the long form holds the length as a 32 bit number without leading zeros. -/
def berLength (length : ℕ) : Text :=
  if length < 0x80 then [ofNat length]
  else
    let octets := dropZeros 3 (bigEndian 4 length)
    ofNat (0x80 ||| octets.length) :: octets

/-- The loop of `berInteger`, with a bound on its rounds. -/
def integerLoop : ℕ → ℤ → Text → Text
  | 0, _, valBytes => valBytes
  | rounds + 1, tmp, valBytes =>
    let b := ofNat (tmp % 256).toNat
    if (tmp / 256 = 0 ∧ b.toNat < 0x80) ∨ (tmp / 256 = -1 ∧ 0x80 ≤ b.toNat) then b :: valBytes
    else integerLoop rounds (tmp / 256) (b :: valBytes)

/-- The content octets of an integer. An `int64` takes at most eight rounds. -/
def integerOctets (val : ℤ) : Text := integerLoop 8 val []

def berOctetString : Text := tag :: (berLength data.length ++ data)

def berInteger (val : ℤ) : Text :=
  tag :: (berLength (integerOctets val).length ++ integerOctets val)

def berSequence (children : List Text) : Text :=
  tag :: (berLength children.flatten.length ++ children.flatten)

/-! ## Readers -/

inductive BerError where
  | eof
  | unexpectedEOF
  | unsupportedLength
  | exceedsLimit (raw : ℕ)
  | shortData
  | truncated
  | truncatedLength
  | truncatedValue
  | expectedInteger
  | invalidIntegerLength (length : ℕ)
  | truncatedInteger
  | expectedOctetString
  | truncatedOctetString
deriving DecidableEq

/-- `fitsInt` with `math.MaxInt` of the platform. -/
def fitsInt (v : ℕ) : Option ℕ := if w.maxInt < v then none else some v

/-- The longest element that is read from a connection. -/
def maxBERLen : ℕ := 64 * 1024

/-- `io.ReadFull` from a connection that still delivers `s`. -/
def readFull (n : ℕ) (s : Text) : Except BerError (Text × Text) :=
  if n ≤ s.length then .ok (s.take n, s.drop n)
  else if s.isEmpty then .error .eof
  else .error .unexpectedEOF

/-- The length of the next element, and what the connection delivers behind it. -/
def berReadLength : Except BerError (ℕ × Text) :=
  match readFull 1 s with
  | .error e => .error e
  | .ok (first, s) =>
    let b := (first.headD 0).toNat
    if b < 0x80 then .ok (b, s)
    else
      let numBytes := b &&& 0x7f
      if numBytes = 0 ∨ 4 < numBytes then .error .unsupportedLength
      else
        match readFull numBytes s with
        | .error e => .error e
        | .ok (buf, s) =>
          match fitsInt w (beValue buf) with
          | none => .error (.exceedsLimit (beValue buf))
          | some length =>
            if maxBERLen < length then .error (.exceedsLimit (beValue buf)) else .ok (length, s)

/-- Reads an element from a connection. -/
def berReadElement : Except BerError ((UInt8 × Text) × Text) :=
  match readFull 1 s with
  | .error e => .error e
  | .ok (tag, s) =>
    match berReadLength w s with
    | .error e => .error e
    | .ok (length, s) =>
      match readFull length s with
      | .error e => .error e
      | .ok (value, s) => .ok ((tag.headD 0, value), s)

/-- Reads the element at the front of a slice. -/
def berReadTLV : Except BerError (UInt8 × Text) :=
  if data.length < 2 then .error .shortData
  else
    let tag := data.getD 0 0
    let first := (data.getD 1 0).toNat
    if first < 0x80 then
      if data.length < 2 + first then .error .truncated else .ok (tag, (data.drop 2).take first)
    else
      let numBytes := first &&& 0x7f
      if 4 < numBytes then .error .unsupportedLength
      else if data.length < 2 + numBytes then .error .truncatedLength
      else
        match fitsInt w (beValue ((data.drop 2).take numBytes)) with
        | none => .error .truncatedValue
        | some length =>
          if data.length - (2 + numBytes) < length then .error .truncatedValue
          else .ok (tag, (data.drop (2 + numBytes)).take length)

/-- Reads an integer of at most eight bytes, and what follows it. -/
def berReadInteger : Except BerError (ℤ × Text) :=
  if data.length < 2 ∨ data.getD 0 0 ≠ 0x02 then .error .expectedInteger
  else
    let length := (data.getD 1 0).toNat
    if length = 0 ∨ 8 < length then .error (.invalidIntegerLength length)
    else if data.length < 2 + length then .error .truncatedInteger
    else
      let start : ℤ := if 0x80 ≤ (data.getD 2 0).toNat then -1 else 0
      .ok (((data.drop 2).take length).foldl (fun val b ↦ wrapInt64 (wrapInt64 (val * 256) + b.toNat)) start,
        data.drop (2 + length))

def berReadOctetString : Except BerError (Text × Text) :=
  if data.length < 2 ∨ data.getD 0 0 ≠ 0x04 then .error .expectedOctetString
  else
    let length := (data.getD 1 0).toNat
    if data.length < 2 + length then .error .truncatedOctetString
    else .ok ((data.drop 2).take length, data.drop (2 + length))

/-- What the SNMP reader finds at an offset. -/
structure Tlv where
  tag : UInt8
  length : ℕ
  value : Text
  next : ℕ
deriving DecidableEq

/-- Reads the element at an offset of a slice; lengths take at most two bytes. -/
def readTLV (offset : ℕ) : Option Tlv :=
  if data.length ≤ offset then none
  else if data.length ≤ offset + 1 then none
  else
    let tag := data.getD offset 0
    let b := (data.getD (offset + 1) 0).toNat
    let header : Option (ℕ × ℕ) :=
      if b < 0x80 then some (b, offset + 2)
      else if b = 0x81 then
        if data.length ≤ offset + 2 then none else some ((data.getD (offset + 2) 0).toNat, offset + 3)
      else if b = 0x82 then
        if data.length ≤ offset + 3 then none
        else some ((data.getD (offset + 2) 0).toNat * 256 + (data.getD (offset + 3) 0).toNat, offset + 4)
      else none
    match header with
    | none => none
    | some (length, start) =>
      if data.length < start + length then none
      else some ⟨tag, length, (data.drop start).take length, start + length⟩

/-! ## Length octets -/

theorem dropZeros_facts (count : ℕ) (bytes : Text) :
    beValue (dropZeros count bytes) = beValue bytes ∧
      bytes.length ≤ (dropZeros count bytes).length + count ∧
      (dropZeros count bytes).length ≤ bytes.length := by
  induction count generalizing bytes with
  | zero => cases bytes <;> exact ⟨rfl, le_rfl, le_rfl⟩
  | succ count ih =>
    cases bytes with
    | nil => exact ⟨rfl, Nat.zero_le _, le_rfl⟩
    | cons b rest =>
      have hrest := ih rest
      rw [dropZeros]
      split
      · next hb =>
        rw [hrest.1, hb, beValue_cons, length_cons]
        refine ⟨?_, by omega, by omega⟩
        rw [show (0 : UInt8).toNat = 0 from rfl, Nat.zero_mul, Nat.zero_add]
      · exact ⟨rfl, by omega, le_rfl⟩

/-- The long form: a count between one and four and the octets of the length. -/
theorem berLength_long (hlow : 0x80 ≤ length) (hhigh : length < 2 ^ 32) :
    ∃ first octets, berLength length = first :: octets ∧ 0x80 ≤ first.toNat ∧
      first.toNat &&& 0x7f = octets.length ∧ 1 ≤ octets.length ∧ octets.length ≤ 4 ∧
      beValue octets = length := by
  have hfacts := dropZeros_facts 3 (bigEndian 4 length)
  have hlength : (bigEndian 4 length).length = 4 := by simp [bigEndian]
  have hcount : 1 ≤ (dropZeros 3 (bigEndian 4 length)).length ∧
      (dropZeros 3 (bigEndian 4 length)).length ≤ 4 := by omega
  refine ⟨_, _, by rw [berLength, if_neg (by omega)], ?_, ?_, hcount.1, hcount.2, ?_⟩
  · have hbyte : ∀ n < 5, 0x80 ≤ (ofNat (0x80 ||| n)).toNat := by decide
    exact hbyte _ (by omega)
  · have hbyte : ∀ n < 5, (ofNat (0x80 ||| n)).toNat &&& 0x7f = n := by decide
    exact hbyte _ (by omega)
  · rw [hfacts.1, beValue_bigEndian, Nat.mod_eq_of_lt (by omega)]

theorem fitsInt_of_le {w : IntWidth} {v : ℕ} (hv : v < 2 ^ 31) : fitsInt w v = some v := by
  have hmax := w.le_maxInt
  rw [fitsInt, if_neg (by omega)]

theorem readFull_append (front rest : Text) : readFull front.length (front ++ rest) = .ok (front, rest) := by
  rw [readFull, if_pos (by simp), take_left, drop_left]

theorem readFull_cons : readFull 1 (b :: rest) = .ok ([b], rest) := rfl

theorem berReadLength_berLength (hlength : length ≤ maxBERLen) (rest : Text) :
    berReadLength w (berLength length ++ rest) = .ok (length, rest) := by
  unfold maxBERLen at hlength
  by_cases hshort : length < 0x80
  · have hbyte : (ofNat _).toNat = length := toNat_ofNat_byte (by omega)
    rw [berLength, if_pos hshort, singleton_append, berReadLength, readFull_cons]
    simp [hbyte, if_pos hshort]
  · rcases berLength_long (by omega : 0x80 ≤ length) (by omega) with
      ⟨first, octets, hform, hfirst, hcount, hpos, hfour, hvalue⟩
    have hfits : fitsInt w length = some length := fitsInt_of_le (by omega)
    rw [hform, cons_append, berReadLength, readFull_cons]
    simp only [headD_cons, if_neg (show ¬ first.toNat < 0x80 by omega), hcount,
      if_neg (show ¬ (octets.length = 0 ∨ 4 < octets.length) by omega), readFull_append, hvalue, hfits,
      if_neg (show ¬ maxBERLen < length by unfold maxBERLen; omega)]

/-! ## Elements are read back -/

/-- An element as the encoder writes it. -/
theorem berReadElement_element (hvalue : value.length ≤ maxBERLen) (rest : Text) :
    berReadElement w (tag :: (berLength value.length ++ value) ++ rest) = .ok ((tag, value), rest) := by
  rw [cons_append, berReadElement, readFull_cons]
  simp [berReadLength_berLength w hvalue, readFull_append]

theorem berReadTLV_element (hvalue : value.length < 2 ^ 31) (rest : Text) :
    berReadTLV w (tag :: (berLength value.length ++ value) ++ rest) = .ok (tag, value) := by
  by_cases hshort : value.length < 0x80
  · have hbyte : (ofNat _).toNat = value.length :=
      toNat_ofNat_byte (by omega)
    rw [berLength, berReadTLV]
    simp only [cons_append, nil_append, length_cons, getD_cons_zero,
      getD_cons_succ, hbyte, if_pos hshort, drop_succ_cons, drop_zero, take_left,
      length_append]
    rw [if_neg (by omega), if_neg (by omega)]
  · rcases berLength_long (by omega : 0x80 ≤ value.length) (by omega) with
      ⟨first, octets, hform, hfirst, hcount, hpos, hfour, hvalue⟩
    have hfits : fitsInt w value.length = some value.length := fitsInt_of_le (by omega)
    rw [hform, berReadTLV]
    simp only [cons_append, length_cons, getD_cons_zero, getD_cons_succ,
      append_assoc, length_append, if_neg (show ¬ first.toNat < 0x80 by omega), hcount,
      if_neg (show ¬ 4 < octets.length by omega), drop_succ_cons, drop_zero, take_left,
      hvalue, hfits]
    rw [if_neg (by omega), if_neg (by omega), if_neg (by omega),
      show 2 + octets.length = octets.length + 1 + 1 by omega, drop_succ_cons, drop_succ_cons,
      drop_left, take_left]

/-- Lengths of two bytes, as the SNMP reader knows them. -/
theorem berLength_short_forms (hhigh : length < 65536) :
    berLength length =
      if length < 0x80 then [ofNat length]
      else if length < 0x100 then [0x81, ofNat length]
      else [0x82, ofNat (length / 256), ofNat length] := by
  have hzero : ofNat 0 = 0 := rfl
  have hoctets : bigEndian 4 length =
      [0, 0, ofNat (length / 256), ofNat length] := by
    simp [bigEndian, littleEndian, show length / 256 / 256 = 0 by omega]
  have hbyte : length / 256 < 256 := by omega
  unfold berLength
  split
  · rfl
  · rw [hoctets]
    split
    · next hsmall =>
      have htop : ofNat (length / 256) = 0 := by
        rw [show length / 256 = 0 by omega]
        rfl
      have hmark : ofNat (0x80 ||| 1) = 0x81 := by decide
      simp only [dropZeros, htop]
      exact congrArg (· :: _) hmark
    · next hsmall =>
      have htop : ofNat (length / 256) ≠ 0 := fun heq ↦ by
        have hnat := congrArg toNat heq
        rw [toNat_ofNat_byte hbyte] at hnat
        have hzero : (0 : UInt8).toNat = 0 := rfl
        omega
      have hmark : ofNat (0x80 ||| 2) = 0x82 := by decide
      simp only [dropZeros, if_neg htop]
      exact congrArg (· :: _) hmark

theorem readTLV_element (front : Text) (tag : UInt8) (hvalue : value.length < 65536) (rest : Text) :
    readTLV (front ++ (tag :: (berLength value.length ++ value)) ++ rest) front.length =
      some ⟨tag, value.length, value,
        front.length + (tag :: (berLength value.length ++ value)).length⟩ := by
  -- what stands behind the offset
  have hget : ∀ (body : Text) (i : ℕ),
      (front ++ (tag :: body) ++ rest).getD (front.length + i) 0 = (tag :: (body ++ rest)).getD i 0 := by
    intro body i
    rw [append_assoc, getD_eq_getElem?_getD, getElem?_append_right (by omega),
      show front.length + i - front.length = i by omega, cons_append, getD_eq_getElem?_getD]
  have hdrop : ∀ (body : Text) (i : ℕ),
      (front ++ (tag :: body) ++ rest).drop (front.length + i) = (tag :: (body ++ rest)).drop i := by
    intro body i
    rw [append_assoc, ← drop_drop, drop_left, cons_append]
  have hlen : ∀ body : Text, (front ++ (tag :: body) ++ rest).length =
      front.length + body.length + rest.length + 1 := by
    intro body
    simp only [length_append, length_cons]
    omega
  have hfirst : ∀ body : Text, (front ++ (tag :: body) ++ rest).getD front.length 0 = tag := fun body ↦
    hget body 0
  rw [readTLV]
  simp only [hlen, hfirst, hget]
  rw [berLength_short_forms hvalue]
  split
  · next hshort =>
    have hbyte : (ofNat _).toNat = value.length := toNat_ofNat_byte (by omega)
    simp only [cons_append, nil_append, getD_cons_succ, getD_cons_zero,
      length_cons, hbyte, if_pos hshort, hdrop, drop_succ_cons, drop_zero, take_left]
    rw [if_neg (by omega), if_neg (by omega), if_neg (by omega)]
    congr 2
    omega
  · split
    · next hsmall =>
      have hbyte : (ofNat _).toNat = value.length := toNat_ofNat_byte hsmall
      have hmark : (0x81 : UInt8).toNat = 0x81 := rfl
      simp only [cons_append, nil_append, getD_cons_succ, getD_cons_zero,
        length_cons, hmark, hbyte, show ¬ (0x81 < 0x80) by omega, if_false, if_true]
      rw [if_neg (by omega), if_neg (by omega), if_neg (by omega)]
      simp only [hdrop, cons_append, drop_succ_cons, drop_zero, take_left]
      rw [if_neg (by omega)]
      congr 2
      omega
    · have hlow : (ofNat _).toNat = value.length % 256 := toNat_ofNat'
      have hhigh : (ofNat _).toNat = value.length / 256 :=
        toNat_ofNat_byte (by omega)
      have hsum : value.length / 256 * 256 + value.length % 256 = value.length := by omega
      have hmark : (0x82 : UInt8).toNat = 0x82 := rfl
      simp only [cons_append, nil_append, getD_cons_succ, getD_cons_zero,
        length_cons, hmark, hlow, hhigh, hsum, show ¬ (0x82 < 0x80) by omega,
        show ¬ (0x82 = 0x81) by omega, if_false, if_true]
      rw [if_neg (by omega), if_neg (by omega), if_neg (by omega)]
      simp only [hdrop, cons_append, drop_succ_cons, drop_zero, take_left]
      rw [if_neg (by omega)]
      congr 2
      omega

/-! ## Integers -/

/-- The loop stops at the numbers that one byte in two's complement holds. -/
theorem stops_iff (tmp : ℤ) :
    ((tmp / 256 = 0 ∧ (ofNat (tmp % 256).toNat).toNat < 0x80) ∨
        (tmp / 256 = -1 ∧ 0x80 ≤ (ofNat (tmp % 256).toNat).toNat)) ↔
      -128 ≤ tmp ∧ tmp < 128 := by
  rw [toNat_ofNat_byte (by omega)]
  omega

theorem signedValue_lastByte {tmp : ℤ} (hlow : -128 ≤ tmp) (hhigh : tmp < 128) :
    signedValue [ofNat (tmp % 256).toNat] = tmp := by
  rw [signedValue_singleton, toNat_ofNat_byte (by omega)]
  split <;> omega

/-- `rounds + 1` rounds write the shortest two's complement form of a number that fits into as many
bytes, in front of what was there. -/
theorem integerLoop_shortest (rounds : ℕ) (tmp : ℤ) (valBytes : Text)
    (hlow : -(128 * 256 ^ rounds) ≤ tmp) (hhigh : tmp < 128 * 256 ^ rounds) :
    ∃ octets, integerLoop (rounds + 1) tmp valBytes = octets ++ valBytes ∧ octets ≠ [] ∧
      octets.length ≤ rounds + 1 ∧ signedValue octets = tmp ∧
      ∀ other : Text, other ≠ [] → signedValue other = tmp → octets.length ≤ other.length := by
  induction rounds generalizing tmp valBytes with
  | zero =>
    refine ⟨[ofNat _], ?_, cons_ne_nil _ _, le_rfl,
      signedValue_lastByte (by omega) (by omega), ?_⟩
    · exact if_pos ((stops_iff _).mpr (by omega))
    · intro other hother _
      exact length_pos_iff.mpr hother
  | succ rounds ih =>
    rw [integerLoop]
    simp only [stops_iff]
    by_cases hstop : -128 ≤ tmp ∧ tmp < 128
    · rw [if_pos hstop]
      refine ⟨[ofNat _], rfl, cons_ne_nil _ _, by simp,
        signedValue_lastByte hstop.1 hstop.2, ?_⟩
      intro other hother _
      exact length_pos_iff.mpr hother
    · rw [if_neg hstop]
      rcases ih (tmp / 256) (ofNat _ :: valBytes) (by omega) (by omega) with
        ⟨octets, hloop, hne, hlength, hvalue, hshortest⟩
      refine ⟨octets ++ [ofNat (tmp % 256).toNat], ?_, by simp, ?_, ?_, ?_⟩
      · rw [hloop, append_assoc, singleton_append]
      · rw [length_append, length_singleton]
        omega
      · rw [signedValue_append hne, toNat_ofNat_byte (by omega)]
        omega
      · intro other hother hsame
        have hsplit := dropLast_append_getLast hother
        by_cases hfront : other.dropLast = []
        · -- one byte holds too little
          rw [hfront, nil_append] at hsplit
          rw [← hsplit] at hsame
          have hbounds := @signedValue_bounds (other.getLast hother) []
          rw [length_nil] at hbounds
          omega
        · rw [← hsplit, signedValue_append hfront] at hsame
          have hbyte := (other.getLast hother).toNat_lt
          have hle := hshortest other.dropLast hfront (by omega)
          rw [length_dropLast] at hle
          have hpos := length_pos_iff.mpr hother
          rw [length_append, length_singleton]
          omega

/-- The content octets of an `int64`. -/
theorem integerOctets_shortest {val : ℤ} (hval : IsInt64 val) :
    integerOctets val ≠ [] ∧ (integerOctets val).length ≤ 8 ∧ signedValue (integerOctets val) = val ∧
      ∀ other : Text, other ≠ [] → signedValue other = val →
        (integerOctets val).length ≤ other.length := by
  have hpow : (128 * 256 ^ 7 : ℤ) = 2 ^ 63 := by norm_num
  rcases integerLoop_shortest 7 val [] (by rw [hpow]; exact hval.1) (by rw [hpow]; exact hval.2) with
    ⟨octets, hloop, hrest⟩
  rw [integerOctets, hloop, append_nil]
  exact hrest

/-- The shifts of the reader never lose a bit of at most eight bytes. -/
theorem foldl_signedValue (hrest : rest.length ≤ 7) :
    (b :: rest).foldl (fun val c ↦ wrapInt64 (wrapInt64 (val * 256) + c.toNat))
        (if 0x80 ≤ b.toNat then -1 else 0) =
      signedValue (b :: rest) := by
  induction rest using List.reverseRecOn with
  | nil =>
    have hb := b.toNat_lt
    rw [signedValue_singleton, foldl_cons, foldl_nil]
    unfold wrapInt64
    split <;> omega
  | append_singleton rest c ih =>
    have hc := c.toNat_lt
    rw [length_append, length_singleton] at hrest
    have hbounds := @signedValue_bounds b rest
    have hpow : (256 : ℤ) ^ rest.length ≤ 256 ^ 6 := pow_le_pow_right₀ (by norm_num) (by omega)
    rw [← cons_append, foldl_append, ih (by omega), foldl_cons, foldl_nil,
      signedValue_append (cons_ne_nil _ _)]
    unfold wrapInt64
    omega

/-- An integer is read back, together with what follows it. -/
theorem berReadInteger_berInteger {val : ℤ} (hval : IsInt64 val) (rest : Text) :
    berReadInteger (berInteger 0x02 val ++ rest) = .ok (val, rest) := by
  rcases integerOctets_shortest hval with ⟨hne, hlength, hvalue, _⟩
  rw [berInteger]
  generalize integerOctets val = octets at hne hlength hvalue ⊢
  cases octets with
  | nil => exact absurd rfl hne
  | cons b tail =>
    have hbyte : (ofNat _).toNat = (b :: tail).length :=
      toNat_ofNat_byte (by omega)
    have hpos : 0 < (b :: tail).length := length_pos_iff.mpr hne
    have hfold := foldl_signedValue b tail (by rw [length_cons] at hlength; omega)
    rw [berLength, if_pos (by omega), berReadInteger]
    simp only [cons_append, nil_append, getD_cons_zero, getD_cons_succ,
      drop_succ_cons, drop_zero, hbyte]
    rw [if_neg (by simp), if_neg (by omega), if_neg (by simp; omega), ← cons_append,
      take_left, hfold, hvalue, show 2 + (b :: tail).length = (b :: tail).length + 1 + 1 by omega,
      drop_succ_cons, drop_succ_cons, drop_left]

/-- Every reader undoes the encoder, whatever follows the element, and no two's complement form of an
integer is shorter than the one that is written. -/
theorem ber_round_trips (w : IntWidth) :
    (∀ (val : ℤ) (rest : Text), IsInt64 val →
      berReadInteger (berInteger 0x02 val ++ rest) = .ok (val, rest)) ∧
    (∀ (tag : UInt8) (value rest : Text), value.length ≤ maxBERLen →
      berReadElement w (berOctetString tag value ++ rest) = .ok ((tag, value), rest) ∧
      berReadTLV w (berOctetString tag value ++ rest) = .ok (tag, value)) ∧
    (∀ (tag : UInt8) (children : List Text) (rest : Text), children.flatten.length ≤ maxBERLen →
      berReadElement w (berSequence tag children ++ rest) = .ok ((tag, children.flatten), rest) ∧
      berReadTLV w (berSequence tag children ++ rest) = .ok (tag, children.flatten)) ∧
    (∀ (front : Text) (tag : UInt8) (value rest : Text), value.length ≤ 65535 →
      readTLV (front ++ berOctetString tag value ++ rest) front.length =
        some ⟨tag, value.length, value, front.length + (berOctetString tag value).length⟩) ∧
    (∀ (front : Text) (tag : UInt8) (children : List Text) (rest : Text),
      children.flatten.length ≤ 65535 →
      readTLV (front ++ berSequence tag children ++ rest) front.length =
        some ⟨tag, children.flatten.length, children.flatten,
          front.length + (berSequence tag children).length⟩) ∧
    (∀ (tag : UInt8) (val : ℤ), IsInt64 val →
      ∃ octets : Text, berInteger tag val = tag :: (berLength octets.length ++ octets) ∧
        octets ≠ [] ∧ signedValue octets = val ∧
        ∀ other : Text, other ≠ [] → signedValue other = val → octets.length ≤ other.length) := by
  have hlimit : maxBERLen < 2 ^ 31 := by decide
  refine ⟨?_, ?_, ?_, ?_, ?_, ?_⟩
  · intro val rest hval
    exact berReadInteger_berInteger hval _
  · intro tag value rest hvalue
    exact ⟨berReadElement_element w _ hvalue _, berReadTLV_element w _ (by omega) _⟩
  · intro tag children rest hvalue
    exact ⟨berReadElement_element w _ hvalue _, berReadTLV_element w _ (by omega) _⟩
  · intro front tag value rest hvalue
    exact readTLV_element _ _ (by omega) _
  · intro front tag children rest hvalue
    exact readTLV_element _ _ (by omega) _
  · intro tag val hval
    rcases integerOctets_shortest hval with ⟨hne, _, hvalue, hshortest⟩
    exact ⟨integerOctets _, rfl, hne, hvalue, hshortest⟩

/-! ## The readers of a connection and of a slice -/

/-- The length that an element announces, if its length octets are complete. -/
def announcedLength : Option ℕ :=
  match data with
  | _ :: b :: rest =>
    if b.toNat < 0x80 then some b.toNat
    else if rest.length < b.toNat &&& 0x7f then none
    else some (beValue (rest.take (b.toNat &&& 0x7f)))
  | _ => none

/-- Both readers fail, or both find the same tag and value. -/
def ReadersAgree : Prop :=
  (berReadElement w data).toOption.map Prod.fst = (berReadTLV w data).toOption

instance (w : IntWidth) (data : Text) : Decidable (ReadersAgree w data) :=
  decEq ((berReadElement w data).toOption.map Prod.fst) (berReadTLV w data).toOption

theorem readFull_of_le {n : ℕ} {s : Text} (hn : n ≤ s.length) :
    readFull n s = .ok (s.take n, s.drop n) := if_pos hn

theorem readFull_of_lt {n : ℕ} {s : Text} (hn : s.length < n) : ∃ e, readFull n s = .error e := by
  rw [readFull, if_neg (by omega)]
  split
  · exact ⟨_, rfl⟩
  · exact ⟨_, rfl⟩

theorem berReadLength_cons :
    berReadLength w (b :: rest) =
      if b.toNat < 0x80 then .ok (b.toNat, rest)
      else if b.toNat &&& 0x7f = 0 ∨ 4 < b.toNat &&& 0x7f then .error .unsupportedLength
      else
        match readFull (b.toNat &&& 0x7f) rest with
        | .error e => .error e
        | .ok (buf, s) =>
          match fitsInt w (beValue buf) with
          | none => .error (.exceedsLimit (beValue buf))
          | some length =>
            if maxBERLen < length then .error (.exceedsLimit (beValue buf)) else .ok (length, s) := rfl

/-- The connection reader in terms of the bytes behind the length octet. -/
theorem berReadElement_cons :
    (berReadElement w (tag :: b :: rest)).toOption.map Prod.fst =
      if b.toNat < 0x80 then
        if rest.length < b.toNat then none else some (tag, rest.take b.toNat)
      else
        let numBytes := b.toNat &&& 0x7f
        let length := beValue (rest.take numBytes)
        if numBytes = 0 ∨ 4 < numBytes ∨ rest.length < numBytes ∨ w.maxInt < length ∨
            maxBERLen < length ∨ rest.length - numBytes < length then none
        else some (tag, (rest.drop numBytes).take length) := by
  rw [berReadElement, readFull_cons]
  simp only [berReadLength_cons]
  by_cases hform : b.toNat < 0x80
  · simp only [if_pos hform]
    by_cases hshort : rest.length < b.toNat
    · rcases readFull_of_lt hshort with ⟨e, he⟩
      rw [if_pos hshort]
      simp only [he]
      rfl
    · rw [if_neg hshort]
      simp only [readFull_of_le (not_lt.mp hshort)]
      rfl
  · simp only [if_neg hform]
    generalize b.toNat &&& 0x7f = numBytes
    by_cases hcount : numBytes = 0 ∨ 4 < numBytes
    · simp only [if_pos hcount]
      rw [if_pos (by tauto)]
      rfl
    simp only [if_neg hcount]
    by_cases hoctets : rest.length < numBytes
    · rcases readFull_of_lt hoctets with ⟨e, he⟩
      rw [if_pos (by tauto)]
      simp only [he]
      rfl
    simp only [readFull_of_le (not_lt.mp hoctets), fitsInt]
    generalize beValue (rest.take _) = length
    by_cases hmax : w.maxInt < length
    · simp only [if_pos hmax]
      rw [if_pos (by tauto)]
      rfl
    simp only [if_neg hmax]
    by_cases hlimit : maxBERLen < length
    · simp only [if_pos hlimit]
      rw [if_pos (by tauto)]
      rfl
    simp only [if_neg hlimit]
    by_cases hvalue : rest.length - numBytes < length
    · rcases readFull_of_lt (by rwa [length_drop] : (rest.drop _).length < length) with ⟨e, he⟩
      rw [if_pos (by tauto)]
      simp only [he]
      rfl
    · rw [if_neg (by tauto)]
      simp only [readFull_of_le (by rw [length_drop]; omega : length ≤ (rest.drop numBytes).length)]
      rfl

/-- The slice reader in the same terms. -/
theorem berReadTLV_cons :
    (berReadTLV w (tag :: b :: rest)).toOption =
      if b.toNat < 0x80 then
        if rest.length < b.toNat then none else some (tag, rest.take b.toNat)
      else
        let numBytes := b.toNat &&& 0x7f
        let length := beValue (rest.take numBytes)
        if 4 < numBytes ∨ rest.length < numBytes ∨ w.maxInt < length ∨
            rest.length - numBytes < length then none
        else some (tag, (rest.drop numBytes).take length) := by
  have hlength : (tag :: b :: rest).length = rest.length + 2 := rfl
  have htail : ∀ n, (tag :: b :: rest).drop (2 + n) = rest.drop n := fun n ↦ by
    rw [Nat.add_comm, drop_succ_cons, drop_succ_cons]
  rw [berReadTLV, hlength, if_neg (by omega)]
  simp only [getD_cons_zero, getD_cons_succ, drop_succ_cons, drop_zero, htail]
  split
  · by_cases hshort : rest.length < b.toNat
    · rw [if_pos hshort, if_pos (by omega)]
      rfl
    · rw [if_neg hshort, if_neg (by omega)]
      rfl
  · generalize b.toNat &&& 0x7f = numBytes
    by_cases hcount : 4 < numBytes
    · rw [if_pos hcount, if_pos (by tauto)]
      rfl
    rw [if_neg hcount]
    by_cases hoctets : rest.length < numBytes
    · rw [if_pos (by omega), if_pos (by tauto)]
      rfl
    rw [if_neg (by omega), fitsInt]
    generalize beValue (rest.take _) = length
    by_cases hmax : w.maxInt < length
    · rw [if_pos hmax, if_pos (by tauto)]
      rfl
    rw [if_neg hmax]
    by_cases hvalue : rest.length - numBytes < length
    · simp only [if_pos (show rest.length + 2 - (2 + numBytes) < length by omega)]
      rw [if_pos (by tauto)]
      rfl
    · simp only [if_neg (show ¬ rest.length + 2 - (2 + numBytes) < length by omega)]
      rw [if_neg (by tauto)]
      rfl

/-- The slice reader takes no length octets for an empty value. -/
theorem berReadTLV_indefinite : berReadTLV w (tag :: 0x80 :: rest) = .ok (tag, []) := by
  have hfits : fitsInt w (beValue []) = some 0 := fitsInt_of_le (by decide)
  have hmark : (0x80 : UInt8).toNat = 0x80 := rfl
  have hcount : 0x80 &&& 0x7f = 0 := rfl
  rw [berReadTLV]
  simp only [length_cons, getD_cons_zero, getD_cons_succ, hmark, hcount, take_zero,
    hfits]
  rw [if_neg (by omega), if_neg (by omega), if_neg (by omega), if_neg (by omega), if_neg (by omega)]

/-- Only the length octet without a count separates the readers: the slice reader takes it for an empty
value, the connection reader refuses it. -/
theorem readers_agree_iff (w : IntWidth) (data : Text)
    (hannounced : ∀ length ∈ announcedLength data, length ≤ maxBERLen) :
    ReadersAgree w data ↔ data[1]? ≠ some 0x80 := by
  unfold ReadersAgree
  match data with
  | [] => exact ⟨fun _ ↦ by simp, fun _ ↦ rfl⟩
  | [tag] => exact ⟨fun _ ↦ by simp, fun _ ↦ rfl⟩
  | tag :: b :: rest =>
    rw [berReadElement_cons, berReadTLV_cons]
    have hindefinite : (tag :: b :: rest)[1]? ≠ some 0x80 ↔ b.toNat ≠ 0x80 := by
      rw [getElem?_cons_succ, getElem?_cons_zero, ne_eq, Option.some_inj, ← UInt8.toNat_inj]
      rfl
    rw [hindefinite]
    by_cases hshort : b.toNat < 0x80
    · rw [if_pos hshort, if_pos hshort]
      exact ⟨fun _ ↦ by omega, fun _ ↦ rfl⟩
    rw [if_neg hshort, if_neg hshort]
    have hcount : b.toNat &&& 0x7f = b.toNat - 0x80 := by
      have hb := b.toNat_lt
      rw [Nat.and_two_pow_sub_one_eq_mod _ 7]
      omega
    rw [announcedLength, if_neg hshort] at hannounced
    rw [hcount] at hannounced ⊢
    by_cases hzero : b.toNat = 0x80
    · -- no octets are a length of zero for the slice reader
      simp [hzero, beValue]
    · by_cases hoctets : rest.length < b.toNat - 0x80
      · rw [if_pos (.inr (.inr (.inl hoctets))), if_pos (.inr (.inl hoctets))]
        exact iff_of_true rfl hzero
      · rw [if_neg hoctets] at hannounced
        have hlimit := hannounced _ rfl
        have hsame : (b.toNat - 0x80 = 0 ∨ 4 < b.toNat - 0x80 ∨ rest.length < b.toNat - 0x80 ∨
              w.maxInt < beValue (rest.take (b.toNat - 0x80)) ∨
              maxBERLen < beValue (rest.take (b.toNat - 0x80)) ∨
              rest.length - (b.toNat - 0x80) < beValue (rest.take (b.toNat - 0x80))) ↔
            (4 < b.toNat - 0x80 ∨ rest.length < b.toNat - 0x80 ∨
              w.maxInt < beValue (rest.take (b.toNat - 0x80)) ∨
              rest.length - (b.toNat - 0x80) < beValue (rest.take (b.toNat - 0x80))) := by
          omega
        simp only [hsame]
        exact iff_of_true trivial hzero

theorem readers_agree_long_form : ReadersAgree .bits32 [0x04, 0x81, 0x02, 0x61, 0x62, 0x63] :=
  (readers_agree_iff .bits32 [0x04, 0x81, 0x02, 0x61, 0x62, 0x63] (by decide)).mpr (by decide)

/-- A sequence with the indefinite length octet, which the connection reader refuses. -/
theorem indefinite_length_read_differently :
    (∀ length ∈ announcedLength [0x30, 0x80], length ≤ maxBERLen) ∧
      berReadElement .bits64 [0x30, 0x80] = .error .unsupportedLength ∧
      berReadTLV .bits64 [0x30, 0x80] = .ok (0x30, []) ∧
      ¬ ReadersAgree .bits64 [0x30, 0x80] := by
  decide

end RanHoneypot.Trap
