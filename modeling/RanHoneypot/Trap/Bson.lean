import RanHoneypot.Data.GoSlice
import RanHoneypot.Trap.Ber

/-!
# BSON documents of the MongoDB trap

The reader walks over the elements at the top of a document. A document declares its length in four bytes
and ends with a NUL; an element is a type byte, a key with a NUL behind it, and a value whose size follows
from the type and, for most types, from a number in front of it. All numbers come from the client. The
reader is modelled with the arithmetic of `int` on both platforms and with bounds checks.
-/

namespace RanHoneypot.Trap.Mongo

open GoText ByteNumbers GoSlice List IntWidth

inductive MongoError where
  | length
  | malformed
  | unsupported
  | eof
  | unexpectedEOF
deriving DecidableEq

structure BsonElem where
  typ : UInt8
  key : Text
  val : Text
deriving DecidableEq

variable (w : IntWidth) (front : Text) {rest : Text}

variable (typ : UInt8) (doc : Text) (fn : List BsonElem → Bool)

/-- The bytes of an element. -/
def BsonElem.encode (e : BsonElem) : Text := e.typ :: (e.key ++ 0 :: e.val)

/-! ## The reader -/

def maxBSONElements : ℕ := 64

def fixedBSON (n : ℕ) (rest : Text) : Result MongoError ℤ :=
  if rest.length < n then fail .malformed else .ok n

/-- A value that declares `n` in its first four bytes: the slice has at least `least` bytes, `n` is at
least `low`, and beside it `reserve` bytes are left. -/
def declaredBSON (least low : ℕ) (reserve : ℤ) (size : ℤ → ℤ) (rest : Text) : Result MongoError ℤ :=
  if rest.length < least then fail .malformed
  else do
    let raw ← uint32LE rest
    match fitsInt w raw with
    | none => fail .malformed
    | some n =>
      if n < low ∨ w.wrap (rest.length - reserve) < n then fail .malformed else .ok (size n)

/-- Two texts with a NUL behind each. -/
def regexBSON (rest : Text) : Result MongoError ℤ :=
  match indexByte 0 rest with
  | none => fail .malformed
  | some i => do
    let tail ← sliceFrom rest (w.wrap (i + 1))
    match indexByte 0 tail with
    | none => fail .malformed
    | some j => .ok (w.wrap (w.wrap (w.wrap (i + 1) + j) + 1))

def bsonValueSize (rest : Text) : Result MongoError ℤ :=
  if typ = 0x01 ∨ typ = 0x09 ∨ typ = 0x11 ∨ typ = 0x12 then fixedBSON 8 rest
  else if typ = 0x10 then fixedBSON 4 rest
  else if typ = 0x07 then fixedBSON 12 rest
  else if typ = 0x08 then fixedBSON 1 rest
  else if typ = 0x13 then fixedBSON 16 rest
  else if typ = 0x06 ∨ typ = 0x0A ∨ typ = 0x7F ∨ typ = 0xFF then .ok 0
  else if typ = 0x02 ∨ typ = 0x0D ∨ typ = 0x0E then
    declaredBSON w 4 1 4 (fun n ↦ w.wrap (4 + n)) rest
  else if typ = 0x03 ∨ typ = 0x04 ∨ typ = 0x0F then declaredBSON w 4 5 0 (fun n ↦ n) rest
  else if typ = 0x05 then declaredBSON w 5 0 5 (fun n ↦ w.wrap (5 + n)) rest
  else if typ = 0x0B then regexBSON w rest
  else if typ = 0x0C then declaredBSON w 4 1 16 (fun n ↦ w.wrap (w.wrap (4 + n) + 12)) rest
  else fail .malformed

/-- A round of the walk: the element at a position, and the position behind it. -/
def walkStep (body : Text) (pos : ℤ) : Result MongoError (BsonElem × ℤ) := do
  let typ ← byteAt body pos
  let tail ← sliceFrom body (w.wrap (pos + 1))
  match indexByte 0 tail with
  | none => fail .malformed
  | some stop =>
    let key ← slice body (w.wrap (pos + 1)) (w.wrap (w.wrap (pos + 1) + stop))
    let start := w.wrap (w.wrap (pos + 1) + w.wrap (stop + 1))
    let rest ← sliceFrom body start
    let size ← bsonValueSize w typ rest
    let val ← slice body start (w.wrap (start + size))
    .ok (⟨typ, key, val⟩, w.wrap (start + size))

/-- What a walk comes to: the elements that the visitor was called for, whether it stopped the walk, and
the failure. -/
structure Walk where
  visited : List BsonElem
  stopped : Bool
  failure : Option (Failure MongoError)
deriving DecidableEq

/-- The loop of the walk with `count` rounds left. The visitor decides from the elements that it has seen. -/
def walkLoop (w : IntWidth) (fn : List BsonElem → Bool) (body : Text) :
    ℕ → ℤ → List BsonElem → Walk
  | 0, _, visited => ⟨visited, false, none⟩
  | count + 1, pos, visited =>
    if body.length ≤ pos then ⟨visited, false, none⟩
    else
      match walkStep w body pos with
      | .error failure => ⟨visited, false, some failure⟩
      | .ok (e, next) =>
        if fn (visited ++ [e]) then walkLoop w fn body count next (visited ++ [e])
        else ⟨visited ++ [e], true, none⟩

/-- The elements' part of a document: what its declared length covers, without the NUL at its end. -/
def documentBody : Result MongoError Text :=
  if doc.length < 5 then fail .malformed
  else do
    let raw ← uint32LE doc
    match fitsInt w raw with
    | none => fail .malformed
    | some n =>
      if n < 5 ∨ doc.length < n then fail .malformed
      else do
        let last ← byteAt doc (w.wrap (n - 1))
        if last ≠ 0 then fail .malformed else slice doc 0 (w.wrap (n - 1))

def bsonWalk : Walk :=
  match documentBody w doc with
  | .error failure => ⟨[], false, some failure⟩
  | .ok body => walkLoop w fn body maxBSONElements 4 []

/-! ## Sizes -/

/-- A size is refused or lies inside of the slice. -/
def Within (rest : Text) (result : Result MongoError ℤ) : Prop :=
  result = fail .malformed ∨ ∃ n : ℕ, result = .ok n ∧ n ≤ rest.length

theorem within_fixedBSON (n : ℕ) (rest : Text) : Within rest (fixedBSON n rest) := by
  unfold fixedBSON
  split
  · exact .inl rfl
  · exact .inr ⟨n, rfl, by omega⟩

theorem fitsInt_cases (raw : ℕ) :
    (fitsInt w raw = none ∧ w.maxInt < raw) ∨ (fitsInt w raw = some raw ∧ raw ≤ w.maxInt) := by
  unfold fitsInt
  split
  · next hlarge => exact .inl ⟨rfl, hlarge⟩
  · next hsmall => exact .inr ⟨rfl, not_lt.mp hsmall⟩

/-- A declared size is accepted only if the value and what is reserved fit into the slice. -/
theorem within_declaredBSON {least low : ℕ} (reserve : ℕ) {size : ℤ → ℤ}
    (hrest : rest.length ≤ w.maxInt) (hleast : 4 ≤ least) (hreserve : reserve ≤ 16)
    (hsize : ∀ n : ℕ, n + reserve ≤ w.maxInt → size n = ((n + reserve : ℕ) : ℤ)) :
    Within rest (declaredBSON w least low reserve size rest) := by
  have hwidth := w.hundred_le_maxInt
  unfold declaredBSON
  split
  · exact .inl rfl
  · next hlong =>
    rw [uint32LE_of_le (by omega)]
    simp only [bind, Except.bind]
    rcases fitsInt_cases w (leValue _) with ⟨hfits, _⟩ | ⟨hfits, _⟩
    · rw [hfits]
      exact .inl rfl
    · rw [hfits]
      simp only
      rw [wrap_eq (by omega) (by omega)]
      split
      · exact .inl rfl
      · next hn =>
        refine .inr ⟨leValue (rest.take 4) + reserve, ?_, by omega⟩
        rw [hsize _ (by omega)]

theorem within_regexBSON (hrest : rest.length ≤ w.maxInt) : Within rest (regexBSON w rest) := by
  unfold regexBSON
  rcases indexByte_cases 0 rest with hnone | ⟨front, tail, hsplit, _, hindex⟩
  · rw [hnone]
    exact .inl rfl
  · have hlength : rest.length = front.length + (tail.length + 1) := by
      rw [hsplit, length_append, length_cons]
    have hfront : rest = (front ++ [0]) ++ tail := by
      rw [hsplit, append_assoc, singleton_append]
    have hstart : w.wrap ((front.length : ℤ) + 1) = ((front ++ [0]).length : ℕ) := by
      rw [length_append, wrap_eq (by omega) (by omega)]
      rfl
    have hslice : (sliceFrom rest ((front ++ [0]).length : ℕ) : Result MongoError Text) = .ok tail := by
      rw [hfront]
      exact sliceFrom_front ..
    rw [hindex]
    simp only [hstart, hslice, bind, Except.bind]
    rcases indexByte_cases 0 tail with hnone | ⟨second, behind, htail, _, hnext⟩
    · rw [hnone]
      exact .inl rfl
    · rw [hnext]
      have hbehind : tail.length = second.length + (behind.length + 1) := by
        rw [htail, length_append, length_cons]
      have hinner : w.wrap (((front ++ [0]).length : ℕ) + (second.length : ℤ)) =
          ((front.length + 1 + second.length : ℕ) : ℤ) := by
        rw [length_append, length_singleton, wrap_eq (by omega) (by omega)]
        rfl
      refine .inr ⟨front.length + 1 + second.length + 1, ?_, by omega⟩
      simp only [hinner]
      rw [wrap_eq (by omega) (by omega)]
      rfl

theorem Within.ite {c : Prop} [Decidable c] {result other : Result MongoError ℤ}
    (hresult : Within rest result) (hother : Within rest other) :
    Within rest (if c then result else other) := by
  split
  · exact hresult
  · exact hother

/-- Whatever the type, the size of a value keeps to the slice. -/
theorem within_bsonValueSize (hrest : rest.length ≤ w.maxInt) :
    Within rest (bsonValueSize w typ rest) := by
  have hwrap : ∀ add n : ℕ, n + add ≤ w.maxInt → w.wrap (add + n) = ((n + add : ℕ) : ℤ) := by
    intro add n hn
    rw [wrap_eq (by omega) (by omega)]
    omega
  have hstring : Within rest (declaredBSON w 4 1 4 (fun n ↦ w.wrap (4 + n)) _) :=
    within_declaredBSON w 4 hrest le_rfl (by omega) (hwrap 4)
  have hdocument : Within rest (declaredBSON w 4 5 0 (fun n ↦ n) _) :=
    within_declaredBSON w 0 hrest le_rfl (by omega) fun _ _ ↦ rfl
  have hbinary : Within rest (declaredBSON w 5 0 5 (fun n ↦ w.wrap (5 + n)) _) :=
    within_declaredBSON w 5 hrest (by omega) (by omega) (hwrap 5)
  have hpointer : Within rest (declaredBSON w 4 1 16 (fun n ↦ w.wrap (w.wrap (4 + n) + 12)) rest) := by
    refine within_declaredBSON w 16 hrest le_rfl le_rfl ?_
    intro n hn
    rw [wrap_eq (v := 4 + (n : ℤ)) (by omega) (by omega), wrap_eq (by omega) (by omega)]
    omega
  apply (within_fixedBSON 8 _).ite
  apply (within_fixedBSON 4 _).ite
  apply (within_fixedBSON 12 _).ite
  apply (within_fixedBSON 1 _).ite
  apply (within_fixedBSON 16 _).ite
  apply Within.ite (.inr ⟨0, rfl, Nat.zero_le _⟩)
  apply hstring.ite
  apply hdocument.ite
  apply hbinary.ite
  apply (within_regexBSON w hrest).ite
  apply hpointer.ite
  exact .inl rfl

/-! ## Rounds of the walk -/

/-- A round behind `front`, when the key ends somewhere: everything hangs on the size of the value. -/
theorem walkStep_key {key : Text} (hkey : 0 ∉ key) (behind : Text)
    (hbody : (front ++ typ :: (key ++ 0 :: behind)).length ≤ w.maxInt) :
    walkStep w (front ++ typ :: (key ++ 0 :: behind)) front.length =
      (bsonValueSize w typ behind).bind fun size ↦
        (slice (front ++ typ :: (key ++ 0 :: behind)) ((front ++ typ :: (key ++ [0])).length : ℕ)
          (w.wrap (((front ++ typ :: (key ++ [0])).length : ℕ) + size))).bind fun val ↦
          .ok (⟨typ, key, val⟩, w.wrap (((front ++ typ :: (key ++ [0])).length : ℕ) + size)) := by
  have hlength : (front ++ typ :: (key ++ 0 :: behind)).length =
      front.length + key.length + behind.length + 2 := by
    simp only [length_append, length_cons]
    omega
  have hbyte : (byteAt (front ++ typ :: (key ++ 0 :: behind)) _ : Result MongoError UInt8) =
      .ok typ := byteAt_front ..
  have hnext : w.wrap ((front.length : ℤ) + 1) = ((front ++ [typ]).length : ℕ) := by
    rw [length_append, wrap_eq (by omega) (by omega)]
    rfl
  have htail : (sliceFrom (front ++ typ :: (key ++ 0 :: behind)) ((front ++ [typ]).length : ℕ) :
      Result MongoError Text) = .ok (key ++ 0 :: behind) := by
    have hfront := @sliceFrom_front MongoError (front ++ [typ]) (key ++ 0 :: behind)
    rwa [append_assoc] at hfront
  have hstop : w.wrap (((front ++ [typ]).length : ℕ) + (key.length : ℤ)) =
      (((front ++ [typ]).length + key.length : ℕ) : ℤ) := by
    rw [length_append, length_singleton, wrap_eq (by omega) (by omega)]
    rfl
  have hslice : (slice (front ++ typ :: (key ++ 0 :: behind)) ((front ++ [typ]).length : ℕ)
      (((front ++ [typ]).length + key.length : ℕ) : ℤ) : Result MongoError Text) = .ok key := by
    have hmiddle := @slice_middle MongoError (front ++ [typ]) key (0 :: behind)
    rwa [append_assoc] at hmiddle
  have hlast : w.wrap ((key.length : ℤ) + 1) = ((key.length + 1 : ℕ) : ℤ) := by
    rw [wrap_eq (by omega) (by omega)]
    rfl
  have hstart : w.wrap (((front ++ [typ]).length : ℕ) + ((key.length + 1 : ℕ) : ℤ)) =
      ((front ++ typ :: (key ++ [0])).length : ℕ) := by
    have hsum : (front ++ typ :: (key ++ [0])).length = (front ++ [typ]).length + (key.length + 1) := by
      simp only [length_append, length_cons]
      omega
    have hle : (front ++ [typ]).length + (key.length + 1) ≤ w.maxInt := by
      rw [length_append, length_singleton]
      omega
    rw [hsum, wrap_eq (by omega) (by omega)]
    rfl
  have hrest : (sliceFrom (front ++ typ :: (key ++ 0 :: behind))
      ((front ++ typ :: (key ++ [0])).length : ℕ) : Result MongoError Text) = .ok behind := by
    have hfront := @sliceFrom_front MongoError (front ++ typ :: (key ++ [0])) behind
    rwa [append_assoc, cons_append, append_assoc] at hfront
  rw [walkStep]
  simp only [hbyte, hnext, htail, indexByte_front hkey, hstop, hslice, hlast, hstart, hrest, bind,
    Except.bind]

/-- A value that lies behind the key is taken. -/
theorem walkStep_ok (e : BsonElem) (hkey : 0 ∉ e.key) (rest : Text)
    (hbody : (front ++ (e.encode ++ rest)).length ≤ w.maxInt)
    (hsize : bsonValueSize w e.typ (e.val ++ rest) = .ok e.val.length) :
    walkStep w (front ++ (e.encode ++ rest)) front.length =
      .ok (e, ((front ++ e.encode).length : ℕ)) := by
  have hform : e.encode ++ rest = e.typ :: (e.key ++ 0 :: (e.val ++ rest)) := by
    rw [BsonElem.encode, cons_append, append_assoc, cons_append]
  have hlength : (front ++ e.encode).length = (front ++ e.typ :: (e.key ++ [0])).length + e.val.length := by
    simp only [BsonElem.encode, length_append, length_cons, length_nil]
    omega
  have hwhole : (front ++ (e.encode ++ rest)).length = (front ++ e.encode).length + rest.length := by
    rw [← append_assoc, length_append]
  rw [hform] at hbody hwhole ⊢
  have hend : w.wrap (((front ++ e.typ :: (e.key ++ [0])).length : ℕ) + (e.val.length : ℤ)) =
      (((front ++ e.typ :: (e.key ++ [0])).length + e.val.length : ℕ) : ℤ) := by
    rw [wrap_eq (by omega) (by omega)]
    rfl
  have hslice := @slice_middle MongoError (front ++ e.typ :: (e.key ++ [0])) e.val rest
  rw [append_assoc, cons_append, append_assoc, singleton_append] at hslice
  rw [walkStep_key w _ _ hkey _ hbody, hsize, hlength]
  simp only [hend, hslice, Except.bind]

/-- A round is refused, or it takes an element that stands at its position. -/
theorem walkStep_cases (behind : Text) (hne : behind ≠ [])
    (hbody : (front ++ behind).length ≤ w.maxInt) :
    walkStep w (front ++ behind) front.length = fail .malformed ∨
      ∃ (e : BsonElem) (rest : Text), behind = e.encode ++ rest ∧
        walkStep w (front ++ behind) front.length = .ok (e, ((front ++ e.encode).length : ℕ)) := by
  cases behind with
  | nil => exact absurd rfl hne
  | cons typ tail =>
    have hlength : (front ++ typ :: tail).length = front.length + tail.length + 1 := by
      simp only [length_append, length_cons]
      omega
    rcases indexByte_cases 0 tail with hnone | ⟨key, after, htail, hkey, _⟩
    · have hnext : w.wrap ((front.length : ℤ) + 1) = ((front ++ [typ]).length : ℕ) := by
        rw [length_append, wrap_eq (by omega) (by omega)]
        rfl
      have hslice := @sliceFrom_front MongoError (front ++ [typ]) tail
      rw [append_assoc, singleton_append] at hslice
      refine .inl ?_
      rw [walkStep, byteAt_front]
      simp only [hnext, hslice, hnone, bind, Except.bind]
    · rw [htail] at hbody ⊢
      have hafter : after.length ≤ w.maxInt := by
        simp only [length_append, length_cons] at hbody
        omega
      rcases within_bsonValueSize w typ hafter with hmalformed | ⟨n, hok, hn⟩
      · refine .inl ?_
        rw [walkStep_key w _ _ hkey _ hbody, hmalformed]
        rfl
      · refine .inr ⟨⟨typ, key, after.take n⟩, after.drop n, ?_, ?_⟩
        · rw [BsonElem.encode, cons_append, append_assoc, cons_append,
            take_append_drop]
        · have hsplit : typ :: (key ++ 0 :: after) =
              BsonElem.encode ⟨typ, key, after.take n⟩ ++ after.drop n := by
            rw [BsonElem.encode, cons_append, append_assoc, cons_append,
              take_append_drop]
          rw [hsplit] at hbody ⊢
          apply walkStep_ok w _ ⟨typ, key, after.take n⟩ hkey _ hbody
          rw [take_append_drop, hok, length_take, Nat.min_eq_left hn]

/-! ## The whole walk -/

/-- A walk with `count` rounds left that has `behind` before it and `before` visited: it does not panic, and
if it neither fails nor is stopped and has rounds to spare, the visited elements are all that there is. -/
structure Tiles (behind : Text) (count : ℕ) (before : List BsonElem) (walk : Walk) : Prop where
  safe : walk.failure ≠ some .panic
  complete : walk.failure = none → walk.stopped = false →
    walk.visited.length < before.length + count →
      walk.visited.flatMap BsonElem.encode = before.flatMap BsonElem.encode ++ behind

theorem walkLoop_tiles (count : ℕ) (front behind : Text) (before : List BsonElem)
    (hbody : (front ++ behind).length ≤ w.maxInt) :
    Tiles behind count before (walkLoop w fn (front ++ behind) count front.length before) := by
  induction count generalizing front behind before with
  | zero =>
    rw [walkLoop]
    exact ⟨by simp, fun _ _ hlength ↦ absurd hlength (Nat.lt_irrefl _)⟩
  | succ count ih =>
    rw [walkLoop]
    by_cases hbehind : behind = []
    · rw [hbehind, append_nil, if_pos (Int.le_refl _)]
      exact ⟨by simp, fun _ _ _ ↦ (append_nil _).symm⟩
    · have hpos : 0 < behind.length := length_pos_of_ne_nil hbehind
      rw [if_neg (by rw [length_append]; omega)]
      rcases walkStep_cases w front behind hbehind hbody with hfail | ⟨e, rest, hsplit, hstep⟩
      · rw [hfail, fail]
        exact ⟨by simp, fun hnone ↦ absurd hnone (by simp)⟩
      · rw [hstep]
        simp only
        split
        · rw [hsplit, ← append_assoc] at hbody ⊢
          have hrest := ih (front ++ e.encode) rest (before ++ [e]) hbody
          refine ⟨hrest.safe, ?_⟩
          intro hnone hrun hlength
          have hcount : (before ++ [e]).length + count = before.length + (count + 1) := by
            rw [length_append, length_singleton]
            omega
          rw [hrest.complete hnone hrun (by rwa [hcount]), flatMap_append, flatMap_singleton,
            append_assoc]
        · exact ⟨by simp, fun _ hrun ↦ absurd hrun (by simp)⟩

/-- A document is refused, or what its length covers is the length, the elements' part and a NUL. -/
theorem documentBody_cases :
    documentBody w doc = fail .malformed ∨
      ∃ elements : Text, (doc.take 4).length = 4 ∧
        doc.take (leValue (doc.take 4)) = doc.take 4 ++ elements ++ [0] ∧
          documentBody w doc = .ok (doc.take 4 ++ elements) := by
  unfold documentBody
  split
  · exact .inl rfl
  · next hlong =>
    rw [uint32LE_of_le (by omega)]
    simp only [bind, Except.bind]
    rcases fitsInt_cases w (leValue _) with ⟨hfits, _⟩ | ⟨hfits, hmax⟩
    · rw [hfits]
      exact .inl rfl
    · rw [hfits]
      simp only
      split
      · exact .inl rfl
      · next hn =>
        generalize hdeclared : leValue (doc.take 4) = n at hn hmax ⊢
        have hprev : w.wrap ((n : ℤ) - 1) = ((n - 1 : ℕ) : ℤ) := by
          rw [wrap_eq (by omega) (by omega)]
          omega
        have hbyte : (byteAt doc ((n - 1 : ℕ) : ℤ) : Result MongoError UInt8) = .ok (doc.getD (n - 1) 0) := by
          rw [byteAt, if_pos ⟨by omega, by omega⟩, Int.toNat_natCast]
        have hslice : (slice doc 0 ((n - 1 : ℕ) : ℤ) : Result MongoError Text) = .ok (doc.take (n - 1)) := by
          rw [slice, if_pos ⟨Int.le_refl _, by omega, by omega⟩]
          rfl
        rw [hprev, hbyte]
        simp only [hslice]
        split
        · exact .inl rfl
        · next hlast =>
          have hfront : doc.take (n - 1) = doc.take 4 ++ (doc.take (n - 1)).drop 4 := by
            have hcut : doc.take 4 = (doc.take (n - 1)).take 4 := by
              rw [take_take, Nat.min_eq_left (by omega)]
            rw [hcut, take_append_drop]
          refine .inr ⟨(doc.take _).drop 4, by rw [length_take]; omega, ?_, by rw [← hfront]⟩
          have hindex : n - 1 < doc.length := by omega
          have hwhole := take_append_getElem hindex
          rw [getD_eq_getElem?_getD, getElem?_eq_getElem hindex, Option.getD_some,
            not_ne_iff] at hlast
          rw [hlast, Nat.sub_add_cancel (by omega)] at hwhole
          rw [← hfront, hwhole]

/-- On any bytes the walk stays inside of the document, and what it visits to the end tiles the document. -/
theorem bsonWalk_tiles {doc : Text} (hdoc : doc.length ≤ w.maxInt) :
    (bsonWalk w doc fn).failure ≠ some .panic ∧
      ((bsonWalk w doc fn).failure = none → (bsonWalk w doc fn).stopped = false →
        (bsonWalk w doc fn).visited.length < maxBSONElements →
          doc.take (leValue (doc.take 4)) =
            doc.take 4 ++ (bsonWalk w doc fn).visited.flatMap BsonElem.encode ++ [0]) := by
  rcases documentBody_cases w doc with hfail | ⟨elements, hlength, hcover, hok⟩
  · rw [bsonWalk, hfail, fail]
    exact ⟨by simp, fun hnone ↦ absurd hnone (by simp)⟩
  · have hbody : (doc.take 4 ++ elements).length ≤ w.maxInt := by
      have hcut := congrArg List.length hcover
      rw [length_append, length_take] at hcut
      omega
    have hwalk : bsonWalk w doc fn =
        walkLoop w fn (doc.take 4 ++ elements) maxBSONElements (doc.take 4).length [] := by
      rw [bsonWalk, hok, hlength]
      rfl
    have htiles := walkLoop_tiles w fn maxBSONElements (doc.take 4) elements [] hbody
    rw [hwalk]
    refine ⟨htiles.safe, ?_⟩
    intro hnone hrun hvisited
    have hall := htiles.complete hnone hrun (by simpa using hvisited)
    rw [flatMap_nil, nil_append] at hall
    rw [hcover, hall]

end RanHoneypot.Trap.Mongo
