import RanHoneypot.Trap.Bson

/-!
# Writing BSON documents

The trap builds its answers with the methods of `bsonDoc`: each one appends an element, and `bytes` puts a
NUL behind the elements and the length in front of them. The writer knows nothing of the size rules of the
reader. This module shows that the reader visits exactly the elements that were appended, for documents
whose length fits into the four bytes that announce it.
-/

namespace RanHoneypot.Trap.Mongo

open GoText ByteNumbers GoSlice List BsonElem

/-! ## The writer -/

structure BsonDoc where
  b : Text
deriving DecidableEq

def newBSONDoc : BsonDoc := ⟨List.replicate 4 0⟩

namespace BsonDoc

variable (d : BsonDoc) (k : Text)

def key (typ : UInt8) (k : Text) : BsonDoc := ⟨d.b ++ [typ] ++ k ++ [0]⟩

def str (v : Text) : BsonDoc :=
  ⟨(d.key 0x02 k).b ++ littleEndian 4 (v.length + 1) ++ v ++ [0]⟩

def i32 (v : Int32) : BsonDoc :=
  ⟨(d.key 0x10 k).b ++ littleEndian 4 v.toUInt32.toNat⟩

def boolean (v : Bool) : BsonDoc :=
  ⟨(d.key 0x08 k).b ++ if v then [1] else [0]⟩

/-- A number is given by its bits, as `math.Float64bits` has them. -/
def double (v : UInt64) : BsonDoc :=
  ⟨(d.key 0x01 k).b ++ littleEndian 8 v.toNat⟩

/-- A point in time is given in milliseconds, as `UnixMilli` has it. -/
def datetime (t : Int64) : BsonDoc :=
  ⟨(d.key 0x09 k).b ++ littleEndian 8 t.toUInt64.toNat⟩

def bytes : Text :=
  littleEndian 4 (d.b ++ [0]).length ++ (d.b ++ [0]).drop 4

/-- The array of `ints`, whose keys are the positions. -/
def array (vs : List Int32) : BsonDoc :=
  vs.zipIdx.foldl (fun arr (v, i) ↦ arr.i32 (itoa i) v) newBSONDoc

def ints (vs : List Int32) : BsonDoc :=
  ⟨(d.key 0x04 k).b ++ (array vs).bytes⟩

end BsonDoc

/-- A call of one of the methods. -/
inductive BsonField where
  | str (k v : Text)
  | i32 (k : Text) (v : Int32)
  | boolean (k : Text) (v : Bool)
  | double (k : Text) (v : UInt64)
  | datetime (k : Text) (t : Int64)
  | ints (k : Text) (vs : List Int32)

namespace BsonField

def append (d : BsonDoc) : BsonField → BsonDoc
  | str k v => d.str k v
  | i32 k v => d.i32 k v
  | boolean k v => d.boolean k v
  | double k v => d.double k v
  | datetime k t => d.datetime k t
  | ints k vs => d.ints k vs

/-- The type, the key and the encoded value of the element that a call stands for. -/
def elem : BsonField → BsonElem
  | str k v => ⟨0x02, k, littleEndian 4 (v.length + 1) ++ v ++ [0]⟩
  | i32 k v => ⟨0x10, k, littleEndian 4 v.toUInt32.toNat⟩
  | boolean k v => ⟨0x08, k, if v then [1] else [0]⟩
  | double k v => ⟨0x01, k, littleEndian 8 v.toNat⟩
  | datetime k t => ⟨0x09, k, littleEndian 8 t.toUInt64.toNat⟩
  | ints k vs => ⟨0x04, k, (BsonDoc.array vs).bytes⟩

end BsonField

variable (w : IntWidth) (fields : List BsonField)

/-- The document that a chain of calls builds. -/
def build : BsonDoc := fields.foldl BsonField.append newBSONDoc

/-! ## What is written -/

theorem append_eq (d : BsonDoc) (f : BsonField) : (f.append d).b = d.b ++ f.elem.encode := by
  cases f <;>
    simp [BsonField.append, BsonField.elem, encode, BsonDoc.str, BsonDoc.i32, BsonDoc.boolean,
      BsonDoc.double, BsonDoc.datetime, BsonDoc.ints, BsonDoc.key]

theorem foldl_append_eq (d : BsonDoc) (fields : List BsonField) :
    (fields.foldl BsonField.append d).b =
      d.b ++ (fields.map BsonField.elem).flatMap encode := by
  induction fields generalizing d with
  | nil => simp
  | cons f fields ih =>
    rw [foldl_cons, ih, append_eq, map_cons, flatMap_cons, append_assoc]

theorem array_eq (vs : List Int32) :
    BsonDoc.array vs = build (vs.zipIdx.map fun (v, i) ↦ .i32 (itoa i) v) := by
  rw [build, foldl_map]
  rfl

/-- A document is its length, its elements and a NUL. -/
theorem bytes_build :
    (build fields).bytes =
      littleEndian 4 (((fields.map BsonField.elem).flatMap encode).length + 5) ++
        (fields.map BsonField.elem).flatMap encode ++ [0] := by
  have hdrop : ∀ elements : Text,
      ((newBSONDoc.b ++ elements) ++ [0]).drop 4 = elements ++ [0] := fun _ ↦ rfl
  have hlength : ∀ elements : Text,
      ((newBSONDoc.b ++ elements) ++ [0]).length = elements.length + 5 := by
    intro elements
    simp only [newBSONDoc, length_append, length_replicate, length_singleton]
    omega
  rw [BsonDoc.bytes, build, foldl_append_eq, hdrop, hlength, append_assoc]

theorem length_bytes_build :
    (build fields).bytes.length = ((fields.map BsonField.elem).flatMap encode).length + 5 := by
  rw [bytes_build, length_append, length_append, length_littleEndian, length_singleton]
  omega

/-! ## Sizes are found again -/

/-- The size rules find the value of an element wherever it stands. -/
def Measured (e : BsonElem) : Prop :=
  ∀ rest : Text, (e.val ++ rest).length ≤ w.maxInt →
    bsonValueSize w e.typ (e.val ++ rest) = .ok e.val.length

theorem fixedBSON_append {n : ℕ} {val : Text} (hval : val.length = n) (rest : Text) :
    fixedBSON n (val ++ rest) = .ok val.length := by
  rw [fixedBSON, if_neg (by rw [length_append]; omega), hval]

/-- A length in front of a value is read as it was written. -/
theorem declaredBSON_append (low reserve : ℕ) {n : ℕ} (size : ℤ → ℤ) (tail : Text) (hn : n < 2 ^ 32)
    (hlow : low ≤ n) (hfit : n + reserve ≤ tail.length + 4) (hmax : tail.length + 4 ≤ w.maxInt) :
    declaredBSON w 4 low reserve size (littleEndian 4 n ++ tail) = .ok (size n) := by
  have hlength : (littleEndian 4 n ++ tail).length = tail.length + 4 := by
    rw [length_append, length_littleEndian, Nat.add_comm]
  have hfits : fitsInt w n = some n := by
    rw [fitsInt, if_neg (by omega)]
  rw [declaredBSON, if_neg (by omega), uint32LE_littleEndian hn]
  simp only [hfits, bind, Except.bind]
  rw [IntWidth.wrap_eq (by omega) (by omega), if_neg (by omega)]

theorem measured_str (k v : Text) (hv : v.length + 1 < 2 ^ 32) :
    Measured w (BsonField.str k v).elem := by
  intro rest hmax
  have hlength : (BsonField.str k v).elem.val.length = v.length + 5 := by
    simp only [BsonField.elem, length_append, length_littleEndian, length_singleton]
    omega
  rw [length_append] at hmax
  have htail : (v ++ [0] ++ rest).length = v.length + 1 + rest.length := by
    simp only [length_append, length_singleton]
  have hform : (BsonField.str k v).elem.val ++ rest =
      littleEndian 4 (v.length + 1) ++ (v ++ [0] ++ rest) := by
    simp [BsonField.elem]
  have hsize : bsonValueSize w 0x02 (littleEndian 4 _ ++ (v ++ [0] ++ rest)) =
      .ok (w.wrap _) :=
    declaredBSON_append w 1 4 (fun n ↦ w.wrap (4 + n)) (v ++ [0] ++ rest) hv (by omega) (by omega)
      (by omega)
  refine hsize.trans ?_
  rw [IntWidth.wrap_eq (by omega) (by omega)]
  congr 1
  omega

theorem measured_ints (k : Text) (vs : List Int32) (hvs : (BsonDoc.array vs).bytes.length < 2 ^ 32) :
    Measured w (BsonField.ints k vs).elem := by
  intro rest hmax
  have hval : (BsonField.ints k vs).elem.val = (BsonDoc.array vs).bytes := rfl
  rw [hval, length_append] at hmax
  rw [hval]
  rw [array_eq] at hvs hmax ⊢
  generalize (vs.zipIdx.map fun (v, i) ↦ BsonField.i32 (itoa i) v) = fields at hvs hmax ⊢
  have hlength := length_bytes_build fields
  have hform := bytes_build fields
  generalize (fields.map _).flatMap encode = elements at hlength hform
  rw [hlength] at hvs hmax
  have hsize : bsonValueSize w 0x04 (littleEndian 4 (elements.length + 5) ++ (elements ++ [0] ++ rest)) =
      .ok ((elements.length + 5 : ℕ) : ℤ) := by
    have htail : (elements ++ [0] ++ rest).length = elements.length + 1 + rest.length := by
      simp only [length_append, length_singleton]
    exact declaredBSON_append w 5 0 (fun n ↦ n) _ hvs (by omega) (by omega)
      (by omega)
  rw [hlength, hform, append_assoc, append_assoc, ← append_assoc elements]
  exact hsize

/-- Whatever a field holds, its value is measured, as long as it is shorter than four gigabytes. -/
theorem measured_elem (f : BsonField) (hf : f.elem.val.length < 2 ^ 32) : Measured w f.elem := by
  cases f with
  | str k v =>
    refine measured_str w k v ?_
    simp only [BsonField.elem, length_append, length_singleton] at hf
    omega
  | i32 k v => exact fun rest _ ↦ fixedBSON_append (length_littleEndian 4 _) rest
  | boolean k v => exact fun rest _ ↦ fixedBSON_append (by cases v <;> rfl) rest
  | double | datetime => exact fun rest _ ↦ fixedBSON_append (length_littleEndian 8 _) rest
  | ints k vs => exact measured_ints w k vs hf

/-! ## Documents are read back -/

/-- A visitor that takes every element. -/
def everyElement (_ : List BsonElem) : Bool := true

theorem walkLoop_elements (es : List BsonElem) (count : ℕ) (front : Text) (before : List BsonElem)
    (hcount : es.length ≤ count) (hkeys : ∀ e ∈ es, 0 ∉ e.key) (hes : ∀ e ∈ es, Measured w e)
    (hbody : (front ++ es.flatMap encode).length ≤ w.maxInt) :
    walkLoop w everyElement (front ++ es.flatMap encode) count front.length before =
      ⟨before ++ es, false, none⟩ := by
  induction es generalizing count front before with
  | nil =>
    rw [flatMap_nil, append_nil, append_nil]
    cases count with
    | zero => rfl
    | succ count => rw [walkLoop, if_pos (Int.le_refl _)]
  | cons e es ih =>
    rw [flatMap_cons] at hbody ⊢
    rw [forall_mem_cons] at hkeys hes
    cases count with
    | zero => exact absurd hcount (Nat.not_succ_le_zero _)
    | succ count =>
      have hlength : (e.val ++ es.flatMap encode).length ≤ w.maxInt := by
        simp only [encode, length_append, length_cons] at hbody ⊢
        omega
      have hpos : ¬ ((front ++ (e.encode ++ es.flatMap encode)).length : ℤ) ≤ front.length := by
        simp only [encode, length_append, length_cons]
        omega
      have hstep := walkStep_ok w front e hkeys.1 _ hbody (hes.1 _ hlength)
      rw [walkLoop, if_neg hpos, hstep]
      simp only [everyElement, if_true]
      rw [← append_assoc] at hbody ⊢
      have hrest := ih count (front ++ e.encode) (before ++ [e]) (Nat.le_of_succ_le_succ hcount) hkeys.2
        hes.2 hbody
      rw [hrest, append_assoc, singleton_append]

theorem documentBody_complete {elements : Text} (hlength : elements.length + 5 < 2 ^ 32)
    (hmax : elements.length + 5 ≤ w.maxInt) :
    documentBody w (littleEndian 4 (elements.length + 5) ++ elements ++ [0]) =
      .ok (littleEndian 4 (elements.length + 5) ++ elements) := by
  generalize hn : elements.length + 5 = n at hlength hmax ⊢
  have hfront : (littleEndian 4 n ++ elements).length = n - 1 := by
    rw [length_append, length_littleEndian]
    omega
  have hdoc : (littleEndian 4 n ++ elements ++ [0]).length = n := by
    rw [length_append, length_singleton]
    omega
  have hraw : (uint32LE (littleEndian 4 n ++ elements ++ [0]) : Result MongoError ℕ) = .ok n := by
    exact uint32LE_littleEndian hlength _
  have hfits : fitsInt w n = some n := by
    rw [fitsInt, if_neg (by omega)]
  have hprev : w.wrap ((n : ℤ) - 1) = ((littleEndian 4 n ++ elements).length : ℕ) := by
    rw [IntWidth.wrap_eq (by omega) (by omega)]
    omega
  rw [documentBody, if_neg (by omega), hraw]
  simp only [hfits, bind, Except.bind, hprev, byteAt_front, slice_front]
  rw [if_neg (by omega), if_neg (by simp)]

theorem length_val_le {e : BsonElem} {es : List BsonElem} (he : e ∈ es) :
    e.val.length ≤ (es.flatMap encode).length := by
  rcases append_of_mem he with ⟨front, behind, hes⟩
  simp only [hes, flatMap_append, flatMap_cons, encode, length_append,
    length_cons]
  omega

/-- The walk over a document that was written visits exactly the fields. -/
theorem bsonWalk_build (hkeys : ∀ f ∈ fields, 0 ∉ f.elem.key)
    (hcount : fields.length ≤ maxBSONElements) (hlength : (build fields).bytes.length < 2 ^ 32)
    (hmax : (build fields).bytes.length ≤ w.maxInt) :
    bsonWalk w (build fields).bytes everyElement = ⟨fields.map BsonField.elem, false, none⟩ := by
  rw [length_bytes_build] at hlength hmax
  rw [bsonWalk, bytes_build, documentBody_complete w hlength hmax]
  generalize hcover : littleEndian 4 (_ + 5) = front
  have hfront : front.length = 4 := by
    rw [← hcover, length_littleEndian]
  have hwalk := walkLoop_elements w (fields.map _) maxBSONElements front []
    (by rwa [length_map]) (forall_mem_map.mpr hkeys) ?_ ?_
  · rw [hfront] at hwalk
    exact hwalk
  · intro e he
    have hvalue := length_val_le he
    rcases mem_map.mp he with ⟨f, _, rfl⟩
    exact measured_elem w f (by omega)
  · rw [length_append]
    omega

end RanHoneypot.Trap.Mongo
