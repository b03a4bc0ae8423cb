import RanHoneypot.Data.GoSlice
import RanHoneypot.Data.Utf8Valid

/-!
# Requests to the IPP trap

`parseIPP` of `ipp.go` decodes the header of a request, walks over its attribute groups to the end tag,
and keeps the job name. Every index and every slice is checked, so an access out of range would be a
panic here. Over it stands what a sender writes: a sequence of group delimiters and attributes, in which
an attribute without a name is a further value of the attribute before it.
-/

namespace RanHoneypot.Trap.Ipp

open GoText GoSlice ByteNumbers Utf8 List

def ippMaxAttrs : ℕ := 64
def ippMaxNameLen : ℕ := 255
def ippMaxJobName : ℕ := 64

def ippTagEnd : UInt8 := 0x03

structure IppRequest where
  major : UInt8
  minor : UInt8
  operation : ℕ
  requestID : ℕ
  jobName : Text
  docOffset : ℤ
deriving DecidableEq

/-- The loop of `truncateRunes`, which goes back to the start of a rune. -/
def truncateLoop (s : Text) : ℕ → ℕ
  | 0 => 0
  | n + 1 => if isContinuation (s.getD (n + 1) 0) then truncateLoop s n else n + 1

def truncateRunes (s : Text) (n : ℕ) : Text := if s.length ≤ n then s else s.take (truncateLoop s n)

/-- The request as far as it was decoded, with the error of a malformed request unless the attributes
are beyond those that are inspected. -/
def bad (attrs : ℕ) (req : IppRequest) : Result Empty (IppRequest × Bool) :=
  .ok (req, attrs ≤ ippMaxAttrs)

/-- The name and the value behind a tag and the position behind them, or nothing if they do not fit. -/
def readAttribute (b : Text) (off : ℕ) : Result Empty (Option (Text × Text × ℕ)) :=
  if b.length < off + 2 then .ok none
  else do
    let nl ← uintBE 2 (← slice b off (off + 2 : ℕ))
    if ippMaxNameLen < nl ∨ b.length < off + 2 + nl + 2 then .ok none
    else do
      let name ← slice b (off + 2 : ℕ) (off + 2 + nl : ℕ)
      let vl ← uintBE 2 (← slice b (off + 2 + nl : ℕ) (off + 2 + nl + 2 : ℕ))
      if b.length < off + 2 + nl + 2 + vl then .ok none
      else do
        let val ← slice b (off + 2 + nl + 2 : ℕ) (off + 2 + nl + 2 + vl : ℕ)
        .ok (some (name, val, off + 2 + nl + 2 + vl))

/-- Keeps the first job name. The number of attributes counts this one. -/
def inspect (attrs : ℕ) (tag : UInt8) (name val : Text) (req : IppRequest) : Result Empty IppRequest :=
  if attrs ≤ ippMaxAttrs ∧ name = ofText "job-name" ∧ req.jobName = [] ∧ (tag = 0x41 ∨ tag = 0x42) then do
    let head ← slice val 0 (min val.length ippMaxJobName : ℕ)
    .ok { req with jobName := truncateRunes (toValidUTF8 head (ofText "?")) ippMaxJobName }
  else .ok req

/-- The loop over the attributes, with a bound on its rounds. -/
def attrLoop (b : Text) : ℕ → ℕ → ℕ → Text → IppRequest → Result Empty (IppRequest × Bool)
  | 0, _, attrs, _, req => bad attrs req
  | rounds + 1, off, attrs, lastName, req =>
    if b.length ≤ off then bad attrs req
    else do
      let tag ← byteAt b off
      if tag = ippTagEnd then .ok ({ req with docOffset := off + 1 }, false)
      else if tag < 0x10 then attrLoop b rounds (off + 1) attrs [] req
      else do
        match ← readAttribute b (off + 1) with
        | none => bad attrs req
        | some (name, val, next) =>
          let name := if name = [] then lastName else name
          let req ← inspect (attrs + 1) tag name val req
          attrLoop b rounds next (attrs + 1) name req

/-- The versions 1.0, 1.1 and 2.0 to 2.2. -/
def supported (major minor : UInt8) : Bool := (major = 1 && minor ≤ 1) || (major = 2 && minor ≤ 2)

/-- The request and whether it is reported as malformed. -/
def parseIPP (b : Text) : Result Empty (IppRequest × Bool) :=
  if b.length < 9 then .ok (⟨0, 0, 0, 0, [], -1⟩, true)
  else do
    let major ← byteAt b 0
    let minor ← byteAt b 1
    if supported major minor = false then .ok (⟨major, minor, 0, 0, [], -1⟩, true)
    else do
      let operation ← uintBE 2 (← slice b 2 4)
      let requestID ← uintBE 4 (← slice b 4 8)
      attrLoop b b.length 8 0 [] ⟨major, minor, operation, requestID, [], -1⟩

/-! ## Requests as they are written -/

/-- `ippWriter.attr`. -/
def attr (w : Text) (tag : UInt8) (name value : Text) : Text :=
  w ++ tag :: (bigEndian 2 name.length ++ (name ++ (bigEndian 2 value.length ++ value)))

structure Attribute where
  tag : UInt8
  tag_ge : 0x10 ≤ tag
  name : Text
  name_le : name.length ≤ ippMaxNameLen
  value : Text
  value_lt : value.length < 65536

inductive Item where
  | group (tag : UInt8) (tag_lt : tag < 0x10) (tag_ne : tag ≠ ippTagEnd)
  | entry (a : Attribute)

def Item.encode : Item → Text
  | .group tag _ _ => [tag]
  | .entry a => attr [] a.tag a.name a.value

/-- An attribute with the name it stands for. -/
structure Named where
  tag : UInt8
  name : Text
  value : Text

/-- The attributes of a request. One without a name belongs to the name before it in its group. -/
def named : Text → List Item → List Named
  | _, [] => []
  | _, .group _ _ _ :: rest => named [] rest
  | last, .entry a :: rest =>
    let name := if a.name = [] then last else a.name
    ⟨a.tag, name, a.value⟩ :: named name rest

/-- A value of `job-name` that is not empty and of the type of a name or a text. -/
def isJobName (a : Named) : Bool :=
  a.name = ofText "job-name" && (a.tag = 0x41 || a.tag = 0x42) && a.value ≠ []

/-- The first bytes of a value, with a question mark for what is not valid there. -/
def shorten (value : Text) : Text := toValidUTF8 (value.take ippMaxJobName) (ofText "?")

/-- The job name that is kept after some more attributes. -/
def keptName (jobName : Text) (attributes : List Named) : Text :=
  if jobName = [] then ((attributes.find? isJobName).map fun a ↦ shorten a.value).getD [] else jobName

structure Request where
  major : UInt8
  minor : UInt8
  version : supported major minor = true
  operation : UInt16
  requestID : UInt32
  items : List Item
  document : Text

namespace Request

variable (r : Request)

/-- What stands before the end tag. -/
def front : Text :=
  r.major :: r.minor :: (bigEndian 2 r.operation.toNat ++
    (bigEndian 4 r.requestID.toNat ++ r.items.flatMap Item.encode))

def encode : Text := r.front ++ ippTagEnd :: r.document

/-- The first job name among the attributes that are inspected. -/
def jobName : Text := keptName [] ((named [] r.items).take ippMaxAttrs)

end Request

/-! ## Job names -/

variable {b : Text} {attrs off : ℕ} {req : IppRequest}

theorem length_shorten_le (value : Text) : (shorten value).length ≤ ippMaxJobName :=
  (length_toValidUTF8_le _ _).trans (length_take_le _ _)

theorem valid_shorten (value : Text) : Valid (shorten value) := valid_toValidUTF8 _ (by decide)

theorem shorten_eq_nil_iff {value : Text} : shorten value = [] ↔ value = [] := by
  rw [shorten, toValidUTF8_eq_nil_iff (by decide), ippMaxJobName]
  simp

theorem keptName_spec (attributes : List Named) :
    (keptName [] attributes).length ≤ ippMaxJobName ∧ Valid (keptName [] attributes) := by
  rw [keptName]
  cases attributes.find? isJobName with
  | none => exact ⟨Nat.zero_le _, forall_mem_nil _⟩
  | some a => exact ⟨length_shorten_le _, valid_shorten _⟩

/-- The cut behind the replacement changes nothing: there are at most as many bytes left as are kept. -/
theorem inspect_eq (attrs : ℕ) (tag : UInt8) (name val : Text) (req : IppRequest) :
    inspect attrs tag name val req =
      .ok (if attrs ≤ ippMaxAttrs ∧ name = ofText "job-name" ∧ req.jobName = [] ∧ (tag = 0x41 ∨ tag = 0x42)
        then { req with jobName := shorten val } else req) := by
  have hslice : (slice val 0 (min val.length ippMaxJobName : ℕ) : Result Empty Text) =
      .ok (val.take ippMaxJobName) := by
    rw [slice, if_pos ⟨Int.le_refl 0, Int.natCast_nonneg _, by omega⟩, Int.toNat_natCast, Nat.min_comm,
      ← take_eq_take_min]
    rfl
  rw [inspect, hslice]
  simp only [bind, Except.bind]
  rw [truncateRunes, ← shorten, if_pos (length_shorten_le _)]
  split <;> rfl

/-- One more attribute: the name that is kept is found as if it stood in front of the rest. -/
theorem keptName_inspect {tag : UInt8} {name val : Text} {req' : IppRequest}
    (hreq : inspect (attrs + 1) tag name val req = .ok req') (rest : List Named) :
    req' = { req with jobName := req'.jobName } ∧
      keptName req'.jobName (rest.take (ippMaxAttrs - (attrs + 1))) =
        keptName req.jobName ((⟨tag, name, val⟩ :: rest).take (ippMaxAttrs - attrs)) := by
  rw [inspect_eq] at hreq
  injection hreq with hreq
  by_cases hroom : attrs < ippMaxAttrs
  · rw [show ippMaxAttrs - attrs = ippMaxAttrs - (attrs + 1) + 1 by omega, take_succ_cons]
    by_cases hname : req.jobName = []
    · by_cases hjob : name = ofText "job-name" ∧ (tag = 0x41 ∨ tag = 0x42)
      · rw [if_pos ⟨hroom, hjob.1, hname, hjob.2⟩] at hreq
        subst hreq
        refine ⟨rfl, ?_⟩
        by_cases hval : val = []
        · have hskip : isJobName ⟨tag, name, val⟩ = false := by simp [isJobName, hval]
          have hshort := shorten_eq_nil_iff.mpr hval
          simp only [keptName, hshort, hname, find?_cons, hskip]
        · have htaken : isJobName ⟨tag, name, val⟩ = true := by simp [isJobName, hjob, hval]
          have hshort : shorten val ≠ [] := fun hnil ↦ hval (shorten_eq_nil_iff.mp hnil)
          simp [keptName, hname, htaken, hshort]
      · rw [if_neg fun hall ↦ hjob ⟨hall.2.1, hall.2.2.2⟩] at hreq
        subst hreq
        have hskip : isJobName ⟨tag, name, val⟩ = false := by
          rw [isJobName, Bool.and_eq_false_iff]
          left
          simpa using hjob
        simp only [keptName, find?_cons, hskip]
        exact ⟨trivial, trivial⟩
    · rw [if_neg fun hall ↦ hname hall.2.2.1] at hreq
      subst hreq
      exact ⟨rfl, by rw [keptName, keptName, if_neg hname, if_neg hname]⟩
  · rw [if_neg fun hall ↦ hroom hall.1] at hreq
    subst hreq
    rw [show ippMaxAttrs - attrs = 0 by omega, show ippMaxAttrs - (attrs + 1) = 0 by omega]
    exact ⟨rfl, rfl⟩

/-! ## Walking over a written request -/

theorem readAttribute_of_drop {name val rest : Text} (hname : name.length ≤ ippMaxNameLen)
    (hval : val.length < 65536)
    (hdrop : b.drop off = bigEndian 2 name.length ++ (name ++ (bigEndian 2 val.length ++ (val ++ rest)))) :
    ∃ next, readAttribute b off = .ok (some (name, val, next)) ∧ b.drop next = rest := by
  have hnl : name.length < 256 ^ 2 := by
    rw [ippMaxNameLen] at hname
    omega
  have hname' := drop_behind hdrop
  have hvl := drop_behind hname'
  have hval' := drop_behind hvl
  have hrest := drop_behind hval'
  have hlength := congrArg List.length hdrop
  simp only [length_drop, length_append, length_bigEndian] at hlength
  simp only [length_bigEndian] at hname' hvl hval' hrest
  have hslice₁ := @slice_of_drop Empty _ _ _ _ hdrop (by omega)
  have hslice₂ := @slice_of_drop Empty _ _ _ _ hname' (by omega)
  have hslice₃ := @slice_of_drop Empty _ _ _ _ hvl (by omega)
  have hslice₄ := @slice_of_drop Empty _ _ _ _ hval' (by omega)
  simp only [length_bigEndian] at hslice₁ hslice₃
  have hshort : ¬(ippMaxNameLen < name.length ∨ b.length < off + 2 + name.length + 2) := by omega
  refine ⟨off + 2 + name.length + 2 + val.length, ?_, hrest⟩
  rw [readAttribute, if_neg (by omega)]
  simp only [hslice₁, bind, Except.bind, uintBE_bigEndian 2 hnl, if_neg hshort, hslice₂, hslice₃,
    uintBE_bigEndian 2 hval]
  rw [if_neg (by omega)]
  simp only [hslice₄]

/-- The loop goes through the items to the end tag behind them. -/
theorem attrLoop_items {document : Text} {items : List Item} {rounds : ℕ} {lastName : Text}
    (hdrop : b.drop off = items.flatMap Item.encode ++ ippTagEnd :: document)
    (hrounds : items.length < rounds) :
    attrLoop b rounds off attrs lastName req =
      .ok ({ req with
        jobName := keptName req.jobName ((named lastName items).take (ippMaxAttrs - attrs))
        docOffset := b.length - document.length }, false) := by
  induction items generalizing rounds off attrs lastName req with
  | nil =>
    cases rounds with
    | zero => exact absurd hrounds (Nat.not_lt_zero _)
    | succ rounds =>
      rw [flatMap_nil, nil_append] at hdrop
      have hlength := congrArg List.length hdrop
      rw [length_drop, length_cons] at hlength
      have hkept : keptName req.jobName ((named lastName []).take (ippMaxAttrs - attrs)) = req.jobName := by
        rw [named, take_nil, keptName]
        split
        · next hnil => exact hnil.symm
        · rfl
      have hoff : ((off : ℤ) + 1) = b.length - document.length := by omega
      rw [attrLoop, if_neg (by omega), byteAt_of_drop hdrop, hkept, ← hoff]
      rfl
  | cons item rest ih =>
    cases rounds with
    | zero => exact absurd hrounds (Nat.not_lt_zero _)
    | succ rounds =>
      rw [flatMap_cons] at hdrop
      have hrest : rest.length < rounds := Nat.lt_of_succ_lt_succ hrounds
      cases item with
      | group tag hlt hne =>
        have hbehind : b.drop (off + 1) = _ := @drop_behind b [tag] _ off hdrop
        have hlength := congrArg List.length hdrop
        simp only [Item.encode, length_drop, length_append, length_singleton] at hlength
        rw [attrLoop, if_neg (by omega), byteAt_of_drop hdrop]
        simp only [bind, Except.bind]
        rw [if_neg hne, if_pos hlt, ih hbehind hrest, named]
      | entry a =>
        have htag : ¬ a.tag < 0x10 := UInt8.not_lt.mpr a.tag_ge
        have hne : a.tag ≠ ippTagEnd := by
          intro heq
          exact htag (heq ▸ by decide)
        simp only [Item.encode, attr, nil_append, cons_append, append_assoc] at hdrop
        have hlength := congrArg List.length hdrop
        rw [length_drop, length_cons] at hlength
        have hbehind : b.drop (off + 1) = _ := @drop_behind b [a.tag] _ off hdrop
        rcases readAttribute_of_drop a.name_le a.value_lt hbehind with ⟨next, hread, hnext⟩
        have hreq := inspect_eq (attrs + 1) a.tag (if a.name = [] then lastName else a.name) a.value req
        rcases keptName_inspect hreq (named (if a.name = [] then lastName else a.name) rest) with
          ⟨hsame, hkept⟩
        rw [attrLoop, if_neg (by omega), byteAt_of_drop hdrop]
        simp only [bind, Except.bind]
        rw [if_neg hne, if_neg htag, hread]
        simp only [hreq]
        rw [ih hnext hrest, hkept, hsame, named]

theorem length_le_flatMap_encode (items : List Item) : items.length ≤ (items.flatMap Item.encode).length := by
  induction items with
  | nil => exact Nat.le_refl 0
  | cons item rest ih =>
    have hpos : 0 < item.encode.length := by
      cases item with
      | group tag _ _ => exact Nat.one_pos
      | entry a => exact Nat.succ_pos _
    rw [flatMap_cons, length_append, length_cons]
    omega

theorem parseIPP_encode (r : Request) :
    parseIPP r.encode =
      .ok (⟨r.major, r.minor, r.operation.toNat, r.requestID.toNat, r.jobName, r.front.length + 1⟩,
        false) := by
  have hencode : r.encode = [r.major, r.minor] ++ (bigEndian 2 r.operation.toNat ++
      (bigEndian 4 r.requestID.toNat ++ (r.items.flatMap Item.encode ++ ippTagEnd :: r.document))) := by
    simp [Request.encode, Request.front]
  have hstart : r.encode.drop 0 = _ := hencode
  have hop := drop_behind hstart
  have hid := drop_behind hop
  have hitems := drop_behind hid
  simp only [length_bigEndian, length_cons, length_nil] at hop hid hitems
  have hlength := congrArg List.length hencode
  simp only [length_append, length_cons, length_bigEndian] at hlength
  have hrounds := length_le_flatMap_encode r.items
  have hmajor : (byteAt _ 0 : Result Empty UInt8) = .ok r.major := byteAt_of_drop (i := 0) hstart
  have hminor : (byteAt _ 1 : Result Empty UInt8) = .ok r.minor :=
    byteAt_of_drop (i := 1) (@drop_behind _ [r.major] _ 0 hstart)
  have hslice₁ := @slice_of_drop Empty _ _ _ _ hop (by omega)
  have hslice₂ := @slice_of_drop Empty _ _ _ _ hid (by omega)
  simp only [length_bigEndian, Nat.reduceAdd, Nat.cast_ofNat] at hslice₁ hslice₂
  have hoff : ((r.encode.length : ℤ) - r.document.length) = r.front.length + 1 := by
    rw [Request.encode, length_append, length_cons]
    omega
  have hversion : ¬ supported r.major r.minor = false := by simp [r.version]
  rw [parseIPP, if_neg (by omega)]
  simp only [bind, Except.bind, hmajor, hminor, if_neg hversion, hslice₁, hslice₂,
    uintBE_bigEndian 2 r.operation.toNat_lt, uintBE_bigEndian 4 r.requestID.toNat_lt]
  rw [attrLoop_items hitems (by omega), hoff]
  rfl

/-! ## Arbitrary bytes -/

/-- No document, or one that starts within the input. -/
def Within (b : Text) (out : IppRequest × Bool) : Prop :=
  out.1.docOffset = -1 ∨ 0 ≤ out.1.docOffset ∧ out.1.docOffset ≤ b.length

theorem yields_readAttribute (b : Text) (off : ℕ) : Yields (readAttribute b off) fun _ ↦ True := by
  refine Yields.ite (fun _ ↦ trivial) fun hfits ↦ ?_
  refine Yields.bind (yields_slice (by omega) (by omega) (by omega)) fun bytes hbytes ↦ ?_
  refine Yields.bind (yields_uintBE (by omega)) fun nl _ ↦ ?_
  refine Yields.ite (fun _ ↦ trivial) fun hname ↦ ?_
  refine Yields.bind (yields_slice (by omega) (by omega) (by omega)) fun name _ ↦ ?_
  refine Yields.bind (yields_slice (by omega) (by omega) (by omega)) fun bytes hbytes ↦ ?_
  refine Yields.bind (yields_uintBE (by omega)) fun vl _ ↦ ?_
  refine Yields.ite (fun _ ↦ trivial) fun hvalue ↦ ?_
  exact Yields.bind (yields_slice (by omega) (by omega) (by omega)) fun _ _ ↦ trivial

theorem yields_attrLoop {rounds : ℕ} {lastName : Text} (hreq : req.docOffset = -1) :
    Yields (attrLoop b rounds off attrs lastName req) (Within b) := by
  induction rounds generalizing off attrs lastName req with
  | zero => exact .inl hreq
  | succ rounds ih =>
    refine Yields.ite (fun _ ↦ .inl hreq) fun hoff ↦ ?_
    refine Yields.bind (yields_byteAt (by omega) (by omega)) fun tag _ ↦ ?_
    refine Yields.ite (fun _ ↦ .inr ?_) fun _ ↦ ?_
    · dsimp only
      omega
    refine Yields.ite (fun _ ↦ ih hreq) fun _ ↦ ?_
    refine (yields_readAttribute b _).bind fun found _ ↦ ?_
    cases found with
    | none => exact .inl hreq
    | some found =>
      refine Yields.bind (P := fun req ↦ req.docOffset = -1) ?_ fun req hkept ↦ ih hkept
      rw [inspect_eq]
      simp [Yields, apply_ite, hreq]

theorem yields_parseIPP (b : Text) : Yields (parseIPP b) (Within b) := by
  refine Yields.ite (fun _ ↦ .inl rfl) fun hlong ↦ ?_
  refine Yields.bind (yields_byteAt (by omega) (by omega)) fun major _ ↦ ?_
  refine Yields.bind (yields_byteAt (by omega) (by omega)) fun minor _ ↦ ?_
  refine Yields.ite (fun _ ↦ .inl rfl) fun _ ↦ ?_
  refine Yields.bind (yields_slice (by omega) (by omega) (by omega)) fun bytes hbytes ↦ ?_
  refine Yields.bind (yields_uintBE (by omega)) fun operation _ ↦ ?_
  refine Yields.bind (yields_slice (by omega) (by omega) (by omega)) fun bytes hbytes ↦ ?_
  refine Yields.bind (yields_uintBE (by omega)) fun requestID _ ↦ ?_
  exact yields_attrLoop rfl

end RanHoneypot.Trap.Ipp
