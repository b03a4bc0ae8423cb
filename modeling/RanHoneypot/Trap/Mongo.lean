import RanHoneypot.Trap.BsonWriter

/-!
# MongoDB messages

A message is a header of sixteen bytes and a body. The trap finds the command document in the body of an
OP_MSG, which is a chain of sections, or of a legacy OP_QUERY, and takes the command and the fields of an
authentication from its first elements. Its replies are framed the same way.

Two results: whatever a client sends, parsing stays inside of the bytes and the elements that are visited
tile the document; and what the trap writes, its own reader reads back.
-/

namespace RanHoneypot.Trap.Mongo

open GoText ByteNumbers GoSlice List

/-! ## Messages -/

variable (w : IntWidth) (req : MongoRequest)

variable {doc : Text} (e : BsonElem) {body : Text} (h : MongoHeader)

def maxMongoMessage : ℕ := 64 * 1024

def mongoHeaderLen : ℕ := 16

def maxMongoNamespace : ℕ := 256

def mongoOpReply : Int32 := 1

def mongoOpQuery : Int32 := 2004

def mongoOpMsg : Int32 := 2013

def mongoMsgChecksum : UInt32 := 1

def mongoMsgMoreToCome : UInt32 := 2

structure MongoHeader where
  length : ℕ
  requestID : Int32
  responseTo : Int32
  opCode : Int32
deriving DecidableEq

/-- `int32(binary.LittleEndian.Uint32(s))` of four bytes. -/
def int32LE (s : Text) : Int32 := (UInt32.ofNat (leValue s)).toInt32

/-- Reads a message from a connection that still delivers `s`: its header, its body and what follows. -/
def readMongoMessage (s : Text) : Result MongoError ((MongoHeader × Text) × Text) :=
  if s.isEmpty then fail .eof
  else if s.length < mongoHeaderLen then fail .unexpectedEOF
  else
    match fitsInt w (leValue (s.take 4)) with
    | none => fail .length
    | some n =>
      if maxMongoMessage < n then fail .length
      else if n < mongoHeaderLen then fail .malformed
      else
        let rest := s.drop mongoHeaderLen
        let body := rest.take (n - mongoHeaderLen)
        if body.length ≠ n - mongoHeaderLen then fail .unexpectedEOF
        else
          .ok ((⟨n, int32LE ((s.drop 4).take 4), int32LE ((s.drop 8).take 4),
            int32LE ((s.drop 12).take 4)⟩, body), rest.drop (n - mongoHeaderLen))

/-! ## Values -/

def bsonString : Result MongoError (Option Text) :=
  if e.typ ≠ 0x02 ∨ e.val.length < 5 then .ok none
  else do
    let s ← slice e.val 4 (e.val.length - 1)
    .ok (some s)

def bsonBinary : Result MongoError (Option Text) :=
  if e.typ = 0x05 then
    if e.val.length < 5 then .ok none
    else do
      let data ← sliceFrom e.val 5
      .ok (some data)
  else if e.typ = 0x02 then bsonString e
  else .ok none

/-! ## Requests -/

structure MongoRequest where
  opCode : Int32
  command : Text := []
  db : Text := []
  mechanism : Text := []
  user : Text := []
  payload : Text := []
  noReply : Bool := false
deriving DecidableEq

/-- A section of an OP_MSG: the command document if it is one, and what follows the section. -/
def sectionStep (rest : Text) : Result MongoError (Option Text × Text) := do
  let kind ← byteAt rest 0
  let rest ← sliceFrom rest 1
  if rest.length < 4 then fail .malformed
  else
    let raw ← uint32LE rest
    match fitsInt w raw with
    | none => fail .malformed
    | some size =>
      if size < 4 ∨ rest.length < size then fail .malformed
      else if kind = 0 then
        let doc ← slice rest 0 size
        let rest ← sliceFrom rest size
        .ok (some doc, rest)
      else if kind = 1 then
        let rest ← sliceFrom rest size
        .ok (none, rest)
      else fail .malformed

/-- The loop over the sections, which ends with the first command document. Each section is shorter than
what it is taken from, so the number of bytes bounds the rounds. -/
def sectionLoop (w : IntWidth) : ℕ → Text → Result MongoError (Option Text)
  | 0, _ => .ok none
  | fuel + 1, rest =>
    if rest.isEmpty then .ok none
    else do
      let (doc, rest) ← sectionStep w rest
      match doc with
      | some doc => .ok (some doc)
      | none => sectionLoop w fuel rest

/-- The sections of an OP_MSG, in front of the checksum if there is one. -/
def msgSections (flags : UInt32) (rest : Text) : Result MongoError Text :=
  if flags &&& mongoMsgChecksum ≠ 0 then
    if rest.length < 4 then fail .malformed else slice rest 0 (w.wrap (rest.length - 4))
  else .ok rest

/-- The case of an OP_MSG: whether no reply is wanted, and the command document. -/
def parseMsg (body : Text) : Result MongoError (Bool × Text) :=
  if body.length < 4 then fail .malformed
  else do
    let flags := UInt32.ofNat (← uint32LE body)
    if flags &&& 0xFFFF &&& ~~~(mongoMsgChecksum ||| mongoMsgMoreToCome) ≠ 0 then fail .malformed
    else
      let rest ← sliceFrom body 4
      let rest ← msgSections w flags rest
      match ← sectionLoop w rest.length rest with
      | none => fail .malformed
      | some doc => .ok (flags &&& mongoMsgMoreToCome != 0, doc)

/-- The case of an OP_QUERY: the collection and the document. -/
def parseQuery (body : Text) : Result MongoError (Text × Text) :=
  if body.length < 4 then fail .malformed
  else do
    let rest ← sliceFrom body 4
    match indexByte 0 rest with
    | none => fail .malformed
    | some i =>
      if maxMongoNamespace < i then fail .malformed
      else
        let ns ← slice rest 0 i
        let rest ← sliceFrom rest (w.wrap (i + 1))
        if rest.length < 8 then fail .malformed
        else
          let doc ← sliceFrom rest 8
          .ok (ns, doc)

/-- `strings.CutSuffix` -/
def cutSuffix (suffix s : Text) : Option Text :=
  if suffix.isSuffixOf s then some (s.take (s.length - suffix.length)) else none

/-- The visitor for the elements behind the first one. -/
def visitField : Result MongoError MongoRequest :=
  if e.key = Utf8.ofText "$db" then do
    let s ← bsonString e
    .ok { req with db := s.getD req.db }
  else if e.key = Utf8.ofText "mechanism" then do
    let s ← bsonString e
    .ok { req with mechanism := s.getD req.mechanism }
  else if e.key = Utf8.ofText "user" then do
    let s ← bsonString e
    .ok { req with user := s.getD req.user }
  else if e.key = Utf8.ofText "payload" then do
    let b ← bsonBinary e
    .ok { req with payload := b.getD req.payload }
  else .ok req

def visitFields (req : MongoRequest) : List BsonElem → Result MongoError MongoRequest
  | [] => .ok req
  | e :: es => do
    let req ← visitField req e
    visitFields req es

/-- The command document: the first key is the command. The visitor takes every element. -/
def commandOf (doc : Text) : Result MongoError MongoRequest :=
  let walk := bsonWalk w doc everyElement
  match walk.visited, walk.failure with
  | [], none => fail .malformed
  | [], some failure => .error failure
  | e :: es, failure => do
    let req ← visitFields { req with command := e.key } es
    match failure with
    | none => .ok req
    | some failure => .error failure

def parseMongoMessage (body : Text) : Result MongoError MongoRequest :=
  let req : MongoRequest := { opCode := h.opCode }
  if h.opCode = mongoOpMsg then do
    let (noReply, doc) ← parseMsg w body
    commandOf w { req with noReply } doc
  else if h.opCode = mongoOpQuery then do
    let (ns, doc) ← parseQuery w body
    match cutSuffix (Utf8.ofText ".$cmd") ns with
    | none =>
      .ok { req with command := Utf8.ofText "query", db := ((cut (ch '.') ns).map Prod.fst).getD ns }
    | some db => commandOf w { req with db } doc
  else fail .unsupported

/-! ## Replies -/

def replyPayload (doc : Text) : Text :=
  if req.opCode = mongoOpQuery then
    littleEndian 4 8 ++ littleEndian 8 0 ++ littleEndian 4 0 ++ littleEndian 4 1 ++ doc
  else littleEndian 4 0 ++ [0] ++ doc

def replyOp : Int32 := if req.opCode = mongoOpQuery then mongoOpReply else mongoOpMsg

def mongoReply (respID : Int32) (doc : Text) : Text :=
  let payload := replyPayload req doc
  littleEndian 4 (mongoHeaderLen + payload.length) ++ littleEndian 4 respID.toUInt32.toNat ++
    littleEndian 4 h.requestID.toUInt32.toNat ++ littleEndian 4 (replyOp req).toUInt32.toNat ++ payload

/-! ## Parsing does not panic -/

theorem bsonString_ok : ∃ s, bsonString e = .ok s := by
  unfold bsonString
  split
  · exact ⟨none, rfl⟩
  · next hlong =>
    rw [slice, if_pos ⟨by omega, by omega, by omega⟩]
    exact ⟨_, rfl⟩

theorem bsonBinary_ok : ∃ b, bsonBinary e = .ok b := by
  unfold bsonBinary
  split
  · split
    · exact ⟨none, rfl⟩
    · rw [sliceFrom, if_pos ⟨by omega, by omega⟩]
      exact ⟨_, rfl⟩
  · split
    · exact bsonString_ok e
    · exact ⟨none, rfl⟩

theorem visitField_ok : ∃ out, visitField req e = .ok out ∧ out.command = req.command := by
  rcases bsonString_ok e with ⟨s, hs⟩
  rcases bsonBinary_ok e with ⟨b, hb⟩
  simp only [visitField, hs, hb, bind]
  repeat' split
  all_goals exact ⟨_, rfl, rfl⟩

/-- The elements behind the first one are all accepted and leave the command as it is. -/
theorem visitFields_ok (es : List BsonElem) :
    ∃ out, visitFields req es = .ok out ∧ out.command = req.command := by
  induction es generalizing req with
  | nil => exact ⟨req, rfl, rfl⟩
  | cons e es ih =>
    rcases visitField_ok req e with ⟨next, hnext, hcommand⟩
    rcases ih next with ⟨out, hout, hsame⟩
    refine ⟨out, ?_, hsame.trans hcommand⟩
    rw [visitFields, hnext]
    exact hout

theorem yields_commandOf (hdoc : doc.length ≤ w.maxInt) :
    Yields (commandOf w req doc) fun _ ↦ True := by
  have hwalk := (bsonWalk_tiles w everyElement hdoc).1
  unfold commandOf
  generalize bsonWalk w doc everyElement = walk at hwalk
  rcases walk with ⟨visited, stopped, failure⟩
  have hfailure : ∀ f, failure = some f →
      Yields (.error f : Result MongoError MongoRequest) fun _ ↦ True := by
    intro f hf
    cases f with
    | panic => exact absurd hf hwalk
    | error e => trivial
  cases visited with
  | nil =>
    cases failure with
    | none => trivial
    | some f => exact hfailure f rfl
  | cons e es =>
    rcases visitFields_ok { req with command := e.key } es with ⟨out, hout, _⟩
    simp only [hout, bind]
    cases failure with
    | none => trivial
    | some f => exact hfailure f rfl

/-- A section takes at least five bytes, and its document lies in it. -/
theorem yields_sectionStep {rest : Text} (hrest : rest ≠ []) :
    Yields (sectionStep w rest) fun (doc, behind) ↦ behind.length + 5 ≤ rest.length ∧
      ∀ d, doc = some d → d.length ≤ rest.length := by
  have hpos : 0 < rest.length := length_pos_of_ne_nil hrest
  refine Yields.bind (P := fun _ ↦ True) ?_ fun kind _ ↦ ?_
  · rw [byteAt, if_pos ⟨Int.le_refl _, by omega⟩]
    trivial
  refine Yields.bind (yields_sliceFrom (by omega) (by omega)) fun tail htail ↦ ?_
  refine Yields.ite (fun _ ↦ yields_fail ..) fun hlong ↦ ?_
  refine Yields.bind (yields_uint32LE (by omega)) fun raw _ ↦ ?_
  rcases fitsInt_cases w raw with ⟨hfits, _⟩ | ⟨hfits, _⟩
  · rw [hfits]
    exact yields_fail ..
  rw [hfits]
  refine Yields.ite (fun _ ↦ yields_fail ..) fun hsize ↦ ?_
  refine Yields.ite (fun _ ↦ ?_) fun _ ↦ Yields.ite (fun _ ↦ ?_) fun _ ↦ yields_fail ..
  · refine Yields.bind (yields_slice (by omega) (by omega) (by omega)) fun doc hdoc ↦ ?_
    refine Yields.bind (yields_sliceFrom (by omega) (by omega)) fun behind hbehind ↦ ⟨by omega, ?_⟩
    intro d hd
    rw [← Option.some.inj hd]
    omega
  · exact Yields.bind (yields_sliceFrom (by omega) (by omega)) fun behind hbehind ↦
      ⟨by omega, fun d hd ↦ by cases hd⟩

theorem yields_sectionLoop (fuel : ℕ) (rest : Text) :
    Yields (sectionLoop w fuel rest) fun doc ↦ ∀ d, doc = some d → d.length ≤ rest.length := by
  induction fuel generalizing rest with
  | zero => exact fun d hd ↦ by cases hd
  | succ fuel ih =>
    refine Yields.ite (fun _ d hd ↦ by cases hd) fun hrest ↦ ?_
    have hne : rest ≠ [] := by simpa using hrest
    refine (yields_sectionStep w hne).bind fun (doc, behind) ⟨hbehind, hdoc⟩ ↦ ?_
    cases doc with
    | some d => exact hdoc
    | none =>
      refine (ih behind).mono fun out hout d hd ↦ ?_
      have hle := hout d hd
      omega

theorem yields_msgSections (flags : UInt32) {rest : Text} (hrest : rest.length ≤ w.maxInt) :
    Yields (msgSections w flags rest) fun sections ↦ sections.length ≤ rest.length := by
  refine Yields.ite (fun _ ↦ Yields.ite (fun _ ↦ yields_fail ..) fun hlong ↦ ?_) fun _ ↦ le_rfl
  rw [IntWidth.wrap_eq (by omega) (by omega)]
  exact (yields_slice (by omega) (by omega) (by omega)).mono fun part hpart ↦ by omega

/-- The command document of an OP_MSG is a part of the body. -/
theorem yields_parseMsg (hbody : body.length ≤ w.maxInt) :
    Yields (parseMsg w body) fun out ↦ out.2.length ≤ body.length := by
  refine Yields.ite (fun _ ↦ yields_fail ..) fun hlong ↦ ?_
  refine Yields.bind (yields_uint32LE (by omega)) fun raw _ ↦ ?_
  refine Yields.ite (fun _ ↦ yields_fail ..) fun _ ↦ ?_
  refine Yields.bind (yields_sliceFrom (by omega) (by omega)) fun rest hrest ↦ ?_
  refine Yields.bind (yields_msgSections w _ (by omega)) fun sections hsections ↦ ?_
  refine Yields.bind (yields_sectionLoop w ..) fun doc hdoc ↦ ?_
  cases doc with
  | none => exact yields_fail ..
  | some d =>
    have hd : d.length ≤ sections.length := hdoc d rfl
    show d.length ≤ body.length
    omega

theorem yields_parseQuery (hbody : body.length ≤ w.maxInt) :
    Yields (parseQuery w body) fun out ↦ out.2.length ≤ body.length := by
  refine Yields.ite (fun _ ↦ yields_fail ..) fun hlong ↦ ?_
  refine Yields.bind (yields_sliceFrom (by omega) (by omega)) fun rest hrest ↦ ?_
  rcases indexByte_cases 0 rest with hnone | ⟨ns, behind, hsplit, _, hindex⟩
  · rw [hnone]
    exact yields_fail ..
  rw [hindex]
  have hlength : rest.length = ns.length + (behind.length + 1) := by
    rw [hsplit, length_append, length_cons]
  refine Yields.ite (fun _ ↦ yields_fail ..) fun _ ↦ ?_
  refine Yields.bind (yields_slice (by omega) (by omega) (by omega)) fun _ _ ↦ ?_
  rw [IntWidth.wrap_eq (by omega) (by omega)]
  refine Yields.bind (yields_sliceFrom (by omega) (by omega)) fun tail htail ↦ ?_
  refine Yields.ite (fun _ ↦ yields_fail ..) fun _ ↦ ?_
  refine Yields.bind (yields_sliceFrom (by omega) (by omega)) fun doc hdoc ↦ ?_
  show doc.length ≤ body.length
  omega

theorem yields_parseMongoMessage (hbody : body.length ≤ w.maxInt) :
    Yields (parseMongoMessage w h body) fun _ ↦ True := by
  refine Yields.ite (fun _ ↦ ?_) fun _ ↦ Yields.ite (fun _ ↦ ?_) fun _ ↦ yields_fail ..
  · refine Yields.bind (yields_parseMsg w hbody) fun out hout ↦ ?_
    exact yields_commandOf w _ (by omega)
  · refine Yields.bind (yields_parseQuery w hbody) fun out hout ↦ ?_
    rcases out with ⟨ns, doc⟩
    have hdoc : doc.length ≤ w.maxInt := hout.trans hbody
    simp only
    split
    · trivial
    · exact yields_commandOf w _ hdoc

/-- On any bytes, parsing keeps to the bytes that are there, and the elements of a walk that is neither cut
short nor stopped are, with the length before them and the NUL behind, what the length announces. -/
theorem parsing_safe_and_exact (w : IntWidth) (h : MongoHeader) (body doc : Text)
    (fn : List BsonElem → Bool) (hbody : body.length ≤ w.maxInt) (hdoc : doc.length ≤ w.maxInt) :
    parseMongoMessage w h body ≠ .error .panic ∧
      (bsonWalk w doc fn).failure ≠ some .panic ∧
        ((bsonWalk w doc fn).failure = none → (bsonWalk w doc fn).stopped = false →
          (bsonWalk w doc fn).visited.length < maxBSONElements →
            doc.take (leValue (doc.take 4)) =
              doc.take 4 ++ (bsonWalk w doc fn).visited.flatMap BsonElem.encode ++ [0]) :=
  ⟨(yields_parseMongoMessage w h hbody).ne_panic, bsonWalk_tiles w fn hdoc⟩

/-- A document with one element, in a message and on its own. -/
theorem parsing_safe_and_exact_flag :
    parseMongoMessage .bits32 ⟨30, 1, 0, mongoOpMsg⟩ [0, 0, 0, 0, 0, 9, 0, 0, 0, 8, 97, 0, 1, 0] ≠
        .error .panic ∧
      bsonWalk .bits32 [9, 0, 0, 0, 8, 97, 0, 1, 0] everyElement = ⟨[⟨8, [97], [1]⟩], false, none⟩ ∧
        ([9, 0, 0, 0, 8, 97, 0, 1, 0] : Text).take 9 =
          [9, 0, 0, 0] ++ [(⟨8, [97], [1]⟩ : BsonElem)].flatMap BsonElem.encode ++ [0] := by
  have hresult := parsing_safe_and_exact .bits32 ⟨30, 1, 0, mongoOpMsg⟩
    [0, 0, 0, 0, 0, 9, 0, 0, 0, 8, 97, 0, 1, 0] [9, 0, 0, 0, 8, 97, 0, 1, 0] everyElement (by decide)
    (by decide)
  have hwalk : bsonWalk .bits32 [9, 0, 0, 0, 8, 97, 0, 1, 0] everyElement =
      ⟨[⟨8, [97], [1]⟩], false, none⟩ := by
    decide +kernel
  exact ⟨hresult.1, hwalk, hresult.2.2 rfl rfl (by decide)⟩

/-! ## Replies are read back -/

theorem int32LE_littleEndian (v : Int32) : int32LE (littleEndian 4 v.toUInt32.toNat) = v := by
  have hlt : v.toUInt32.toNat < 256 ^ 4 := v.toUInt32.toNat_lt
  rw [int32LE, leValue_littleEndian, Nat.mod_eq_of_lt hlt, UInt32.ofNat_toNat, Int32.toInt32_toUInt32]

/-- A frame whose length is right is taken from the connection. -/
theorem readMongoMessage_frame {length requestID responseTo opCode : Text} (payload rest : Text)
    (hlength : length.length = 4) (hrequestID : requestID.length = 4)
    (hresponseTo : responseTo.length = 4) (hopCode : opCode.length = 4)
    (hvalue : leValue length = mongoHeaderLen + payload.length)
    (hsize : mongoHeaderLen + payload.length ≤ maxMongoMessage) :
    readMongoMessage w (length ++ (requestID ++ (responseTo ++ (opCode ++ (payload ++ rest))))) =
      .ok ((⟨mongoHeaderLen + payload.length, int32LE requestID, int32LE responseTo, int32LE opCode⟩,
        payload), rest) := by
  generalize hform : length ++ (requestID ++ (responseTo ++ (opCode ++ (payload ++ rest)))) = s
  have htotal : s.length = mongoHeaderLen + payload.length + rest.length := by
    rw [← hform]
    simp only [length_append, mongoHeaderLen]
    omega
  have hdrop4 : s.drop 4 = requestID ++ (responseTo ++ (opCode ++ (payload ++ rest))) := by
    rw [← hform, drop_left' hlength]
  have hdrop8 : s.drop 8 = responseTo ++ (opCode ++ (payload ++ rest)) := by
    rw [← drop_drop (i := 4) (j := 4), hdrop4, drop_left' hrequestID]
  have hdrop12 : s.drop 12 = opCode ++ (payload ++ rest) := by
    rw [← drop_drop (i := 4) (j := 8), hdrop8, drop_left' hresponseTo]
  have hbody : s.drop mongoHeaderLen = payload ++ rest := by
    rw [mongoHeaderLen, ← drop_drop (i := 4) (j := 12), hdrop12, drop_left' hopCode]
  have hfits : fitsInt w (leValue (s.take 4)) = some (mongoHeaderLen + payload.length) := by
    rw [← hform, take_left' hlength, hvalue]
    exact fitsInt_of_le (Nat.lt_of_le_of_lt hsize (by decide))
  have hrest : mongoHeaderLen + payload.length - mongoHeaderLen = payload.length :=
    Nat.add_sub_cancel_left ..
  have hempty : ¬ s.isEmpty = true := by
    rw [isEmpty_iff_length_eq_zero, htotal, mongoHeaderLen]
    omega
  rw [readMongoMessage, if_neg hempty, if_neg (by omega), hfits]
  simp only [if_neg (not_lt.mpr hsize), if_neg (not_lt.mpr (Nat.le_add_right ..)), hrest, hbody,
    take_left, drop_left, hdrop4, hdrop8, hdrop12, take_left' hrequestID,
    take_left' hresponseTo, take_left' hopCode]
  rw [if_neg (by simp)]

theorem readMongoMessage_mongoReply (respID : Int32) (doc rest : Text)
    (hsize : (mongoReply req h respID doc).length ≤ maxMongoMessage) :
    readMongoMessage w (mongoReply req h respID doc ++ rest) =
      .ok ((⟨(mongoReply req h respID doc).length, respID, h.requestID, replyOp req⟩,
        replyPayload req doc), rest) := by
  have hlength : (mongoReply req h respID doc).length =
      mongoHeaderLen + (replyPayload req doc).length := by
    simp only [mongoReply, length_append]
    rfl
  rw [hlength] at hsize ⊢
  have hlt : mongoHeaderLen + (replyPayload ..).length < 256 ^ 4 :=
    Nat.lt_of_le_of_lt hsize (by decide)
  have hframe := readMongoMessage_frame w (replyPayload ..) rest
    (length_littleEndian 4 _)
    (length_littleEndian 4 respID.toUInt32.toNat) (length_littleEndian 4 h.requestID.toUInt32.toNat)
    (length_littleEndian 4 (replyOp req).toUInt32.toNat)
    (by rw [leValue_littleEndian, Nat.mod_eq_of_lt hlt]) hsize
  rw [int32LE_littleEndian, int32LE_littleEndian, int32LE_littleEndian] at hframe
  exact hframe

section

variable (hlength : 4 ≤ doc.length) (hmax : doc.length ≤ w.maxInt)
  (hdoc : leValue (doc.take 4) = doc.length)

include hlength hmax hdoc

/-- A section of kind zero is the command document if it announces its own length. -/
theorem sectionStep_document : sectionStep w (0 :: doc) = .ok (some doc, []) := by
  have hkind : (byteAt (0 :: doc) 0 : Result MongoError UInt8) = .ok 0 := byteAt_front [] 0 doc
  have htail : (sliceFrom (0 :: doc) 1 : Result MongoError Text) = .ok doc := sliceFrom_front [0] doc
  have hfits : fitsInt w doc.length = some doc.length := by
    rw [fitsInt, if_neg (by omega)]
  have hslice := @slice_front MongoError doc []
  have hrest := @sliceFrom_front MongoError doc []
  rw [append_nil] at hslice hrest
  unfold sectionStep
  simp only [hkind, htail, bind, Except.bind]
  rw [if_neg (by omega), uint32LE_of_le hlength, hdoc]
  simp only [hfits]
  rw [if_neg (by omega), if_pos trivial, hslice, hrest]

theorem parseMsg_reply : parseMsg w (littleEndian 4 0 ++ [0] ++ doc) = .ok (false, doc) := by
  have hbody : littleEndian 4 0 ++ [0] ++ doc = [0, 0, 0, 0] ++ 0 :: doc := rfl
  have hflags : (uint32LE ([0, 0, 0, 0] ++ 0 :: doc) : Result MongoError ℕ) = .ok 0 := rfl
  have hrest : (sliceFrom _ 4 : Result MongoError Text) = .ok (0 :: doc) :=
    sliceFrom_front [0, 0, 0, 0] _
  have hloop : sectionLoop w (0 :: doc).length (0 :: doc) = .ok (some doc) := by
    rw [length_cons, sectionLoop, sectionStep_document w hlength hmax hdoc]
    rfl
  rw [hbody, parseMsg, if_neg (by simp), hflags]
  simp only [bind, Except.bind]
  rw [if_neg (by decide), hrest]
  simp only [msgSections]
  rw [if_neg (by decide)]
  simp only [hloop]
  rfl

end

theorem commandOf_build (f : BsonField) (fs : List BsonField)
    (hkeys : ∀ g ∈ f :: fs, 0 ∉ g.elem.key) (hcount : (f :: fs).length ≤ maxBSONElements)
    (hlength : (build (f :: fs)).bytes.length < 2 ^ 32)
    (hmax : (build (f :: fs)).bytes.length ≤ w.maxInt) :
    ∃ parsed, commandOf w req (build (f :: fs)).bytes = .ok parsed ∧ parsed.command = f.elem.key := by
  have hwalk := bsonWalk_build w (f :: fs) hkeys hcount hlength hmax
  rcases visitFields_ok { req with command := f.elem.key } (fs.map BsonField.elem) with ⟨out, hout, hcommand⟩
  refine ⟨out, ?_, hcommand⟩
  simp only [commandOf, hwalk, map_cons, hout, bind, Except.bind]

/-- The reader and the writer agree: the walk over a document visits the fields that it was built from, and
a reply with it is read back with its header, and its first key as the command. -/
theorem writer_read_back (w : IntWidth) (fields : List BsonField) (hkeys : ∀ f ∈ fields, 0 ∉ f.elem.key)
    (hcount : fields.length ≤ maxBSONElements) (hlength : (build fields).bytes.length < 2 ^ 32)
    (hmax : (build fields).bytes.length ≤ w.maxInt) :
    bsonWalk w (build fields).bytes everyElement = ⟨fields.map BsonField.elem, false, none⟩ ∧
      ∀ (f : BsonField) (fs : List BsonField), fields = f :: fs →
        ∀ (req : MongoRequest) (h : MongoHeader) (respID : Int32) (rest : Text),
          (mongoReply req h respID (build fields).bytes).length ≤ maxMongoMessage →
            ∃ (header : MongoHeader) (body : Text),
              readMongoMessage w (mongoReply req h respID (build fields).bytes ++ rest) =
                  .ok ((header, body), rest) ∧
                header = ⟨(mongoReply req h respID (build fields).bytes).length, respID, h.requestID,
                  if req.opCode = mongoOpQuery then mongoOpReply else mongoOpMsg⟩ ∧
                (req.opCode ≠ mongoOpQuery → ∃ parsed, parseMongoMessage w header body = .ok parsed ∧
                  parsed.command = f.elem.key) := by
  refine ⟨bsonWalk_build w _ hkeys hcount hlength hmax, ?_⟩
  intro f fs hfields req h respID rest hsize
  subst hfields
  refine ⟨_, _, readMongoMessage_mongoReply w _ h _ _ _ hsize, rfl, ?_⟩
  intro hquery
  have hpayload : replyPayload req (build (f :: fs)).bytes =
      littleEndian 4 0 ++ [0] ++ (build (f :: fs)).bytes := if_neg hquery
  have hop : replyOp req = mongoOpMsg := if_neg hquery
  have hdoc : leValue ((build (f :: fs)).bytes.take 4) = (build (f :: fs)).bytes.length := by
    rw [length_bytes_build] at hlength ⊢
    rw [bytes_build, append_assoc, take_left' (length_littleEndian 4 _), leValue_littleEndian]
    exact Nat.mod_eq_of_lt (by omega)
  have hfour : 4 ≤ (build (f :: fs)).bytes.length := by
    rw [length_bytes_build]
    omega
  rw [hpayload, hop, parseMongoMessage, parseMsg_reply w hfour hmax hdoc]
  exact commandOf_build w _ f fs hkeys hcount hlength hmax

/-- The answer to a ping, as the reply to the second message of a client. -/
theorem writer_read_back_ok :
    bsonWalk .bits32 (build [.double (Utf8.ofText "ok") 0x3FF0000000000000]).bytes everyElement =
        ⟨[⟨0x01, Utf8.ofText "ok", [0, 0, 0, 0, 0, 0, 0xF0, 0x3F]⟩], false, none⟩ ∧
      ∃ (header : MongoHeader) (body : Text),
        readMongoMessage .bits32 (mongoReply { opCode := mongoOpMsg } ⟨40, 7, 0, mongoOpMsg⟩ 2
            (build [.double (Utf8.ofText "ok") 0x3FF0000000000000]).bytes ++ []) =
          .ok ((header, body), []) ∧ header.responseTo = 7 ∧
        ∃ parsed, parseMongoMessage .bits32 header body = .ok parsed ∧
          parsed.command = Utf8.ofText "ok" := by
  have hresult := writer_read_back .bits32 [.double (Utf8.ofText "ok") 0x3FF0000000000000]
    (by
      intro f hf
      rw [mem_singleton.mp hf]
      decide)
    (by decide) (by decide +kernel) (by decide +kernel)
  refine ⟨hresult.1, ?_⟩
  rcases hresult.2 _ [] rfl { opCode := mongoOpMsg } ⟨40, 7, 0, mongoOpMsg⟩ 2 [] (by decide +kernel)
    with ⟨header, body, hread, hheader, hparsed⟩
  exact ⟨header, body, hread, by rw [hheader], hparsed (by decide)⟩

/-! ## Overlong documents

The length is written modulo `2 ^ 32`. A string of `2 ^ 32 - 1` bytes announces an empty value, and its
document eleven bytes, the last of which is not NUL. -/

theorem bytes_overlong {tail : Text} (htail : tail.length = 2 ^ 32 - 2) :
    (build [.str [] (97 :: tail)]).bytes =
      [11, 0, 0, 0, 2, 0, 0, 0, 0, 0] ++ 97 :: (tail ++ [0, 0]) := by
  have hvalue : littleEndian 4 ((97 :: tail).length + 1) = [0, 0, 0, 0] := by
    rw [length_cons, htail]
    rfl
  have helements : ([BsonField.str [] (97 :: tail)].map BsonField.elem).flatMap BsonElem.encode =
      [2, 0, 0, 0, 0, 0] ++ 97 :: (tail ++ [0]) := by
    simp only [map_cons, map_nil, BsonField.elem, hvalue, flatMap_singleton]
    rfl
  have hlength : ([2, 0, 0, 0, 0, 0] ++ 97 :: (tail ++ [0]) : Text).length + 5 = 2 ^ 32 + 11 := by
    simp only [length_append, length_cons, htail]
    rfl
  have hfront : littleEndian 4 (2 ^ 32 + 11) = [11, 0, 0, 0] := rfl
  have hnul : tail ++ [0] ++ [0] = tail ++ [0, 0] := append_assoc ..
  rw [bytes_build, helements, hlength, ← hnul]
  rfl

theorem bsonWalk_overlong (tail : Text) (htail : tail.length = 2 ^ 32 - 2) :
    (build [.str [] (97 :: tail)]).bytes.length ≤ IntWidth.bits64.maxInt ∧
      bsonWalk .bits64 (build [.str [] (97 :: tail)]).bytes everyElement =
        ⟨[], false, some (.error .malformed)⟩ := by
  rw [bytes_overlong htail]
  have hlength : ([11, 0, 0, 0, 2, 0, 0, 0, 0, 0] ++ 97 :: (tail ++ [0, 0]) : Text).length =
      tail.length + 13 := by
    simp only [length_append, length_cons, length_nil]
    omega
  refine ⟨by rw [hlength, htail]; decide, ?_⟩
  generalize tail ++ [0, 0] = behind
  have hbody : documentBody .bits64 ([11, 0, 0, 0, 2, 0, 0, 0, 0, 0] ++ 97 :: behind) =
      fail .malformed := by
    have hraw : (uint32LE ([11, 0, 0, 0, 2, 0, 0, 0, 0, 0] ++ 97 :: behind) : Result MongoError ℕ) =
        .ok 11 := rfl
    have hfits : fitsInt .bits64 11 = some 11 := rfl
    have hlast : (byteAt _ 10 :
        Result MongoError UInt8) = .ok 97 := byteAt_front [11, 0, 0, 0, 2, 0, 0, 0, 0, 0] 97 behind
    have hprev : IntWidth.bits64.wrap (((11 : ℕ) : ℤ) - 1) = 10 := by decide +kernel
    rw [documentBody, if_neg (by simp), hraw]
    simp only [bind, Except.bind, hfits, hprev, hlast]
    rw [if_neg (by simp), if_pos (by decide)]
  rw [bsonWalk, hbody]
  rfl

/-- A document with a single string, which the reader refuses. -/
theorem overlong_string_refused :
    (build [.str [] (97 :: List.replicate (2 ^ 32 - 2) 97)]).bytes.length ≤ IntWidth.bits64.maxInt ∧
      bsonWalk .bits64 (build [.str [] (97 :: List.replicate (2 ^ 32 - 2) 97)]).bytes everyElement =
        ⟨[], false, some (.error .malformed)⟩ := by
  exact bsonWalk_overlong _ length_replicate

end RanHoneypot.Trap.Mongo
