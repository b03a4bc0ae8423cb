import RanHoneypot.Data.ByteNumbers
import RanHoneypot.Data.GoText

/-!
# Parsing a ClientHello

The first record of a TLS client holds its hello: what it offers in ciphers, groups, signature algorithms and
so on. Every list in it has its length in front, in one, two or three bytes, and lists stand in extensions,
these in a list of extensions, this in the hello, and the hello in the record. The parser goes down these
levels with a cursor that remembers a failed read. What it keeps of each list is bounded.

On the encoding of a hello within the bounds it returns what was encoded.
-/

namespace RanHoneypot.Trap.Tls

open GoText ByteNumbers List UInt8

def maxHelloCiphers : ℕ := 256
def maxHelloExtensions : ℕ := 128
def maxHelloCurves : ℕ := 64
def maxHelloPoints : ℕ := 16
def maxHelloSigAlgs : ℕ := 128
def maxHelloVersions : ℕ := 32
def maxHelloALPN : ℕ := 16

@[ext] structure ClientHello where
  version : UInt16
  ciphers : List UInt16
  extensions : List UInt16
  curves : List UInt16
  points : List UInt8
  sigAlgs : List UInt16
  versions : List UInt16
  alpn : List Text
  sni : Text
  hasSNI : Bool
  deriving DecidableEq

/-! ## The cursor -/

structure HelloReader where
  b : Text
  bad : Bool

namespace HelloReader

variable (r : HelloReader)

def new (b : Text) : HelloReader := ⟨b, false⟩

def take (n : ℕ) (r : HelloReader) : Text × HelloReader :=
  if r.bad ∨ r.b.length < n then ([], { r with bad := true })
  else (r.b.take n, { r with b := r.b.drop n })

def u8 : ℕ × HelloReader :=
  match r.take 1 with
  | ([v], r) => (v.toNat, r)
  | (_, r) => (0, r)

def u16 : ℕ × HelloReader :=
  match r.take 2 with
  | ([v0, v1], r) => (v0.toNat * 256 + v1.toNat, r)
  | (_, r) => (0, r)

def u24 : ℕ × HelloReader :=
  match r.take 3 with
  | ([v0, v1, v2], r) => (v0.toNat * 65536 + v1.toNat * 256 + v2.toNat, r)
  | (_, r) => (0, r)

/-- `r.take(r.u8())`. -/
def vector8 : Text × HelloReader :=
  let (n, r) := r.u8
  r.take n

/-- `r.take(r.u16())`. -/
def vector16 : Text × HelloReader :=
  let (n, r) := r.u16
  r.take n

/-- `r.take(r.u24())`. -/
def vector24 : Text × HelloReader :=
  let (n, r) := r.u24
  r.take n

end HelloReader

/-! ## The parser -/

/-- The numbers in a list of byte pairs. A single byte at the end is ignored. -/
def u16s : Text → List UInt16
  | v0 :: v1 :: rest => UInt16.ofNat (v0.toNat * 256 + v1.toNat) :: u16s rest
  | _ => []

/-- The loops that append values as long as there is room. -/
def appendCapped {β : Type*} (limit : ℕ) : List β → List β → List β
  | kept, v :: values => if kept.length < limit then appendCapped limit (kept ++ [v]) values else kept
  | kept, [] => kept

def nameLoop : ℕ → HelloReader → Text → Text
  | 0, _, sni => sni
  | rounds + 1, list, sni =>
    if 0 < list.b.length ∧ list.bad = false then
      let (nameType, list) := list.u8
      let (name, list) := list.vector16
      nameLoop rounds list (if list.bad = false ∧ nameType = 0 ∧ sni = [] then name else sni)
    else sni

def protocolLoop : ℕ → HelloReader → List Text → List Text
  | 0, _, alpn => alpn
  | rounds + 1, list, alpn =>
    if 0 < list.b.length ∧ list.bad = false ∧ alpn.length < maxHelloALPN then
      let (p, list) := list.vector8
      protocolLoop rounds list (if list.bad then alpn else alpn ++ [p])
    else alpn

def ClientHello.parseExtension (h : ClientHello) (typ : UInt16) (data : Text) : ClientHello :=
  let r := HelloReader.new data
  if typ = 0 then
    let (list, _) := r.vector16
    { h with hasSNI := true, sni := nameLoop list.length (.new list) h.sni }
  else if typ = 10 then
    let (list, _) := r.vector16
    { h with curves := appendCapped maxHelloCurves h.curves (u16s list) }
  else if typ = 11 then
    let (list, _) := r.vector8
    { h with points := appendCapped maxHelloPoints h.points list }
  else if typ = 13 then
    let (list, _) := r.vector16
    { h with sigAlgs := appendCapped maxHelloSigAlgs h.sigAlgs (u16s list) }
  else if typ = 16 then
    let (list, _) := r.vector16
    { h with alpn := protocolLoop list.length (.new list) h.alpn }
  else if typ = 43 then
    let (list, _) := r.vector8
    { h with versions := appendCapped maxHelloVersions h.versions (u16s list) }
  else h

def extensionLoop : ℕ → HelloReader → ClientHello → Option ClientHello
  | 0, _, h => some h
  | rounds + 1, r, h =>
    if 0 < r.b.length ∧ h.extensions.length < maxHelloExtensions then
      let (typ, r) := r.u16
      let (data, r) := r.vector16
      if r.bad then none
      else
        let h := { h with extensions := h.extensions ++ [UInt16.ofNat typ] }
        extensionLoop rounds r (h.parseExtension (UInt16.ofNat typ) data)
    else some h

/-- The part of `parseClientHello` that reads the hello itself. -/
def parseBody (body : Text) : Option ClientHello :=
  let (version, r) := (HelloReader.new body).u16
  let (_, r) := r.take 32
  let (_, r) := r.vector8
  let (ciphers, r) := r.vector16
  let (_, r) := r.vector8
  if r.bad then none
  else
    let h : ClientHello :=
      ⟨UInt16.ofNat version, appendCapped maxHelloCiphers [] (u16s ciphers), [], [], [], [], [], [], [], false⟩
    if r.b.length = 0 then some h
    else
      let (exts, r) := r.vector16
      if r.bad then none else extensionLoop exts.length (.new exts) h

def parseClientHello (data : Text) : Option ClientHello :=
  let (kind, r) := (HelloReader.new data).u8
  if kind ≠ 0x16 then none
  else
    let (major, r) := r.u8
    if major ≠ 3 then none
    else
      let (_, r) := r.u8
      let (record, r) := r.vector16
      if r.bad then none
      else
        let (message, r) := (HelloReader.new record).u8
        if message ≠ 1 then none
        else
          let (body, r) := r.vector24
          if r.bad then none else parseBody body

/-! ## Hellos and their encoding -/

def encode8 (text : Text) : Text := ofNat text.length :: text

def encode16 (text : Text) : Text := putUint16 text.length ++ text

def encode24 (text : Text) : Text :=
  ofNat (text.length / 65536) :: ofNat (text.length / 256) :: ofNat text.length :: text

def encodeU16s (values : List UInt16) : Text := values.flatMap fun v ↦ putUint16 v.toNat

/-- An entry of a server name list. A host name has kind 0; TLS declares it as one to 65535 bytes. -/
structure ServerName where
  kind : UInt8
  name : Text
  host_ne : kind = 0 → name ≠ []

def ServerName.encode (entry : ServerName) : Text := entry.kind :: encode16 entry.name

inductive Extension where
  | serverName (names : List ServerName)
  | supportedGroups (groups : List UInt16)
  | pointFormats (points : List UInt8)
  | signatureAlgorithms (algs : List UInt16)
  | alpn (protocols : List Text)
  | supportedVersions (versions : List UInt16)
  | other (typ : UInt16) (unread : typ ∉ [0, 10, 11, 13, 16, 43]) (body : Text)

namespace Extension

def typ : Extension → UInt16
  | serverName _ => 0
  | supportedGroups _ => 10
  | pointFormats _ => 11
  | signatureAlgorithms _ => 13
  | alpn _ => 16
  | supportedVersions _ => 43
  | other typ _ _ => typ

def body : Extension → Text
  | serverName names => encode16 (names.flatMap ServerName.encode)
  | supportedGroups groups => encode16 (encodeU16s groups)
  | pointFormats points => encode8 points
  | signatureAlgorithms algs => encode16 (encodeU16s algs)
  | alpn protocols => encode16 (protocols.flatMap encode8)
  | supportedVersions versions => encode8 (encodeU16s versions)
  | other _ _ body => body

def encode (e : Extension) : Text := putUint16 e.typ.toNat ++ encode16 e.body

@[simp] def hostNames : Extension → List Text
  | serverName names => (names.filter fun entry ↦ entry.kind = 0).map ServerName.name
  | _ => []

@[simp] def groups : Extension → List UInt16
  | supportedGroups groups => groups
  | _ => []

@[simp] def points : Extension → List UInt8
  | pointFormats points => points
  | _ => []

@[simp] def algs : Extension → List UInt16
  | signatureAlgorithms algs => algs
  | _ => []

@[simp] def protocols : Extension → List Text
  | alpn protocols => protocols
  | _ => []

@[simp] def versions : Extension → List UInt16
  | supportedVersions versions => versions
  | _ => []

@[simp] def isServerName : Extension → Bool
  | serverName _ => true
  | _ => false

end Extension

/-- The lists of the extensions are within the bounds of the parser. Where an extension is there only once,
its list is meant; several of one type share the bound. -/
structure Bounded (exts : List Extension) : Prop where
  extensions : exts.length ≤ maxHelloExtensions
  curves : (exts.flatMap Extension.groups).length ≤ maxHelloCurves
  points : (exts.flatMap Extension.points).length ≤ maxHelloPoints
  sigAlgs : (exts.flatMap Extension.algs).length ≤ maxHelloSigAlgs
  versions : (exts.flatMap Extension.versions).length ≤ maxHelloVersions
  alpn : (exts.flatMap Extension.protocols).length ≤ maxHelloALPN
  protocol : ∀ p ∈ exts.flatMap Extension.protocols, p.length < 256

/-- The body of a hello message. -/
def encodeBody (version : UInt16) (random sessionID : Text) (ciphers : List UInt16) (compression : Text)
    (extensions : Option (List Extension)) : Text :=
  putUint16 version.toNat ++ (random ++ (encode8 sessionID ++ (encode16 (encodeU16s ciphers) ++
    (encode8 compression ++ (extensions.map fun exts ↦ encode16 (exts.flatMap Extension.encode)).getD []))))

/-- A hello that fits into one record. The list of extensions may be missing altogether. -/
structure Hello where
  version : UInt16
  random : Text
  sessionID : Text
  ciphers : List UInt16
  compression : Text
  extensions : Option (List Extension)
  random_length : random.length = 32
  sessionID_length : sessionID.length < 256
  ciphers_length : ciphers.length ≤ maxHelloCiphers
  compression_length : compression.length < 256
  bounded : Bounded (extensions.getD [])
  fits : (encodeBody version random sessionID ciphers compression extensions).length + 4 < 65536

namespace Hello

def body (h : Hello) : Text :=
  encodeBody h.version h.random h.sessionID h.ciphers h.compression h.extensions

/-- The record with the message in it. The minor version of the record is free. -/
def record (h : Hello) (minor : UInt8) : Text := 0x16 :: 3 :: minor :: encode16 (1 :: encode24 h.body)

end Hello

/-- What a parser should know after these extensions. -/
def summary (version : UInt16) (ciphers : List UInt16) (exts : List Extension) : ClientHello where
  version := version
  ciphers := ciphers
  extensions := exts.map Extension.typ
  curves := exts.flatMap Extension.groups
  points := exts.flatMap Extension.points
  sigAlgs := exts.flatMap Extension.algs
  versions := exts.flatMap Extension.versions
  alpn := exts.flatMap Extension.protocols
  sni := (exts.flatMap Extension.hostNames).headD []
  hasSNI := exts.any Extension.isServerName

def Hello.summary (h : Hello) : ClientHello := Tls.summary h.version h.ciphers (h.extensions.getD [])

/-! ## Reading back what was written -/

namespace HelloReader

theorem take_append (front rest : Text) :
    (new (front ++ rest)).take front.length = (front, new rest) := by
  have hroom : ¬ ((new (front ++ rest)).bad = true ∨ (new (front ++ rest)).b.length < front.length) := by
    simp [new]
  rw [take, if_neg hroom]
  simp only [new, take_left, drop_left]

theorem u8_cons (v : UInt8) (rest : Text) : (new (v :: rest)).u8 = (v.toNat, new rest) := by
  rw [u8]
  have hread := take_append [v] rest
  rw [singleton_append, length_singleton] at hread
  rw [hread]

theorem u16_put {n : ℕ} (hn : n < 65536) (rest : Text) :
    (new (putUint16 n ++ rest)).u16 = (n, new rest) := by
  have hread : (new (putUint16 n ++ rest)).take 2 = (putUint16 n, new rest) := take_append (putUint16 n) rest
  have hvalue : (ofNat (n / 256)).toNat * 256 + (ofNat n).toNat = n := by
    rw [toNat_ofNat', toNat_ofNat']
    omega
  rw [u16, hread]
  simp only [putUint16, hvalue]

theorem vector8_encode8 {text : Text} (htext : text.length < 256) (rest : Text) :
    (new (encode8 text ++ rest)).vector8 = (text, new rest) := by
  rw [vector8, encode8, cons_append, u8_cons]
  simp only [toNat_ofNat_byte htext, take_append]

theorem vector16_encode16 {text : Text} (htext : text.length < 65536) (rest : Text) :
    (new (encode16 text ++ rest)).vector16 = (text, new rest) := by
  rw [vector16, encode16, append_assoc, u16_put htext]
  simp only [take_append]

theorem vector24_encode24 {text : Text} (htext : text.length < 65536) (rest : Text) :
    (new (encode24 text ++ rest)).vector24 = (text, new rest) := by
  have hvalue : (ofNat (text.length / 65536)).toNat * 65536 +
      (ofNat (text.length / 256)).toNat * 256 + (ofNat text.length).toNat = text.length := by
    rw [toNat_ofNat', toNat_ofNat', toNat_ofNat']
    omega
  have hread := take_append [ofNat (text.length / 65536), ofNat (text.length / 256),
    ofNat text.length] (text ++ rest)
  simp only [length_cons, length_nil, cons_append, nil_append, Nat.zero_add] at hread
  rw [vector24, u24, encode24]
  simp only [cons_append, hread, hvalue, take_append]

end HelloReader

variable (version : UInt16) (ciphers : List UInt16) (before : List Extension) {rounds : ℕ}

theorem length_encode8 (text : Text) : (encode8 text).length = text.length + 1 := rfl

theorem length_encode16 (text : Text) : (encode16 text).length = text.length + 2 := by
  rfl

theorem u16s_encodeU16s (values : List UInt16) : u16s (encodeU16s values) = values := by
  induction values with
  | nil => rfl
  | cons v values ih =>
    have hvalue : (ofNat (v.toNat / 256)).toNat * 256 + (ofNat v.toNat).toNat = v.toNat := by
      have hv := v.toNat_lt
      rw [toNat_ofNat', toNat_ofNat']
      omega
    rw [encodeU16s, flatMap_cons, putUint16, cons_append, cons_append, u16s,
      hvalue, UInt16.ofNat_toNat]
    exact congrArg _ ih

theorem length_encodeU16s (values : List UInt16) : (encodeU16s values).length = 2 * values.length := by
  induction values with
  | nil => rfl
  | cons v values ih =>
    exact congrArg (· + 2) ih

theorem appendCapped_eq {β : Type*} {limit : ℕ} (kept values : List β)
    (hroom : (kept ++ values).length ≤ limit) : appendCapped limit kept values = kept ++ values := by
  induction values generalizing kept with
  | nil => rw [appendCapped, append_nil]
  | cons v values ih =>
    have hsplit : kept ++ v :: values = kept ++ [v] ++ values := by
      rw [append_assoc, singleton_append]
    rw [hsplit] at hroom ⊢
    have hkept : kept.length < limit := by
      simp only [length_append, length_singleton] at hroom
      omega
    rw [appendCapped, if_pos hkept, ih _ hroom]

/-! ## Extensions -/

/-- The name that is kept when another one comes up. -/
def prefer (sni name : Text) : Text := if sni = [] then name else sni

theorem prefer_nil (sni : Text) : prefer sni [] = sni := by
  unfold prefer
  split
  · next hsni => exact hsni.symm
  · rfl

/-- The loop keeps the first host name it meets, if it has none yet. -/
theorem nameLoop_encode {names : List ServerName} (sni : Text)
    (hfits : (names.flatMap ServerName.encode).length < 65536)
    (hrounds : (names.flatMap ServerName.encode).length ≤ rounds) :
    nameLoop rounds (.new (names.flatMap ServerName.encode)) sni =
      prefer sni ((Extension.serverName names).hostNames.headD []) := by
  induction names generalizing rounds sni with
  | nil =>
    have hnothing : nameLoop rounds (.new []) sni = sni := by
      cases rounds with
      | zero => rfl
      | succ rounds => exact if_neg (by simp [HelloReader.new])
    rw [flatMap_nil, hnothing]
    exact (prefer_nil _).symm
  | cons entry names ih =>
    rw [flatMap_cons, ServerName.encode, cons_append] at hfits hrounds ⊢
    simp only [length_cons, length_append, length_encode16] at hfits hrounds
    cases rounds with
    | zero => omega
    | succ rounds =>
      have hloop : (0 < (HelloReader.new (entry.kind :: (encode16 entry.name ++
          names.flatMap ServerName.encode))).b.length ∧ (HelloReader.new (entry.kind ::
            (encode16 entry.name ++ names.flatMap ServerName.encode))).bad = false) :=
        ⟨Nat.succ_pos _, rfl⟩
      rw [nameLoop, if_pos hloop, HelloReader.u8_cons]
      simp only
      rw [HelloReader.vector16_encode16 (by omega)]
      rw [ih _ (by omega) (by omega)]
      by_cases hhost : entry.kind = 0
      · have hname := entry.host_ne hhost
        by_cases hsni : sni = []
        · simp [prefer, hhost, hsni, hname, HelloReader.new]
        · simp [prefer, hsni]
      · have hkind : entry.kind.toNat ≠ 0 := fun h ↦ hhost (UInt8.toNat_inj.mp h)
        simp [hhost, hkind]

theorem protocolLoop_encode {protocols : List Text} (alpn : List Text)
    (hroom : (alpn ++ protocols).length ≤ maxHelloALPN) (hfits : ∀ p ∈ protocols, p.length < 256)
    (hrounds : (protocols.flatMap encode8).length ≤ rounds) :
    protocolLoop rounds (.new (protocols.flatMap encode8)) alpn = alpn ++ protocols := by
  induction protocols generalizing rounds alpn with
  | nil =>
    rw [append_nil]
    cases rounds with
    | zero => rfl
    | succ rounds => exact if_neg (by simp [HelloReader.new])
  | cons p protocols ih =>
    have hsplit : alpn ++ p :: protocols = alpn ++ [p] ++ protocols := by
      rw [append_assoc, singleton_append]
    rw [hsplit] at hroom ⊢
    have hp := hfits p mem_cons_self
    rw [flatMap_cons] at hrounds ⊢
    simp only [length_append, length_cons, length_encode8] at hrounds hroom
    cases rounds with
    | zero => omega
    | succ rounds =>
      have hloop : 0 < (HelloReader.new (encode8 p ++ protocols.flatMap encode8)).b.length ∧
          (HelloReader.new (encode8 p ++ protocols.flatMap encode8)).bad = false ∧
          alpn.length < maxHelloALPN := by
        refine ⟨Nat.succ_pos _, rfl, by omega⟩
      rw [protocolLoop, if_pos hloop, HelloReader.vector8_encode8 hp]
      simp only [HelloReader.new, Bool.false_eq_true, if_false]
      apply ih
      · simp only [length_append]
        omega
      · exact fun q hq ↦ hfits q (mem_cons_of_mem p hq)
      · omega

theorem Bounded.of_append {front rest : List Extension} (h : Bounded (front ++ rest)) : Bounded front := by
  have hle : ∀ {β : Type} (f : Extension → List β),
      (front.flatMap f).length ≤ ((front ++ rest).flatMap f).length := by
    intro β f
    rw [flatMap_append, length_append]
    exact Nat.le_add_right ..
  refine ⟨?_, (hle _).trans h.curves, (hle _).trans h.points, (hle _).trans h.sigAlgs,
    (hle _).trans h.versions, (hle _).trans h.alpn, ?_⟩
  · have hcount := h.extensions
    rw [length_append] at hcount
    omega
  · intro p hp
    apply h.protocol
    rw [flatMap_append]
    exact mem_append_left _ hp

/-- A list in the body of an extension is read back whole. -/
theorem vector16_body {text : Text} (hfits : (encode16 text).length < 65536) :
    (HelloReader.new (encode16 text)).vector16 = (text, .new []) := by
  rw [length_encode16] at hfits
  have hread := HelloReader.vector16_encode16 (show text.length < 65536 by omega) []
  rwa [append_nil] at hread

theorem vector8_body {text : Text} (hfits : text.length < 256) :
    (HelloReader.new (encode8 text)).vector8 = (text, .new []) := by
  have hread := HelloReader.vector8_encode8 hfits []
  rwa [append_nil] at hread

theorem headD_append_eq (front rest : List Text) (hfront : ∀ name ∈ front, name ≠ []) :
    (front ++ rest).headD [] = prefer (front.headD []) (rest.headD []) := by
  cases front with
  | nil => rfl
  | cons name front => exact (if_neg (hfront name mem_cons_self)).symm

theorem hostNames_ne (exts : List Extension) : ∀ name ∈ exts.flatMap Extension.hostNames, name ≠ [] := by
  intro name hname
  rcases mem_flatMap.mp hname with ⟨e, _, he⟩
  cases e with
  | serverName names =>
    rcases mem_map.mp he with ⟨entry, hentry, hentryName⟩
    rw [← hentryName]
    exact entry.host_ne (of_decide_eq_true (mem_filter.mp hentry).2)
  | _ => cases he

/-- What one more extension adds. -/
theorem summary_concat (e : Extension) :
    summary version ciphers (before ++ [e]) =
      { version := version
        ciphers := ciphers
        extensions := before.map Extension.typ ++ [e.typ]
        curves := before.flatMap Extension.groups ++ e.groups
        points := before.flatMap Extension.points ++ e.points
        sigAlgs := before.flatMap Extension.algs ++ e.algs
        versions := before.flatMap Extension.versions ++ e.versions
        alpn := before.flatMap Extension.protocols ++ e.protocols
        sni := prefer (summary version ciphers before).sni (e.hostNames.headD [])
        hasSNI := before.any Extension.isServerName || e.isServerName } := by
  have hhosts := headD_append_eq (before.flatMap Extension.hostNames) e.hostNames (hostNames_ne before)
  simp only [summary, map_append, map_singleton, flatMap_append, flatMap_singleton,
    any_append, any_cons, any_nil, Bool.or_false, hhosts]

/-- One round of the loop over the extensions. -/
theorem parseExtension_summary (e : Extension) (hbounded : Bounded (before ++ [e]))
    (hfits : e.body.length < 65536) :
    ({ summary version ciphers before with
        extensions := before.map Extension.typ ++ [e.typ] } : ClientHello).parseExtension e.typ e.body =
      summary version ciphers (before ++ [e]) := by
  have hcurves := hbounded.curves
  have hpoints := hbounded.points
  have hsigAlgs := hbounded.sigAlgs
  have hversions := hbounded.versions
  have halpn := hbounded.alpn
  have hprotocol := hbounded.protocol
  rw [flatMap_append, flatMap_singleton] at hcurves hpoints hsigAlgs hversions halpn hprotocol
  rw [summary_concat]
  cases e with
  | serverName names =>
    have hlist : (names.flatMap ServerName.encode).length < 65536 := by
      rw [Extension.body, length_encode16] at hfits
      omega
    simp only [Extension.typ, Extension.body, ClientHello.parseExtension]
    rw [vector16_body hfits]
    simp only [nameLoop_encode _ hlist (le_refl _)]
    simp [summary]
  | supportedGroups groups =>
    have hroom : (before.flatMap _ ++ groups).length ≤ maxHelloCurves := hcurves
    simp only [Extension.typ, Extension.body, ClientHello.parseExtension,
      if_true]
    rw [vector16_body hfits]
    simp [u16s_encodeU16s, appendCapped_eq _ _ hroom, summary, prefer_nil]
  | pointFormats points =>
    have hroom : (before.flatMap _ ++ points).length ≤ maxHelloPoints := hpoints
    have hlist : points.length < 256 := by
      rw [length_append, maxHelloPoints] at hroom
      omega
    simp only [Extension.typ, Extension.body, ClientHello.parseExtension,
      if_true]
    rw [vector8_body hlist]
    simp [appendCapped_eq _ _ hroom, summary, prefer_nil]
  | signatureAlgorithms algs =>
    have hroom : (before.flatMap _ ++ algs).length ≤ maxHelloSigAlgs := hsigAlgs
    simp only [Extension.typ, Extension.body, ClientHello.parseExtension,
      if_true]
    rw [vector16_body hfits]
    simp [u16s_encodeU16s, appendCapped_eq _ _ hroom, summary, prefer_nil]
  | alpn protocols =>
    have hroom : (before.flatMap _ ++ protocols).length ≤ maxHelloALPN := halpn
    have hshort : ∀ p ∈ protocols, p.length < 256 := fun p hp ↦ hprotocol p (mem_append_right _ hp)
    simp only [Extension.typ, Extension.body, ClientHello.parseExtension,
      if_true]
    rw [vector16_body hfits]
    simp only [summary, protocolLoop_encode _ hroom hshort (le_refl _)]
    simp [prefer_nil]
  | supportedVersions versions =>
    have hroom : (before.flatMap _ ++ versions).length ≤ maxHelloVersions := hversions
    have hlist : (encodeU16s versions).length < 256 := by
      rw [length_append, maxHelloVersions] at hroom
      rw [length_encodeU16s]
      omega
    simp only [Extension.typ, Extension.body, ClientHello.parseExtension,
      if_true]
    rw [vector8_body hlist]
    simp [u16s_encodeU16s, appendCapped_eq _ _ hroom, summary, prefer_nil]
  | other typ unread body =>
    simp only [mem_cons, not_mem_nil, not_or] at unread
    simp [Extension.typ, ClientHello.parseExtension, unread, summary, prefer_nil]

theorem extensionLoop_encode (rest : List Extension) (hbounded : Bounded (before ++ rest))
    (hfits : (rest.flatMap Extension.encode).length < 65536)
    (hrounds : (rest.flatMap Extension.encode).length ≤ rounds) :
    extensionLoop rounds (.new (rest.flatMap Extension.encode)) (summary version ciphers before) =
      some (summary version ciphers (before ++ rest)) := by
  induction rest generalizing before rounds with
  | nil =>
    rw [append_nil]
    cases rounds with
    | zero => rfl
    | succ rounds => exact if_neg (by simp [HelloReader.new])
  | cons e rest ih =>
    have hsplit : before ++ e :: rest = before ++ [e] ++ rest := by
      rw [append_assoc, singleton_append]
    rw [hsplit] at hbounded ⊢
    rw [flatMap_cons, Extension.encode, append_assoc] at hfits hrounds ⊢
    have htyp : (putUint16 e.typ.toNat).length = 2 := rfl
    simp only [length_append, length_encode16] at hfits hrounds
    cases rounds with
    | zero => omega
    | succ rounds =>
      have hmore : 0 < (HelloReader.new (putUint16 e.typ.toNat ++
          (encode16 e.body ++ rest.flatMap Extension.encode))).b.length := Nat.succ_pos _
      have hroom : (summary version ciphers before).extensions.length < maxHelloExtensions := by
        have hcount := hbounded.of_append.extensions
        rw [length_append, length_singleton] at hcount
        simp only [summary, length_map]
        omega
      have hstep := parseExtension_summary version ciphers before e hbounded.of_append (by omega)
      rw [extensionLoop, if_pos ⟨hmore, hroom⟩, HelloReader.u16_put e.typ.toNat_lt]
      simp only
      rw [HelloReader.vector16_encode16 (by omega)]
      simp only [HelloReader.new, Bool.false_eq_true, UInt16.ofNat_toNat]
      refine Eq.trans (congrArg (extensionLoop _ _) hstep) ?_
      exact ih (before ++ [e]) hbounded (by omega) (by omega)

/-! ## Whole hellos -/

theorem parseBody_encode (h : Hello) : parseBody h.body = some h.summary := by
  have hfits := h.fits
  have hrandom := h.random_length
  unfold Hello.body Hello.summary
  unfold encodeBody at hfits ⊢
  simp only [length_append, length_encode16] at hfits
  have hciphers : appendCapped maxHelloCiphers [] h.ciphers = h.ciphers :=
    appendCapped_eq [] h.ciphers h.ciphers_length
  unfold parseBody
  rw [HelloReader.u16_put h.version.toNat_lt]
  simp only
  rw [← hrandom, HelloReader.take_append]
  rw [HelloReader.vector8_encode8 h.sessionID_length]
  rw [HelloReader.vector16_encode16 (by omega)]
  rw [HelloReader.vector8_encode8 h.compression_length]
  simp only [HelloReader.new, Bool.false_eq_true, u16s_encodeU16s, hciphers, UInt16.ofNat_toNat]
  cases hexts : h.extensions with
  | none => rfl
  | some exts =>
    have hbounded := h.bounded
    rw [hexts] at hfits hbounded
    simp only [Option.map_some, Option.getD_some] at hfits hbounded ⊢
    rw [length_encode16] at hfits
    have hnonempty : (encode16 (exts.flatMap Extension.encode)).length ≠ 0 := by
      rw [length_encode16]
      omega
    have hread := HelloReader.vector16_encode16
      (show (exts.flatMap Extension.encode).length < 65536 by omega) []
    rw [append_nil, HelloReader.new] at hread
    rw [hread]
    exact extensionLoop_encode h.version h.ciphers [] _ hbounded (by omega) (le_refl _)

/-- Parsing returns what a hello was made of, whatever follows its record. -/
theorem parseClientHello_record (h : Hello) (minor : UInt8) (trailing : Text) :
    parseClientHello (h.record minor ++ trailing) = some h.summary := by
  have hfits : h.body.length + 4 < 65536 := h.fits
  have hmessage : (1 :: encode24 h.body).length < 65536 := by
    simp only [encode24]
    omega
  have hbody := HelloReader.vector24_encode24 (show h.body.length < 65536 by omega) []
  rw [append_nil] at hbody
  unfold parseClientHello Hello.record
  simp only [cons_append, HelloReader.u8_cons]
  rw [HelloReader.vector16_encode16 hmessage]
  simp only [HelloReader.u8_cons, hbody]
  exact parseBody_encode h

end RanHoneypot.Trap.Tls
