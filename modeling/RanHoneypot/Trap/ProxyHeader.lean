import RanHoneypot.Net.Netip
import RanHoneypot.Trap.LineReader

/-!
# PROXY headers

`newProxyConn` of `proxyproto.go` reads the PROXY header of a connection, in its text form (version 1)
or its binary form (version 2), and leaves what follows to the reader of the connection. The header is
looked at through a buffered reader, so the bytes behind it may have been fetched with it.
-/

namespace RanHoneypot.Trap

open GoText Utf8

variable (net : Netip)

/-- Including the line break. -/
def maxProxyV1Len : ℕ := 108

def maxProxyV2AddrLen : ℕ := 536

def proxyBufferSize : ℕ := 536

def v2Signature : Text := [0x0D, 0x0A, 0x0D, 0x0A, 0x00, 0x0D, 0x0A, 0x51, 0x55, 0x49, 0x54, 0x0A]

inductive ProxyError where
  | noHeader
  | missingHeader
  | line (error : LineError)
  | invalidHeader (line : Text)
  | invalidSourceAddress (text : Text)
  | invalidSourcePort (text : Text)
  | truncated
  | unsupportedVersion (version : UInt8)
  | addressBlockTooLong (length : ℕ)
  | unknownCommand (command : UInt8)
  | tcp4TooShort
  | tcp6TooShort
deriving DecidableEq

/-- An address as `net.Addr` gives it. -/
structure ProxyAddr where
  network : String
  addr : Text
deriving DecidableEq

/-! ## Version 1 -/

/-- A byte string as the text that `netip` reads. -/
def addrText (s : Text) : String := String.ofList (s.map fun b ↦ Char.ofNat b.toNat)

/-- `strconv.ParseUint(s, 10, 16)`. -/
def parseUint16 (s : Text) : Option ℕ := (decimal s).bind fun n ↦ if n < 65536 then some n else none

/-- The address that both versions report. -/
def tcpAddr (ip : Addr) (port : ℕ) : ProxyAddr where
  network := "tcp"
  addr := joinHostPort (ofText (net.string ip)) (itoa port)

/-- The header without its line break. `none` keeps the address of the peer. -/
def parseV1Line (line : Text) : Except ProxyError (Option ProxyAddr) :=
  let parts := line.splitOn (ch ' ')
  if parts.length < 2 then .error (.invalidHeader line)
  else if parts.getD 1 [] = ofText "UNKNOWN" then .ok none
  else if parts.length ≠ 6 then .error (.invalidHeader line)
  else
    match net.parseAddr (addrText (parts.getD 2 [])) with
    | none => .error (.invalidSourceAddress (parts.getD 2 []))
    | some ip =>
      if ip.zone ≠ "" then .error (.invalidSourceAddress (parts.getD 2 []))
      else
        match parseUint16 (parts.getD 4 []) with
        | none => .error (.invalidSourcePort (parts.getD 4 []))
        | some port => .ok (some (tcpAddr net ip port))

def parseV1 (r : BufReader UInt8) : Except ProxyError (Option ProxyAddr) × BufReader UInt8 :=
  match readLineLimited maxProxyV1Len r with
  | (.error error, r) => (.error (.line error), r)
  | (.ok line, r) => (parseV1Line net (trimLineBreak line), r)

/-! ## Version 2 -/

/-- The number that bytes stand for, the first being the highest. -/
def bigEndian (bytes : Text) : ℕ := bytes.foldl (fun n b ↦ n * 256 + b.toNat) 0

/-- `net.IP` of 4 or 16 bytes. -/
def ipOf (bytes : Text) : Addr :=
  if bytes.length = 4 then .v4 (BitVec.ofNat 32 (bigEndian bytes))
  else .v6 (BitVec.ofNat 128 (bigEndian bytes)) ""

/-- The source address of an address block. The port stands behind both addresses. The text of an
IPv4-mapped `net.IP` is that of the IPv4 address. -/
def blockSource (width : ℕ) (block : Text) : ProxyAddr :=
  tcpAddr net (ipOf (block.take width)).unmap (uint16 block (2 * width))

/-- What a header with this command, family and address block reports. -/
def parseV2Block (verCmd family : UInt8) (block : Text) : Except ProxyError (Option ProxyAddr) :=
  if verCmd &&& 0x0F = 0 then .ok none
  else if verCmd &&& 0x0F ≠ 1 then .error (.unknownCommand (verCmd &&& 0x0F))
  else if family = 0x11 then
    if block.length < 12 then .error .tcp4TooShort else .ok (some (blockSource net 4 block))
  else if family = 0x21 then
    if block.length < 36 then .error .tcp6TooShort else .ok (some (blockSource net 16 block))
  else .ok none

def parseV2 (r : BufReader UInt8) : Except ProxyError (Option ProxyAddr) × BufReader UInt8 :=
  match r.readFull 16 with
  | (none, r) => (.error .truncated, r)
  | (some hdr, r) =>
    let verCmd := hdr.getD 12 0
    let family := hdr.getD 13 0
    let addrLen := uint16 hdr 14
    if verCmd >>> 4 ≠ 2 then (.error (.unsupportedVersion (verCmd >>> 4)), r)
    else if maxProxyV2AddrLen < addrLen then (.error (.addressBlockTooLong addrLen), r)
    else
      match r.readFull addrLen with
      | (none, r) => (.error .truncated, r)
      | (some block, r) => (parseV2Block net verCmd family block, r)

/-! ## Connections -/

structure ProxyConn where
  reader : BufReader UInt8
  srcAddr : Option ProxyAddr

/-- The address of the header, or that of the peer. -/
def ProxyConn.remoteAddr (c : ProxyConn) (peer : ProxyAddr) : ProxyAddr := c.srcAddr.getD peer

def withSource : Except ProxyError (Option ProxyAddr) × BufReader UInt8 → Except ProxyError ProxyConn
  | (.error error, _) => .error error
  | (.ok src, r) => .ok ⟨r, src⟩

/-- Reads the header of a connection that delivers `chunks`. -/
def newProxyConn (chunks : List Text) : Except ProxyError ProxyConn :=
  match (BufReader.ofChunks proxyBufferSize chunks).peek 12 with
  | (none, _) => .error .noHeader
  | (some peek, r) =>
    if peek = v2Signature then withSource (parseV2 net r)
    else if peek.take 6 = ofText "PROXY " then withSource (parseV1 net r)
    else .error .missingHeader

/-! ## Headers of version 2 -/

/-- A header of version 2 by its command and the meaning of its address block. -/
inductive V2Header where
  | localCommand (family : UInt8) (block : Text)
  | proxyTcp4 (src dst : Text) (srcPort dstPort : Fin 65536) (tlvs : Text)
  | proxyTcp6 (src dst : Text) (srcPort dstPort : Fin 65536) (tlvs : Text)
  | proxyOther (family : UInt8) (block : Text)

namespace V2Header

/-- Both addresses and ports, and what follows them. -/
def addressBlock (src dst : Text) (srcPort dstPort : Fin 65536) (tlvs : Text) : Text :=
  src ++ dst ++ putUint16 srcPort.val ++ putUint16 dstPort.val ++ tlvs

def block : V2Header → Text
  | localCommand _ block => block
  | proxyTcp4 src dst srcPort dstPort tlvs => addressBlock src dst srcPort dstPort tlvs
  | proxyTcp6 src dst srcPort dstPort tlvs => addressBlock src dst srcPort dstPort tlvs
  | proxyOther _ block => block

def verCmd : V2Header → UInt8
  | localCommand _ _ => 0x20
  | _ => 0x21

def family : V2Header → UInt8
  | localCommand family _ => family
  | proxyTcp4 _ _ _ _ _ => 0x11
  | proxyTcp6 _ _ _ _ _ => 0x21
  | proxyOther family _ => family

/-- The addresses have the length of their family, and the block is not too long. -/
structure WellFormed (h : V2Header) : Prop where
  block_le : h.block.length ≤ maxProxyV2AddrLen
  tcp4 : ∀ src dst srcPort dstPort tlvs, h = proxyTcp4 src dst srcPort dstPort tlvs →
    src.length = 4 ∧ dst.length = 4
  tcp6 : ∀ src dst srcPort dstPort tlvs, h = proxyTcp6 src dst srcPort dstPort tlvs →
    src.length = 16 ∧ dst.length = 16
  other : ∀ family block, h = proxyOther family block → family ≠ 0x11 ∧ family ≠ 0x21

def encode (h : V2Header) : Text :=
  v2Signature ++ [h.verCmd, h.family] ++ putUint16 h.block.length ++ h.block

/-- The address that the header gives, if it gives one. -/
def source : V2Header → Option ProxyAddr
  | proxyTcp4 src _ srcPort _ _ => some (tcpAddr net (ipOf src).unmap srcPort.val)
  | proxyTcp6 src _ srcPort _ _ => some (tcpAddr net (ipOf src).unmap srcPort.val)
  | localCommand _ _ => none
  | proxyOther _ _ => none

end V2Header

end RanHoneypot.Trap
