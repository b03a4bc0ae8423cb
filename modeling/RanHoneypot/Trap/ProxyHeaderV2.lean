import RanHoneypot.Trap.ProxyHeader

/-!
# Reading headers of version 2

A well-formed header of version 2 is read as it was written, in whatever chunks it arrives, and what
follows it on the connection is what the trap reads.
-/

namespace RanHoneypot.Trap

open GoText Utf8 List BufReader

namespace V2Header

variable {h : V2Header}

variable (net : Netip)

/-- What an address block says is found where the parser looks for it. -/
theorem blockSource_addressBlock {width : ℕ} {src dst : Text} (srcPort dstPort : Fin 65536)
    (tlvs : Text) (hsrc : src.length = width) (hdst : dst.length = width) :
    blockSource net width (addressBlock src dst srcPort dstPort tlvs) =
      tcpAddr net (ipOf src).unmap srcPort.val := by
  have haddr : (addressBlock src dst srcPort dstPort tlvs).take width = src := by
    rw [addressBlock, append_assoc, append_assoc, append_assoc, ← hsrc, take_left]
  have hports : (addressBlock src dst srcPort dstPort tlvs).drop (2 * width) =
      putUint16 srcPort.val ++ (putUint16 dstPort.val ++ tlvs) := by
    rw [addressBlock, append_assoc, append_assoc, drop_left']
    rw [length_append, hdst]
    omega
  rw [blockSource, haddr, uint16_of_drop srcPort.isLt hports]

theorem length_addressBlock (src dst : Text) (srcPort dstPort : Fin 65536) (tlvs : Text) :
    (addressBlock src dst srcPort dstPort tlvs).length = src.length + dst.length + 4 + tlvs.length := by
  simp only [addressBlock, putUint16, length_append, length_cons, length_nil]

theorem parseV2Block_local (family : UInt8) (block : Text) :
    parseV2Block net 0x20 family block = .ok none := by
  rw [parseV2Block, if_pos (by decide)]

theorem parseV2Block_proxy (family : UInt8) (block : Text) :
    parseV2Block net 0x21 family block =
      if family = 0x11 then
        if block.length < 12 then .error .tcp4TooShort else .ok (some (blockSource net 4 block))
      else if family = 0x21 then
        if block.length < 36 then .error .tcp6TooShort else .ok (some (blockSource net 16 block))
      else .ok none := by
  rw [parseV2Block, if_neg (by decide), if_neg (by decide)]

theorem parseV2Block_eq (hwf : h.WellFormed) :
    parseV2Block net h.verCmd h.family h.block = .ok (h.source net) := by
  cases h with
  | localCommand family block => exact parseV2Block_local ..
  | proxyTcp4 src dst srcPort dstPort tlvs =>
    rcases hwf.tcp4 _ _ _ _ _ rfl with ⟨hsrc, hdst⟩
    have hlength := length_addressBlock src dst srcPort dstPort tlvs
    simp only [verCmd, family, block, source]
    rw [parseV2Block_proxy, if_pos rfl, if_neg (by omega),
      blockSource_addressBlock net srcPort dstPort tlvs hsrc hdst]
  | proxyTcp6 src dst srcPort dstPort tlvs =>
    rcases hwf.tcp6 _ _ _ _ _ rfl with ⟨hsrc, hdst⟩
    have hlength := length_addressBlock src dst srcPort dstPort tlvs
    simp only [verCmd, family, block, source]
    rw [parseV2Block_proxy, if_neg (by decide), if_pos rfl, if_neg (by omega),
      blockSource_addressBlock net srcPort dstPort tlvs hsrc hdst]
  | proxyOther family block =>
    rcases hwf.other _ _ rfl with ⟨hfour, hsix⟩
    exact (parseV2Block_proxy _ family _).trans (by rw [if_neg hfour, if_neg hsix]; rfl)

theorem verCmd_version (h : V2Header) : h.verCmd >>> 4 = 2 := by
  have hlocal : (0x20 : UInt8) >>> 4 = 2 := by decide
  have hproxy : (0x21 : UInt8) >>> 4 = 2 := by decide
  cases h with
  | localCommand family block => exact hlocal
  | proxyTcp4 | proxyTcp6 | proxyOther => exact hproxy

/-- The first sixteen bytes. -/
def fixedPart (h : V2Header) : Text := v2Signature ++ [h.verCmd, h.family] ++ putUint16 h.block.length

theorem encode_eq (h : V2Header) : h.encode = h.fixedPart ++ h.block := rfl

theorem length_fixedPart (h : V2Header) : h.fixedPart.length = 16 := rfl

/-- The header is consumed and nothing behind it. -/
theorem parseV2_eq (hwf : h.WellFormed) {r : BufReader UInt8} (hr : r.WF) {payload : Text}
    (hpending : r.pending = h.encode ++ payload) :
    (parseV2 net r).1 = .ok (h.source net) ∧ (parseV2 net r).2.WF ∧
      (parseV2 net r).2.pending = payload := by
  have hstream : r.pending = h.fixedPart ++ (h.block ++ payload) := by
    rw [hpending, encode_eq, append_assoc]
  have hfixed : 16 ≤ r.pending.length := by
    rw [hstream, length_append, length_fixedPart]
    omega
  rcases readFull_spec hr hfixed with ⟨hwf', hgot, hrest⟩
  rw [hstream] at hgot
  rw [hstream, drop_left' h.length_fixedPart] at hrest
  have hblock : h.block.length ≤ (r.readFull 16).2.pending.length := by
    rw [hrest, length_append]
    omega
  rcases readFull_spec hwf' hblock with ⟨hwf'', hgot', hrest'⟩
  rw [hrest, take_left] at hgot'
  rw [hrest, drop_left] at hrest'
  have hlength : uint16 h.fixedPart 14 = h.block.length := by
    have hle := hwf.block_le
    have hmax : maxProxyV2AddrLen = 536 := rfl
    have hdrop : h.fixedPart.drop 14 = putUint16 h.block.length ++ [] := rfl
    exact uint16_of_drop (by omega) hdrop
  have hparse : parseV2 net r =
      (parseV2Block net h.verCmd h.family h.block, ((r.readFull 16).2.readFull h.block.length).2) := by
    have hfirst : r.readFull 16 = (some h.fixedPart, (r.readFull 16).2) := Prod.ext hgot rfl
    have hsecond : (r.readFull 16).2.readFull h.block.length =
        (some h.block, ((r.readFull 16).2.readFull h.block.length).2) := Prod.ext hgot' rfl
    have hverCmd : h.fixedPart.getD 12 0 = h.verCmd := rfl
    have hfamily : h.fixedPart.getD 13 0 = h.family := rfl
    rw [parseV2, hfirst]
    simp only [hverCmd, hfamily, hlength]
    rw [if_neg (not_not.mpr h.verCmd_version), if_neg (not_lt.mpr hwf.block_le), hsecond]
  rw [hparse]
  exact ⟨parseV2Block_eq _ hwf, hwf'', hrest'⟩

end V2Header

theorem withSource_of_ok {result : Except ProxyError (Option ProxyAddr) × BufReader UInt8}
    {src : Option ProxyAddr} (hok : result.1 = .ok src) : withSource result = .ok ⟨result.2, src⟩ := by
  rcases result with ⟨outcome, r⟩
  rw [show outcome = .ok src from hok]
  rfl

/-- A well-formed header of version 2 with any payload behind it, delivered in any chunks: the header is
accepted, the connection reports the source of the header for PROXY with TCP4 or TCP6 and the peer of the
socket otherwise, and reading from the connection gives the payload, in order and completely. -/
theorem proxy_v2_exact (net : Netip) (peer : ProxyAddr) (h : V2Header) (hwf : h.WellFormed)
    (payload : Text) (chunks : List Text) (hchunks : ∀ chunk ∈ chunks, chunk ≠ [])
    (hstream : chunks.flatten = h.encode ++ payload) :
    ∃ conn, newProxyConn net chunks = .ok conn ∧
      conn.remoteAddr peer = (h.source net).getD peer ∧
      (∀ sizes, (conn.reader.readAll sizes).1 ++ (conn.reader.readAll sizes).2.pending = payload) ∧
      ∀ sizes, (∀ n ∈ sizes, 0 < n) → payload.length ≤ sizes.length →
        (conn.reader.readAll sizes).1 = payload := by
  have hreader : (ofChunks proxyBufferSize _).WF :=
    wf_ofChunks (by decide) hchunks
  rcases peek_spec hreader (by decide : 12 ≤ proxyBufferSize) with
    ⟨hwf', hpending, hpeek⟩
  have hsignature : h.encode ++ payload = v2Signature ++ ([h.verCmd, h.family] ++
      (putUint16 h.block.length ++ (h.block ++ payload))) := by
    simp [V2Header.encode]
  have hlong : 12 ≤ (h.encode ++ payload).length := by
    rw [hsignature, length_append]
    exact Nat.le_add_right 12 _
  rw [pending_ofChunks, hstream] at hpending
  rw [pending_ofChunks, hstream, hsignature] at hpeek
  rcases V2Header.parseV2_eq net hwf hwf' hpending with ⟨hsource, hwf'', hrest⟩
  have hconn : newProxyConn net chunks =
      .ok ⟨(parseV2 net ((ofChunks proxyBufferSize chunks).peek 12).2).2, h.source net⟩ := by
    have hfirst : (ofChunks ..).peek 12 =
        (some v2Signature, ((ofChunks proxyBufferSize _).peek 12).2) := Prod.ext hpeek rfl
    rw [newProxyConn, hfirst]
    simp only
    rw [if_pos trivial, withSource_of_ok hsource]
  refine ⟨_, hconn, rfl, ?_, ?_⟩
  · intro sizes
    rw [← hrest]
    exact readAll_append hwf'' _
  · intro sizes hsizes hmany
    rw [← hrest] at hmany ⊢
    exact readAll_eq hwf'' hsizes hmany

/-- A header that arrives byte by byte, with a payload of two bytes. -/
theorem proxy_v2_exact_bytewise :
    ∃ conn, newProxyConn Netip.binary (((V2Header.proxyTcp4 [10, 0, 0, 1] [10, 0, 0, 2] 4000 80
        [4, 0, 0]).encode ++ [71, 69]).map fun b ↦ [b]) = .ok conn ∧
      conn.remoteAddr ⟨"tcp", []⟩ = tcpAddr Netip.binary (ipOf [10, 0, 0, 1]).unmap 4000 ∧
      (conn.reader.readAll [1, 1]).1 = [71, 69] := by
  have hwf : (V2Header.proxyTcp4 [10, 0, 0, 1] [10, 0, 0, 2] 4000 80 [4, 0, 0]).WellFormed :=
    { block_le := by decide
      tcp4 := by
        intro src dst srcPort dstPort tlvs heq
        rw [V2Header.proxyTcp4.injEq] at heq
        rw [← heq.1, ← heq.2.1]
        decide
      tcp6 := fun _ _ _ _ _ heq ↦ V2Header.noConfusion heq
      other := fun _ _ heq ↦ V2Header.noConfusion heq }
  rcases proxy_v2_exact Netip.binary ⟨"tcp", []⟩ _ hwf [71, 69] (((V2Header.proxyTcp4 [10, 0, 0, 1]
    [10, 0, 0, 2] 4000 80 [4, 0, 0]).encode ++ [71, 69]).map fun b ↦ [b]) (by decide) (by decide) with
    ⟨conn, hconn, haddr, _, hread⟩
  exact ⟨conn, hconn, haddr, hread [1, 1] (by decide) (by decide)⟩

end RanHoneypot.Trap
