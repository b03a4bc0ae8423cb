import RanHoneypot.Trap.ProxyHeader

/-!
# Reading headers of version 1

The text form of the header is a line of six words. The parser takes the source address and the source
port from it and checks these two, as it is specified. It does not look at the protocol word beyond
`UNKNOWN`, at the destination, or at how the line ends. A header that follows the grammar is always
accepted.
-/

namespace RanHoneypot.Trap

open GoText Utf8 List

variable {net : Netip}

/-! ## The line -/

/-- What the parser makes of a stream: it looks at the first line only. -/
theorem parseV1_eq_ok_iff {r : BufReader UInt8} (hr : r.WF) (result : Option ProxyAddr) :
    (parseV1 net r).1 = .ok result ↔
      ch '\n' ∈ r.pending.take maxProxyV1Len ∧
        parseV1Line net (trimLineBreak (firstLine r.pending)) = .ok result := by
  rcases @readLineLimited_spec maxProxyV1Len _ hr with ⟨hline, _⟩
  have hok := @lineOf_eq_ok_iff maxProxyV1Len r.pending
  rw [parseV1, ← Prod.mk.eta (p := readLineLimited maxProxyV1Len r), hline]
  cases hread : lineOf maxProxyV1Len [] r.pending with
  | error error =>
    have hbreak : ch '\n' ∉ r.pending.take maxProxyV1Len := by
      intro htake
      exact nomatch hread.symm.trans ((hok _).mpr ⟨htake, rfl⟩)
    simp [hbreak]
  | ok text =>
    rcases (hok text).mp hread with ⟨hbreak, htext⟩
    simp [hbreak, htext]

/-- The words that the parser takes a source from, and the source. -/
structure SourceWords (net : Netip) (words : List Text) (addr : ProxyAddr) : Prop where
  six : words.length = 6
  known : words.getD 1 [] ≠ ofText "UNKNOWN"
  source : ∃ ip port, net.parseAddr (addrText (words.getD 2 [])) = some ip ∧ ip.zone = "" ∧
    parseUint16 (words.getD 4 []) = some port ∧ addr = tcpAddr net ip port

theorem parseV1Line_eq_some_iff (line : Text) (addr : ProxyAddr) :
    parseV1Line net line = .ok (some addr) ↔ SourceWords net (line.splitOn (ch ' ')) addr := by
  simp only [parseV1Line]
  constructor
  · intro hparse
    split at hparse
    · cases hparse
    · split at hparse
      · cases hparse
      · next hknown =>
        split at hparse
        · cases hparse
        · next hsix =>
          refine ⟨not_not.mp hsix, hknown, ?_⟩
          split at hparse
          · cases hparse
          · next ip hip =>
            split at hparse
            · cases hparse
            · next hzone =>
              split at hparse
              · cases hparse
              · next port hport =>
                simp only [Except.ok.injEq, Option.some.injEq] at hparse
                exact ⟨ip, port, hip, not_not.mp hzone, hport, hparse.symm⟩
  · intro hwords
    rcases hwords with ⟨hsix, hknown, ip, port, hip, hzone, hport, haddr⟩
    rw [if_neg (by omega), if_neg hknown, if_neg (not_not.mpr hsix), hip]
    simp only
    rw [if_neg (not_not.mpr hzone), hport]
    simp only [haddr]

/-! ## Headers that follow the grammar -/

inductive V1Family where
  | tcp4
  | tcp6
deriving DecidableEq

def V1Family.word : V1Family → Text
  | tcp4 => ofText "TCP4"
  | tcp6 => ofText "TCP6"

/-- An IPv4-mapped address is written in the IPv6 form. -/
def V1Family.of : Addr → V1Family
  | .v4 _ => tcp4
  | .v6 _ _ => tcp6

/-- A header of version 1 by its words. -/
structure V1Header where
  family : V1Family
  src : Text
  dst : Text
  srcPort : Text
  dstPort : Text

namespace V1Header

def words (h : V1Header) : List Text :=
  [ofText "PROXY", h.family.word, h.src, h.dst, h.srcPort, h.dstPort]

def encode (h : V1Header) : Text := join [ch ' '] h.words ++ [ch '\r', ch '\n']

/-- A word that is an address of the family of the header. -/
structure IsAddress (net : Netip) (h : V1Header) (word : Text) : Prop where
  space : ch ' ' ∉ word
  feed : ch '\n' ∉ word
  valid : ∃ ip, net.parseAddr (addrText word) = some ip ∧ ip.zone = "" ∧ V1Family.of ip = h.family

/-- The addresses are of the family of the header, and the ports are decimal numbers up to 65535. -/
structure Grammatical (net : Netip) (h : V1Header) : Prop where
  src : h.IsAddress net h.src
  dst : h.IsAddress net h.dst
  srcPort : ∃ port, decimal h.srcPort = some port ∧ port ≤ 65535
  dstPort : ∃ port, decimal h.dstPort = some port ∧ port ≤ 65535

/-- The source that the header names. -/
def source (net : Netip) (h : V1Header) : Option ProxyAddr :=
  match net.parseAddr (addrText h.src), decimal h.srcPort with
  | some ip, some port => some (tcpAddr net ip port)
  | _, _ => none

end V1Header

theorem notMem_of_decimal {s : Text} {n : ℕ} {b : UInt8} (hs : decimal s = some n)
    (hb : isDigit b = false) : b ∉ s := by
  intro hmem
  unfold decimal at hs
  split at hs
  · next hdigits =>
    have hdigit : isDigit b = true := all_eq_true.mp hdigits.2 b hmem
    exact absurd hdigit (by simp [hb])
  · cases hs

namespace V1Header

variable {h : V1Header}

section

variable (hg : h.Grammatical net)

include hg

theorem Grammatical.notMem_words {word : Text} (hword : word ∈ h.words) :
    ch ' ' ∉ word ∧ ch '\n' ∉ word := by
  rcases hg.srcPort with ⟨srcPort, hsrcPort, _⟩
  rcases hg.dstPort with ⟨dstPort, hdstPort, _⟩
  simp only [words, mem_cons, not_mem_nil, or_false] at hword
  rcases hword with hword | hword | hword | hword | hword | hword
  · rw [hword]
    decide
  · rw [hword]
    cases h.family <;> decide
  · rw [hword]
    exact ⟨hg.src.space, hg.src.feed⟩
  · rw [hword]
    exact ⟨hg.dst.space, hg.dst.feed⟩
  · rw [hword]
    exact ⟨notMem_of_decimal hsrcPort (by decide), notMem_of_decimal hsrcPort (by decide)⟩
  · rw [hword]
    exact ⟨notMem_of_decimal hdstPort (by decide), notMem_of_decimal hdstPort (by decide)⟩

theorem Grammatical.feed_notMem_join : ch '\n' ∉ join [ch ' '] h.words ++ [ch '\r'] := by
  rw [mem_append, not_or]
  exact ⟨notMem_join (by decide) fun word hword ↦ (hg.notMem_words hword).2, by decide⟩

/-- The first line of a stream that starts with the header is the header. -/
theorem Grammatical.firstLine_eq (rest : Text) :
    firstLine (h.encode ++ rest) = h.encode ∧
      (h.encode ++ rest).idxOf (ch '\n') + 1 = h.encode.length := by
  have hstream : h.encode ++ rest =
      (join [ch ' '] h.words ++ [ch '\r']) ++ ch '\n' :: rest := by
    simp [encode]
  rw [hstream, firstLine_break hg.feed_notMem_join, idxOf_append_of_notMem hg.feed_notMem_join]
  simp [encode]

theorem Grammatical.join_ends_in_digit :
    ∃ front digit, join [ch ' '] h.words = front ++ [digit] ∧ isDigit digit = true := by
  rcases hg.dstPort with ⟨port, hport, _⟩
  have hdigits : h.dstPort ≠ [] ∧ h.dstPort.all isDigit := by
    by_contra hnot
    rw [decimal, if_neg hnot] at hport
    cases hport
  refine ⟨join [ch ' '] (h.words.dropLast ++ [[]]) ++ h.dstPort.dropLast,
    h.dstPort.getLast hdigits.1, ?_, all_eq_true.mp hdigits.2 _ (getLast_mem _)⟩
  rw [append_assoc, dropLast_append_getLast]
  simp [join, words]

/-- The last port ends in a digit, so only the line break is cut off. -/
theorem Grammatical.trimLineBreak_encode : trimLineBreak h.encode = join [ch ' '] h.words := by
  rcases hg.join_ends_in_digit with ⟨front, digit, hjoin, hdigit⟩
  rw [encode, hjoin]
  exact trimLineBreak_crlf _ hdigit

theorem Grammatical.splitOn_words : (join [ch ' '] h.words).splitOn (ch ' ') = h.words :=
  splitOn_intercalate (ch ' ') (fun _ hword ↦ (hg.notMem_words hword).1)
    (cons_ne_nil _ _)

theorem Grammatical.sourceWords :
    ∃ addr, h.source net = some addr ∧ SourceWords net h.words addr := by
  rcases hg.src.valid with ⟨ip, hip, hzone, _⟩
  rcases hg.srcPort with ⟨port, hport, hle⟩
  refine ⟨tcpAddr net ip port, ?_, ?_⟩
  · simp only [source, hip, hport]
  · refine ⟨rfl, ?_, ip, port, hip, hzone, ?_, rfl⟩
    · change h.family.word ≠ ofText "UNKNOWN"
      cases h.family <;> decide
    · change parseUint16 h.srcPort = some port
      rw [parseUint16, hport]
      simp only [Option.bind_some]
      rw [if_pos (by omega)]

end

end V1Header

/-! ## The parser -/

/-- A stream is read as a source if and only if its first line is complete within the limit and has six
words with a source in them. This includes every header of the grammar. -/
theorem proxy_v1_source_iff (net : Netip) {r : BufReader UInt8} (hr : r.WF)
    (hsize : r.size = proxyBufferSize) :
    (∀ addr, (parseV1 net r).1 = .ok (some addr) ↔
      ch '\n' ∈ r.pending.take maxProxyV1Len ∧
        SourceWords net ((trimLineBreak (firstLine r.pending)).splitOn (ch ' ')) addr) ∧
      ∀ (h : V1Header) (rest : Text), h.Grammatical net → h.encode.length ≤ 107 →
        r.pending = h.encode ++ rest →
        ∃ addr, h.source net = some addr ∧ (parseV1 net r).1 = .ok (some addr) := by
  have haccept : ∀ addr, (parseV1 net r).1 = .ok (some addr) ↔
      ch '\n' ∈ r.pending.take maxProxyV1Len ∧
        SourceWords net ((trimLineBreak (firstLine r.pending)).splitOn (ch ' ')) addr := by
    intro addr
    rw [parseV1_eq_ok_iff hr, parseV1Line_eq_some_iff]
  refine ⟨haccept, ?_⟩
  intro h rest hg hlength hpending
  rcases hg.sourceWords with ⟨addr, hsource, hwords⟩
  rcases hg.firstLine_eq rest with ⟨hline, hindex⟩
  refine ⟨addr, hsource, (haccept addr).mpr ⟨?_, ?_⟩⟩
  · have hmem : ch '\n' ∈ h.encode ++ rest := by simp [V1Header.encode]
    rw [hpending, mem_take_iff_idxOf_lt hmem, maxProxyV1Len]
    omega
  · rw [hpending, hline, hg.trimLineBreak_encode, hg.splitOn_words]
    exact hwords

/-- Two addresses of the network that is reserved for documentation. -/
def testNet : Netip := .ofTable [("192.0.2.1", .v4 0xC0000201), ("192.0.2.2", .v4 0xC0000202)]

def testHeader : V1Header where
  family := .tcp4
  src := ofText "192.0.2.1"
  dst := ofText "192.0.2.2"
  srcPort := ofText "56324"
  dstPort := ofText "443"

/-- A header with the start of a request behind it. -/
theorem proxy_v1_source_tcp4 :
    ∃ addr, testHeader.source testNet = some addr ∧
      (parseV1 testNet (BufReader.ofChunks proxyBufferSize
        [testHeader.encode, ofText "GET /"])).1 = .ok (some addr) := by
  have hg : testHeader.Grammatical testNet :=
    { src := ⟨by decide, by decide, .v4 0xC0000201, by decide +kernel, by decide, by decide⟩
      dst := ⟨by decide, by decide, .v4 0xC0000202, by decide +kernel, by decide, by decide⟩
      srcPort := ⟨56324, by decide, by decide⟩
      dstPort := ⟨443, by decide, by decide⟩ }
  have hr : (BufReader.ofChunks proxyBufferSize [testHeader.encode, ofText "GET /"]).WF :=
    BufReader.wf_ofChunks (by decide) (by decide)
  exact (proxy_v1_source_iff _ hr rfl).2 testHeader (ofText "GET /") hg (by decide) (by decide)

/-- A line of six words is accepted with any protocol word, destination and destination port, and
without a carriage return. -/
theorem loose_v1_header_accepted :
    (parseV1 testNet (BufReader.ofChunks proxyBufferSize
        [ofText "PROXY x 192.0.2.1 y 7 z\n"])).1 = .ok (some ⟨"tcp", ofText "192.0.2.1:7"⟩) ∧
      ¬ ∃ h : V1Header, h.Grammatical testNet ∧
        firstLine (ofText "PROXY x 192.0.2.1 y 7 z\n") = h.encode := by
  refine ⟨by decide +kernel, ?_⟩
  intro hgrammar
  rcases hgrammar with ⟨h, _, hline⟩
  have hends : [ch '\r', ch '\n'] <:+ firstLine (ofText "PROXY x 192.0.2.1 y 7 z\n") := by
    rw [hline]
    exact suffix_append ..
  exact absurd hends (by decide)

end RanHoneypot.Trap
