import Mathlib.Data.List.GetD
import RanHoneypot.Data.Chunks
import RanHoneypot.Data.GoText

/-!
# Capture of the first TLS record

The HTTPS trap keeps a copy of the first record that a client sends, to take the fingerprint of its hello
later. The copy is made while the TLS library reads: every read is appended, until the five bytes of the
record header tell that the record is complete, that it is no handshake, or that it is too large.
-/

namespace RanHoneypot.Trap.Tls

open GoText List

def maxHelloRecord : ℕ := 5 + 16384

/-- The part of the connection that records. -/
@[ext] structure HelloConn where
  buf : Text
  done : Bool
  deriving DecidableEq

namespace HelloConn

def start : HelloConn := ⟨[], false⟩

def capture (c : HelloConn) (p : Text) : HelloConn :=
  let buf := c.buf ++ p.take (maxHelloRecord - c.buf.length)
  if buf.length < 5 then { c with buf := buf }
  else
    let need := 5 + uint16 buf 3
    if buf.head? ≠ some 0x16 ∨ maxHelloRecord < need then ⟨[], true⟩
    else if need ≤ buf.length then ⟨buf.take need, true⟩
    else { c with buf := buf }

/-- What a read of the bytes `p` does to the record. -/
def read (c : HelloConn) (p : Text) : HelloConn :=
  if c.done = false ∧ 0 < p.length then c.capture p else c

/-! ## The decision -/

/-- What becomes of the bytes in the buffer. -/
def settle (buf : Text) : HelloConn :=
  if buf.length < 5 then ⟨buf, false⟩
  else if buf.head? ≠ some 0x16 ∨ maxHelloRecord < 5 + uint16 buf 3 then ⟨[], true⟩
  else if 5 + uint16 buf 3 ≤ buf.length then ⟨buf.take (5 + uint16 buf 3), true⟩
  else ⟨buf, false⟩

theorem capture_of_open {c : HelloConn} (hopen : c.done = false) (p : Text) :
    c.capture p = settle (c.buf ++ p.take (maxHelloRecord - c.buf.length)) := by
  simp only [capture, settle, hopen]

/-- As long as nothing is decided, all bytes are in the buffer and there is room for more. -/
theorem settle_of_open {buf : Text} (hopen : (settle buf).done = false) :
    settle buf = ⟨buf, false⟩ ∧ buf.length < maxHelloRecord := by
  unfold settle at hopen ⊢
  split at hopen
  · next hshort =>
    rw [if_pos hshort]
    exact ⟨rfl, by rw [maxHelloRecord]; omega⟩
  · next hheader =>
    rw [if_neg hheader]
    split at hopen
    · cases hopen
    · next hlegal =>
      rw [if_neg hlegal]
      split at hopen
      · cases hopen
      · next hincomplete =>
        rw [if_neg hincomplete]
        refine ⟨rfl, ?_⟩
        omega

theorem uint16_append {front : Text} {pos : ℕ} (hpos : pos + 2 ≤ front.length) (rest : Text) :
    uint16 (front ++ rest) pos = uint16 front pos := by
  rw [uint16, uint16, getD_append _ _ _ _ (by omega), getD_append _ _ _ _ (by omega)]

/-- What is decided stays so, whatever else arrives. -/
theorem settle_append {buf : Text} (hdone : (settle buf).done = true) (more : Text) :
    settle (buf ++ more) = settle buf := by
  unfold settle at hdone
  split at hdone
  · cases hdone
  · next hheader =>
    have hlonger : ¬ (buf ++ more).length < 5 := by
      rw [length_append]
      omega
    have hneed : uint16 (buf ++ more) 3 = uint16 buf 3 := uint16_append (by omega) more
    have hhead : (buf ++ more).head? = buf.head? := by
      rw [head?_append_of_ne_nil]
      exact ne_nil_of_length_pos (by omega)
    rw [settle, settle, if_neg hlonger, hneed, hhead]
    split
    · rfl
    · next hlegal =>
      rw [if_neg hlegal] at hdone
      split at hdone
      · next hcomplete =>
        rw [if_pos hcomplete, if_pos (by rw [length_append]; omega),
          take_append_of_le_length hcomplete]
      · cases hdone

/-! ## Runs -/

/-- The state that belongs to a stream. -/
def view (stream : Text) : HelloConn := settle (stream.take maxHelloRecord)

theorem read_view (seen chunk : Text) : (view seen).read chunk = view (seen ++ chunk) := by
  unfold read
  by_cases hempty : chunk = []
  · rw [hempty, append_nil, if_neg (by simp)]
  · have hchunk : 0 < chunk.length := length_pos_of_ne_nil hempty
    cases hdone : (view seen).done with
    | true =>
      rw [if_neg (fun h ↦ Bool.noConfusion h.1), view, view, List.take_append, settle_append hdone]
    | false =>
      have hopen := settle_of_open hdone
      have hall : seen.take maxHelloRecord = seen := by
        have hlength := hopen.2
        rw [length_take] at hlength
        exact take_of_length_le (by omega)
      have hbuf : (view seen).buf = seen := by
        rw [view, hopen.1]
        exact hall
      rw [if_pos ⟨rfl, hchunk⟩, capture_of_open hdone, hbuf, view, List.take_append, hall]

theorem foldl_read (reads : List Text) : reads.foldl read start = view reads.flatten :=
  Chunks.foldl_eq_view read_view reads

theorem settle_length_le (buf : Text) : (settle buf).buf.length ≤ buf.length := by
  unfold settle
  split
  · exact le_refl _
  · split
    · exact Nat.zero_le _
    · split
      · exact length_take_le' ..
      · exact le_refl _

theorem view_length_le (stream : Text) : (view stream).buf.length ≤ maxHelloRecord :=
  (settle_length_le _).trans (length_take_le _ _)

/-- A complete record of the kind and size of a handshake stays in the buffer, without what follows it. -/
theorem view_record {record : Text} (hlength : 5 ≤ record.length) (hkind : record.head? = some 0x16)
    (hsize : record.length = 5 + uint16 record 3) (hlimit : record.length ≤ maxHelloRecord)
    (following : Text) : view (record ++ following) = ⟨record, true⟩ := by
  have hdecided : settle record = ⟨record, true⟩ := by
    rw [settle, if_neg (by omega), if_neg, if_pos (by omega), ← hsize, take_length]
    rw [not_or, not_not]
    exact ⟨hkind, by omega⟩
  have hdone : (settle record).done = true := by rw [hdecided]
  rw [view, List.take_append, take_of_length_le hlimit, settle_append hdone, hdecided]

/-- However the stream is cut into reads, the connection ends up as after one read of the whole stream. A
complete first record of a legal kind and size is captured exactly, and the buffer stays within the limit. -/
theorem capture_chunking (reads : List Text) :
    reads.foldl read start = read start reads.flatten ∧
      (∀ record following : Text, reads.flatten = record ++ following → 5 ≤ record.length →
        record.head? = some 0x16 → record.length = 5 + uint16 record 3 →
        record.length ≤ maxHelloRecord → reads.foldl read start = ⟨record, true⟩) ∧
      (reads.foldl read start).buf.length ≤ maxHelloRecord := by
  have hone : read start reads.flatten = view reads.flatten := read_view [] reads.flatten
  rw [foldl_read, hone]
  refine ⟨rfl, ?_, view_length_le _⟩
  intro record following hstream hlength hkind hsize hlimit
  rw [hstream]
  exact view_record hlength hkind hsize hlimit _

/-- A record that arrives byte by byte, with the beginning of the next one. -/
example : [[0x16], [3], [1], [0], [2], [7, 8, 0x16], [3]].foldl read start =
    ⟨[0x16, 3, 1, 0, 2, 7, 8], true⟩ := by decide

end HelloConn

end RanHoneypot.Trap.Tls
