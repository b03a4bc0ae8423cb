import Mathlib.Data.List.Basic

/-!
# Buffered readers

The reader of `bufio` over a connection that delivers its bytes in chunks. A chunk is handed out by
one or more reads, and behind the last chunk the connection is at its end. The bytes that a reader will
still give are those of its buffer and then those of the chunks, its pending bytes. Every operation is
described by what it does to them, whatever the chunks are.
-/

namespace RanHoneypot

open List

structure BufReader (β : Type*) where
  /-- The length of the buffer. -/
  size : ℕ
  /-- The bytes that are buffered and not yet read. -/
  buf : List β
  /-- The chunks that the connection has not delivered yet. -/
  src : List (List β)

namespace BufReader

variable {β : Type*}

variable (n : ℕ) (r : BufReader β)

/-- `bufio.NewReaderSize`. -/
def ofChunks (size : ℕ) (chunks : List (List β)) : BufReader β := ⟨size, [], chunks⟩

def pending : List β := r.buf ++ r.src.flatten

/-- The buffer is within its length, and no chunk is empty. -/
structure WF (r : BufReader β) : Prop where
  size_pos : 0 < r.size
  buf_le : r.buf.length ≤ r.size
  chunks : ∀ chunk ∈ r.src, chunk ≠ []

/-- A read of at most `n` bytes from the connection, and the chunks behind it. -/
def readSource : List (List β) → List β × List (List β)
  | [] => ([], [])
  | chunk :: rest => (chunk.take n, if chunk.length ≤ n then rest else chunk.drop n :: rest)

/-- Reads into the free part of the buffer. -/
def fill : BufReader β where
  size := r.size
  buf := r.buf ++ (readSource (r.size - r.buf.length) r.src).1
  src := (readSource (r.size - r.buf.length) r.src).2

/-! ## Operations -/

/-- The loop of `Peek`, with a bound on its rounds. -/
def peekLoop (n : ℕ) : ℕ → BufReader β → BufReader β
  | 0, r => r
  | rounds + 1, r =>
    if r.buf.length < n ∧ r.buf.length < r.size ∧ r.src.isEmpty = false then
      peekLoop n rounds r.fill
    else r

/-- The next `n` bytes, which stay in the buffer. -/
def peek : Option (List β) × BufReader β :=
  let filled := peekLoop n r.size r
  (if n ≤ filled.buf.length then some (filled.buf.take n) else none, filled)

/-- `Read` into a slice of length `n`. Nothing is read at the end of the connection only. -/
def read : List β × BufReader β :=
  if n = 0 then ([], r)
  else if r.buf.isEmpty then
    if r.size ≤ n then
      ((readSource n r.src).1, { r with src := (readSource n r.src).2 })
    else
      ((readSource r.size r.src).1.take n,
        { r with
          buf := (readSource r.size r.src).1.drop n
          src := (readSource r.size r.src).2 })
  else (r.buf.take n, { r with buf := r.buf.drop n })

/-- The loop of `io.ReadFull`, with a bound on its rounds and the bytes read so far. -/
def readFullLoop : ℕ → ℕ → BufReader β → List β → Option (List β) × BufReader β
  | 0, n, r, got => (if n = 0 then some got else none, r)
  | rounds + 1, n, r, got =>
    if n = 0 then (some got, r)
    else if (r.read n).1.isEmpty then (none, (r.read n).2)
    else readFullLoop rounds (n - (r.read n).1.length) (r.read n).2 (got ++ (r.read n).1)

/-- `io.ReadFull` of a slice of length `n`. -/
def readFull : Option (List β) × BufReader β := readFullLoop n n r []

/-- Why `ReadSlice` returned. -/
inductive SliceEnd where
  | found
  | bufferFull
  | eof
deriving DecidableEq

/-- The loop of `ReadSlice`, with a bound on its rounds. -/
def readSliceLoop [DecidableEq β] (delim : β) : ℕ → BufReader β → (List β × SliceEnd) × BufReader β
  | 0, r => ((r.buf, .eof), { r with buf := [] })
  | rounds + 1, r =>
    if delim ∈ r.buf then
      ((r.buf.take (r.buf.idxOf delim + 1), .found),
        { r with buf := r.buf.drop (r.buf.idxOf delim + 1) })
    else if r.size ≤ r.buf.length then ((r.buf, .bufferFull), { r with buf := [] })
    else if r.src.isEmpty then ((r.buf, .eof), { r with buf := [] })
    else readSliceLoop delim rounds r.fill

/-- The bytes up to and including the delimiter, a full buffer, or what there is at the end. -/
def readSlice [DecidableEq β] (delim : β) (r : BufReader β) : (List β × SliceEnd) × BufReader β :=
  readSliceLoop delim (r.size + 1) r

/-! ## Reading from the connection -/

theorem readSource_append (src : List (List β)) :
    (readSource n src).1 ++ (readSource n src).2.flatten = src.flatten := by
  cases src with
  | nil => rfl
  | cons chunk rest =>
    simp only [readSource, flatten_cons]
    split
    · next hle => rw [take_of_length_le hle]
    · rw [flatten_cons, ← append_assoc, take_append_drop]

theorem readSource_length_le (src : List (List β)) : (readSource n src).1.length ≤ n := by
  cases src with
  | nil => exact Nat.zero_le n
  | cons chunk rest => exact length_take_le n _

theorem readSource_ne_nil {n : ℕ} (hn : 0 < n) {src : List (List β)} (hsrc : src ≠ [])
    (hchunks : ∀ chunk ∈ src, chunk ≠ []) : (readSource n src).1 ≠ [] := by
  cases src with
  | nil => exact absurd rfl hsrc
  | cons chunk rest =>
    have hchunk : chunk ≠ [] := hchunks chunk mem_cons_self
    simp only [readSource, ne_eq, take_eq_nil_iff, not_or]
    exact ⟨by omega, hchunk⟩

theorem readSource_chunks {src : List (List β)} (hchunks : ∀ chunk ∈ src, chunk ≠ []) :
    ∀ chunk ∈ (readSource n src).2, chunk ≠ [] := by
  cases src with
  | nil => exact hchunks
  | cons first rest =>
    intro chunk hchunk
    simp only [readSource] at hchunk
    split at hchunk
    · exact hchunks chunk (mem_cons_of_mem _ hchunk)
    · next hlong =>
      rcases mem_cons.mp hchunk with heq | hrest
      · rw [heq, ne_eq, drop_eq_nil_iff]
        exact hlong
      · exact hchunks chunk (mem_cons_of_mem _ hrest)

section

variable {r : BufReader β}

theorem wf_ofChunks {size : ℕ} (hsize : 0 < size) {chunks : List (List β)}
    (hchunks : ∀ chunk ∈ chunks, chunk ≠ []) : (ofChunks size chunks).WF :=
  ⟨hsize, Nat.zero_le size, hchunks⟩

@[simp] theorem pending_ofChunks (size : ℕ) (chunks : List (List β)) :
    (ofChunks size chunks).pending = chunks.flatten := rfl

@[simp] theorem size_fill : r.fill.size = r.size := rfl

@[simp] theorem pending_fill : r.fill.pending = r.pending := by
  rw [pending, fill, append_assoc, readSource_append, pending]

theorem WF.fill (h : r.WF) : r.fill.WF :=
  { h with
    buf_le := by
      have hbuf := h.buf_le
      have hread := readSource_length_le (r.size - r.buf.length) r.src
      simp only [BufReader.fill, length_append]
      omega
    chunks := readSource_chunks _ h.chunks }

/-- A fill makes progress as long as there is room and the connection is not at its end. -/
theorem WF.length_lt_fill (h : r.WF) (hroom : r.buf.length < r.size) (hsrc : r.src ≠ []) :
    r.buf.length < r.fill.buf.length := by
  have hread := readSource_ne_nil (Nat.sub_pos_of_lt hroom) hsrc h.chunks
  have hpos := length_pos_of_ne_nil hread
  rw [BufReader.fill, length_append]
  omega

theorem pending_of_src_nil (hsrc : r.src = []) : r.pending = r.buf := by
  rw [pending, hsrc, flatten_nil, append_nil]

/-! ## Peek -/

theorem peekLoop_spec {rounds : ℕ} (h : r.WF) (hrounds : r.size ≤ r.buf.length + rounds) :
    (peekLoop n rounds r).WF ∧ (peekLoop n rounds r).size = r.size ∧
      (peekLoop n rounds r).pending = r.pending ∧
      (n ≤ (peekLoop n rounds r).buf.length ∨ r.size ≤ (peekLoop n rounds r).buf.length ∨
        (peekLoop n rounds r).src = []) := by
  induction rounds generalizing r with
  | zero => exact ⟨h, rfl, rfl, .inr (.inl hrounds)⟩
  | succ rounds ih =>
    rw [peekLoop]
    split
    · next hmore =>
      have hsrc := isEmpty_eq_false_iff.mp hmore.2.2
      have hgrows := h.length_lt_fill hmore.2.1 hsrc
      rcases ih h.fill (by rw [size_fill]; omega) with ⟨hwf, hsize, hpending, hend⟩
      rw [pending_fill] at hpending
      exact ⟨hwf, hsize, hpending, hend⟩
    · next hstop =>
      refine ⟨h, rfl, rfl, ?_⟩
      by_contra hnone
      rw [not_or, not_or, Nat.not_le, Nat.not_le] at hnone
      exact hstop ⟨hnone.1, hnone.2.1, isEmpty_eq_false_iff.mpr hnone.2.2⟩

/-- `Peek` gives the next bytes if there are as many, and takes nothing. -/
theorem peek_spec {n : ℕ} (h : r.WF) (hn : n ≤ r.size) :
    (r.peek n).2.WF ∧ (r.peek n).2.pending = r.pending ∧
      (r.peek n).1 = if n ≤ r.pending.length then some (r.pending.take n) else none := by
  rcases peekLoop_spec n h (Nat.le_add_left ..) with ⟨hwf, hsize, hpending, hend⟩
  refine ⟨hwf, hpending, ?_⟩
  simp only [peek]
  rw [← hpending]
  by_cases hfull : n ≤ (peekLoop n r.size r).buf.length
  · have hle : n ≤ (peekLoop n r.size r).pending.length := by
      rw [pending, length_append]
      omega
    rw [if_pos hfull, if_pos hle, pending, take_append_of_le_length hfull]
  · have hsrc : (peekLoop n r.size r).src = [] := by
      rcases hend with hless | hsize' | hsrc
      · exact absurd hless hfull
      · omega
      · exact hsrc
    rw [pending_of_src_nil hsrc]

/-! ## Read -/

/-- A read takes bytes from the front of what is pending, at least one unless it is at the end. -/
theorem read_spec {n : ℕ} (h : r.WF) :
    (r.read n).2.WF ∧ (r.read n).1.length ≤ n ∧
      (r.read n).1 ++ (r.read n).2.pending = r.pending ∧
      (0 < n → r.pending ≠ [] → (r.read n).1 ≠ []) := by
  unfold read
  split
  · next hzero => exact ⟨h, Nat.zero_le n, rfl, fun hpos ↦ absurd hpos (by omega)⟩
  · next hpos =>
    split
    · next hempty =>
      have hbuf : r.buf = [] := List.isEmpty_iff.mp hempty
      have hpending : r.pending = r.src.flatten := by rw [pending, hbuf, nil_append]
      have hsome : r.pending ≠ [] → r.src ≠ [] := by
        intro hne hsrc
        exact hne (by rw [hpending, hsrc, flatten_nil])
      split
      · refine ⟨⟨h.size_pos, h.buf_le, readSource_chunks n h.chunks⟩, readSource_length_le n r.src,
          ?_, ?_⟩
        · rw [hpending, pending, hbuf, nil_append, readSource_append]
        · intro hn hne
          exact readSource_ne_nil hn (hsome hne) h.chunks
      · have hlength := readSource_length_le r.size r.src
        refine ⟨⟨h.size_pos, ?_, readSource_chunks _ h.chunks⟩, length_take_le n _, ?_, ?_⟩
        · simp only [length_drop]
          omega
        · rw [hpending, pending, ← append_assoc, take_append_drop, readSource_append]
        · intro hn hne
          have hread := readSource_ne_nil h.size_pos (hsome hne) h.chunks
          rw [ne_eq, take_eq_nil_iff, not_or]
          exact ⟨by omega, hread⟩
    · next hbuf =>
      refine ⟨⟨h.size_pos, ?_, h.chunks⟩, length_take_le n _, ?_, ?_⟩
      · have hle := h.buf_le
        simp only [length_drop]
        omega
      · rw [pending, ← append_assoc, take_append_drop, pending]
      · intro hn _
        rw [ne_eq, take_eq_nil_iff, not_or]
        exact ⟨by omega, fun hnil ↦ hbuf (List.isEmpty_iff.mpr hnil)⟩

theorem readFullLoop_spec {rounds n : ℕ} (h : r.WF) (hrounds : n ≤ rounds) (got : List β)
    (hn : n ≤ r.pending.length) :
    (readFullLoop rounds n r got).2.WF ∧
      (readFullLoop rounds n r got).1 = some (got ++ r.pending.take n) ∧
      (readFullLoop rounds n r got).2.pending = r.pending.drop n := by
  induction rounds generalizing r n got with
  | zero =>
    have hzero : n = 0 := by omega
    simp [readFullLoop, hzero, h]
  | succ rounds ih =>
    rw [readFullLoop]
    split
    · next hzero => simp [hzero, h]
    · next hpos =>
      rcases read_spec h (n := n) with ⟨hwf, hlength, happend, hprogress⟩
      have hne : r.pending ≠ [] := ne_nil_of_length_pos (by omega)
      have hread := hprogress (by omega) hne
      have hreadPos := length_pos_of_ne_nil hread
      have htotal := congrArg List.length happend
      rw [length_append] at htotal
      rw [if_neg (by rw [List.isEmpty_iff]; exact hread)]
      rcases ih hwf (by omega : n - (r.read n).1.length ≤ rounds) (got ++ (r.read n).1) (by omega)
        with ⟨hwf', hgot, hrest⟩
      refine ⟨hwf', ?_, ?_⟩
      · rw [hgot, append_assoc, ← happend, List.take_append, take_of_length_le hlength]
      · rw [hrest, ← happend, drop_append, drop_eq_nil_of_le hlength, nil_append]

/-- `io.ReadFull` takes exactly the bytes asked for, if there are as many. -/
theorem readFull_spec {n : ℕ} (h : r.WF) (hn : n ≤ r.pending.length) :
    (r.readFull n).2.WF ∧ (r.readFull n).1 = some (r.pending.take n) ∧
      (r.readFull n).2.pending = r.pending.drop n := by
  have hspec := readFullLoop_spec h (Nat.le_refl n) [] hn
  rwa [nil_append] at hspec

/-! ## Reading on -/

/-- Reads into slices of the given lengths, one after the other, and all bytes they gave. -/
def readAll : List ℕ → BufReader β → List β × BufReader β
  | [], r => ([], r)
  | n :: rest, r => ((r.read n).1 ++ (readAll rest (r.read n).2).1, (readAll rest (r.read n).2).2)

/-- Reads give what is pending, in order. -/
theorem readAll_append (h : r.WF) (sizes : List ℕ) :
    (readAll sizes r).1 ++ (readAll sizes r).2.pending = r.pending := by
  induction sizes generalizing r with
  | nil => rfl
  | cons n rest ih =>
    rcases read_spec h (n := n) with ⟨hwf, _, happend, _⟩
    rw [readAll, append_assoc, ih hwf, happend]

/-- Enough reads give everything. -/
theorem readAll_eq (h : r.WF) {sizes : List ℕ} (hsizes : ∀ n ∈ sizes, 0 < n)
    (hmany : r.pending.length ≤ sizes.length) : (readAll sizes r).1 = r.pending := by
  induction sizes generalizing r with
  | nil => exact (eq_nil_of_length_eq_zero (Nat.le_zero.mp hmany)).symm
  | cons n rest ih =>
    rcases read_spec h (n := n) with ⟨hwf, _, happend, hprogress⟩
    have hpos : 0 < n := hsizes n mem_cons_self
    have hrest : (r.read n).2.pending.length ≤ rest.length := by
      have htotal := congrArg List.length happend
      rw [length_append] at htotal
      by_cases hnil : r.pending = []
      · rw [hnil, length_nil] at htotal
        omega
      · have hread := length_pos_of_ne_nil (hprogress hpos hnil)
        rw [length_cons] at hmany
        omega
    rw [readAll, ih hwf (fun m hm ↦ hsizes m (mem_cons_of_mem n hm)) hrest, happend]

/-! ## ReadSlice -/

section

variable [DecidableEq β]

/-- What `ReadSlice` gives of the pending bytes, and what it leaves. -/
def sliceOf (delim : β) (size : ℕ) (bytes : List β) : (List β × SliceEnd) × List β :=
  if delim ∈ bytes.take size then
    ((bytes.take (bytes.idxOf delim + 1), .found), bytes.drop (bytes.idxOf delim + 1))
  else if size ≤ bytes.length then ((bytes.take size, .bufferFull), bytes.drop size)
  else ((bytes, .eof), [])

theorem readSliceLoop_spec (delim : β) {rounds : ℕ} (h : r.WF)
    (hrounds : r.size < r.buf.length + rounds) :
    (readSliceLoop delim rounds r).1 = (sliceOf delim r.size r.pending).1 ∧
      (readSliceLoop delim rounds r).2.pending = (sliceOf delim r.size r.pending).2 ∧
      (readSliceLoop delim rounds r).2.WF := by
  induction rounds generalizing r with
  | zero =>
    have hle := h.buf_le
    omega
  | succ rounds ih =>
    have hle := h.buf_le
    have htake : r.pending.take r.size = r.buf ++ r.src.flatten.take (r.size - r.buf.length) := by
      rw [pending, List.take_append, take_of_length_le hle]
    rw [readSliceLoop]
    split
    · next hfound =>
      have hindex : r.pending.idxOf delim = r.buf.idxOf delim := idxOf_append_of_mem hfound
      have hlt : r.buf.idxOf delim < r.buf.length := idxOf_lt_length_of_mem hfound
      have hmem : delim ∈ r.pending.take r.size := htake ▸ mem_append_left _ hfound
      rw [sliceOf, if_pos hmem, hindex]
      refine ⟨?_, ?_, ⟨h.size_pos, ?_, h.chunks⟩⟩
      · rw [pending, take_append_of_le_length hlt]
      · rw [pending, pending, drop_append_of_le_length hlt]
      · simp only [length_drop]
        omega
    · next habsent =>
      have hempty : (⟨r.size, [], r.src⟩ : BufReader β).WF :=
        ⟨h.size_pos, Nat.zero_le _, h.chunks⟩
      split
      · next hfull =>
        have hbuf : r.pending.take r.size = r.buf := by
          rw [htake, Nat.sub_eq_zero_of_le hfull, take_zero, append_nil]
        have hlength : r.size ≤ r.pending.length := by
          rw [pending, length_append]
          omega
        rw [sliceOf, if_neg (hbuf ▸ habsent), if_pos hlength, hbuf]
        refine ⟨rfl, ?_, hempty⟩
        rw [pending, pending, nil_append, Nat.le_antisymm hfull hle, drop_left]
      · next hroom =>
        split
        · next hend =>
          have hpending : r.pending = r.buf := pending_of_src_nil (List.isEmpty_iff.mp hend)
          rw [hpending, sliceOf, take_of_length_le hle, if_neg habsent, if_neg hroom]
          refine ⟨rfl, ?_, hempty⟩
          rw [List.isEmpty_iff.mp hend]
          rfl
        · next hmore =>
          have hgrows := h.length_lt_fill (Nat.not_le.mp hroom)
            (fun hnil ↦ hmore (List.isEmpty_iff.mpr hnil))
          have hspec := ih h.fill (by rw [size_fill]; omega)
          rw [pending_fill] at hspec
          exact hspec

theorem readSlice_spec (delim : β) (h : r.WF) :
    (r.readSlice delim).1 = (sliceOf delim r.size r.pending).1 ∧
      (r.readSlice delim).2.pending = (sliceOf delim r.size r.pending).2 ∧
      (r.readSlice delim).2.WF :=
  readSliceLoop_spec delim h (by omega)

end

end

end BufReader

end RanHoneypot
