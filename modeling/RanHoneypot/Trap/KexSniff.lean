import Mathlib.Data.List.GetD
import RanHoneypot.Data.ByteNumbers
import RanHoneypot.Data.Chunks
import RanHoneypot.Data.Digest

/-!
# The fingerprint of an SSH client

An SSH client sends its identification line and then a packet with the algorithms it offers. The trap taps
the bytes that arrive, keeps at most 16 KiB of them, and looks for that packet. A search that comes too
early remembers where the next one may begin and how many bytes it needs at least.

The search on a longer buffer goes on where the shorter one ended, so the fingerprint does not depend on
how the bytes arrive. The tap lets go of its buffer when the limit is reached, but only if it searches
then: a search that asked for more bytes than the limit was the last one.
-/

namespace RanHoneypot.Trap.Ssh

open GoText ByteNumbers Digest List

variable (digests : Digests)

def sshKexScanLimit : ℕ := 16 * 1024
def sshMsgKexInit : UInt8 := 20

/-- The results of a search. -/
@[ext] structure Scan where
  hassh : Text
  done : Bool
  resume : ℕ
  need : ℕ
  deriving DecidableEq

def hasshOf (kex enc mac comp : Text) : Text :=
  hexEncode (digests.md5 (kex ++ [ch ';'] ++ enc ++ [ch ';'] ++ mac ++ [ch ';'] ++ comp)).toList

/-- The search for the identification line. The result is the beginning of a line without its end, or the
beginning of the identification line and of what follows it. -/
def identLoop : ℕ → Text → ℕ → Except ℕ (ℕ × ℕ)
  | 0, _, pos => .error pos
  | rounds + 1, rest, pos =>
    match cut (ch '\n') rest with
    | none => .error pos
    | some (line, rest) =>
      if (Utf8.ofText "SSH-").isPrefixOf line then .ok (pos, pos + line.length + 1)
      else identLoop rounds rest (pos + line.length + 1)

/-- The name lists at the beginning of `p`. -/
def nameLists : ℕ → Text → Option (List Text)
  | 0, _ => some []
  | count + 1, p =>
    if p.length < 4 then none
    else
      let n := beValue (p.take 4)
      let p := p.drop 4
      if p.length < n then none
      else (nameLists count (p.drop n)).map fun lists ↦ p.take n :: lists

/-- The fingerprint in the payload of a packet. Without one the text is empty. -/
def payloadHassh (payload : Text) : Text :=
  if payload.length < 1 + 16 ∨ payload.head? ≠ some sshMsgKexInit then []
  else
    match nameLists 8 (payload.drop 17) with
    | none => []
    | some lists => hasshOf digests (lists.getD 0 []) (lists.getD 2 []) (lists.getD 4 []) (lists.getD 6 [])

/-- The search in the bytes behind the identification line, which stand at `pos`. -/
def scanPacket (rest : Text) (pos resume : ℕ) : Scan :=
  if rest.length < 6 then ⟨[], false, resume, pos + 6⟩
  else
    let pktLen := beValue (rest.take 4)
    let padLen := (rest.getD 4 0).toNat
    if pktLen < 2 ∨ sshKexScanLimit < pktLen ∨ pktLen < padLen + 1 then ⟨[], true, resume, 0⟩
    else if rest.length < 4 + pktLen then ⟨[], false, resume, pos + 4 + pktLen⟩
    else ⟨payloadHassh digests ((rest.take (4 + pktLen - padLen)).drop 5), true, resume, 0⟩

def scanKexInitFrom (buf : Text) (start : ℕ) : Scan :=
  match identLoop (buf.length + 1) (buf.drop start) start with
  | .error pos => ⟨[], false, pos, buf.length + 1⟩
  | .ok (resume, pos) => scanPacket digests (buf.drop pos) pos resume

def scanKexInit (buf : Text) : Text × Bool :=
  let scan := scanKexInitFrom digests buf 0
  (scan.hassh, scan.done)

/-- The tap. -/
@[ext] structure KexSniffConn where
  buf : Text
  resume : ℕ
  need : ℕ
  done : Bool
  hassh : Text
  deriving DecidableEq

namespace KexSniffConn

def start : KexSniffConn := ⟨[], 0, 0, false, []⟩

def feed (c : KexSniffConn) (b : Text) : KexSniffConn :=
  if c.done then c
  else
    let buf := c.buf ++ b.take (sshKexScanLimit - c.buf.length)
    if buf.length < c.need then { c with buf := buf }
    else
      let scan := scanKexInitFrom digests buf c.resume
      if scan.done ∨ sshKexScanLimit ≤ buf.length then ⟨[], scan.resume, scan.need, true, scan.hassh⟩
      else { c with buf := buf, resume := scan.resume, need := scan.need }

/-- What a read of the bytes `p` does to the tap. -/
def read (c : KexSniffConn) (p : Text) : KexSniffConn :=
  if 0 < p.length then c.feed digests p else c

end KexSniffConn

/-! ## The identification line -/

variable {rest : Text}

variable {line after : Text}

/-- The search in `rest`, which stands at `pos`. -/
def identify (rest : Text) (pos : ℕ) : Except ℕ (ℕ × ℕ) := identLoop (rest.length + 1) rest pos

theorem length_of_cut (hcut : cut (ch '\n') rest = some (line, after)) :
    rest.length = line.length + 1 + after.length := by
  rw [(cut_eq_some_iff.mp hcut).1, length_append, length_cons]
  omega

theorem identLoop_enough {rounds : ℕ} (hrounds : rest.length < rounds) (pos : ℕ) :
    identLoop rounds rest pos = identify rest pos := by
  have hany : ∀ (n m : ℕ) (rest : Text) (pos : ℕ), rest.length < n → rest.length < m →
      identLoop n rest pos = identLoop m rest pos := by
    intro n
    induction n with
    | zero => intro m rest pos hn; omega
    | succ n ih =>
      intro m rest pos hn hm
      cases m with
      | zero => omega
      | succ m =>
        rw [identLoop, identLoop]
        cases hcut : cut (ch '\n') rest with
        | none => rfl
        | some parts =>
          have hlength := length_of_cut hcut
          simp only
          rw [ih m parts.2 _ (by omega) (by omega)]
  exact hany _ _ _ _ hrounds (Nat.lt_succ_self _)

theorem identify_of_cut_none (hcut : cut (ch '\n') rest = none) (pos : ℕ) :
    identify rest pos = .error pos := by
  rw [identify, identLoop, hcut]

theorem identify_of_cut_some (hcut : cut (ch '\n') rest = some (line, after)) (pos : ℕ) :
    identify rest pos =
      if (Utf8.ofText "SSH-").isPrefixOf line then .ok (pos, pos + line.length + 1)
      else identify after (pos + line.length + 1) := by
  have hlength := length_of_cut hcut
  rw [identify, identLoop, hcut]
  simp only
  rw [identLoop_enough (by omega)]

theorem cut_append (hcut : cut (ch '\n') rest = some (line, after)) (more : Text) :
    cut (ch '\n') (rest ++ more) = some (line, after ++ more) := by
  have hparts := cut_eq_some_iff.mp hcut
  refine cut_eq_some_iff.mpr ⟨?_, hparts.2⟩
  rw [hparts.1, append_assoc, cons_append]

/-- The line is found at the same place in a longer text. -/
theorem identify_append {pos : ℕ} {found : ℕ × ℕ} (hfound : identify rest pos = .ok found)
    (more : Text) : identify (rest ++ more) pos = .ok found ∧ found.2 ≤ pos + rest.length := by
  induction hsize : rest.length using Nat.strong_induction_on generalizing rest pos with
  | _ size ih =>
    cases hcut : cut (ch '\n') rest with
    | none =>
      rw [identify_of_cut_none hcut] at hfound
      cases hfound
    | some parts =>
      have hlength := length_of_cut hcut
      rw [identify_of_cut_some hcut] at hfound
      rw [identify_of_cut_some (cut_append hcut _)]
      split at hfound
      · next hssh =>
        cases hfound
        rw [if_pos hssh]
        exact ⟨rfl, by simp only; omega⟩
      · next hother =>
        rw [if_neg hother]
        have hrest := ih parts.2.length (by omega) hfound rfl
        exact ⟨hrest.1, by omega⟩

/-- Where a search resumes. -/
def resumeOf : Except ℕ (ℕ × ℕ) → ℕ
  | .error pos => pos
  | .ok (start, _) => start

/-- A search that begins where an earlier one said finds in a longer text what a search from the beginning
finds there. -/
theorem identify_resume (rest : Text) (pos : ℕ) :
    ∃ skip ≤ rest.length, resumeOf (identify rest pos) = pos + skip ∧
      ∀ more, identify (rest.drop skip ++ more) (pos + skip) = identify (rest ++ more) pos := by
  induction hsize : rest.length using Nat.strong_induction_on generalizing rest pos with
  | _ size ih =>
    cases hcut : cut (ch '\n') rest with
    | none =>
      rw [identify_of_cut_none hcut]
      exact ⟨0, Nat.zero_le _, rfl, fun more ↦ rfl⟩
    | some parts =>
      have hlength := length_of_cut hcut
      rw [identify_of_cut_some hcut]
      split
      · exact ⟨0, Nat.zero_le _, rfl, fun more ↦ rfl⟩
      · next hother =>
        rcases ih parts.2.length (by omega) parts.2 (pos + parts.1.length + 1) rfl
          with ⟨skip, hskip, hresume, hagree⟩
        refine ⟨parts.1.length + 1 + skip, by omega, by rw [hresume]; omega, ?_⟩
        intro more
        have hdrop : rest.drop (parts.1.length + 1 + skip) = parts.2.drop skip := by
          rw [(cut_eq_some_iff.mp hcut).1, Nat.add_assoc, drop_length_add_append, Nat.add_comm,
            drop_succ_cons]
        have hpos : pos + (parts.1.length + 1 + skip) = pos + parts.1.length + 1 + skip := by omega
        rw [hdrop, hpos, hagree more, identify_of_cut_some (cut_append hcut _), if_neg hother]

/-! ## The packet -/

section

variable (digests : Digests)

variable (buf more : Text)

theorem beValue_take_append (hlength : 4 ≤ rest.length) (more : Text) :
    beValue ((rest ++ more).take 4) = beValue (rest.take 4) := by
  rw [take_append_of_le_length hlength]

/-- A search with a result has the same one on a longer text. One without stays without, as long as the
bytes that it asked for are not all there. -/
theorem scanPacket_append (rest more : Text) (pos resume : ℕ)
    (hstays : (scanPacket digests rest pos resume).done = true ∨
      pos + (rest ++ more).length < (scanPacket digests rest pos resume).need) :
    scanPacket digests (rest ++ more) pos resume = scanPacket digests rest pos resume := by
  unfold scanPacket at hstays ⊢
  by_cases hheader : rest.length < 6
  · rw [if_pos hheader] at hstays ⊢
    rcases hstays with hdone | hneed
    · cases hdone
    · rw [if_pos (by simp only at hneed; omega)]
  · have hlonger : ¬ (rest ++ more).length < 6 := by
      rw [length_append]
      omega
    have hpkt : beValue ((rest ++ more).take 4) = beValue (rest.take 4) :=
      beValue_take_append (by omega) more
    have hpad : (rest ++ more).getD 4 0 = rest.getD 4 0 := getD_append _ _ _ _ (by omega)
    simp only [if_neg hheader, if_neg hlonger, hpkt, hpad] at hstays ⊢
    split
    · rfl
    · next hlegal =>
      rw [if_neg hlegal] at hstays
      by_cases hshort : rest.length < 4 + beValue (rest.take 4)
      · rw [if_pos hshort] at hstays ⊢
        rcases hstays with hdone | hneed
        · cases hdone
        · rw [if_pos (by simp only at hneed; omega)]
      · have hmore : ¬ (rest ++ more).length < 4 + beValue (rest.take 4) := by
          rw [length_append]
          omega
        rw [if_neg hshort, if_neg hmore, take_append_of_le_length (by omega)]

theorem scanPacket_resume (rest : Text) (pos resume : ℕ) :
    (scanPacket digests rest pos resume).resume = resume := by
  unfold scanPacket
  split
  · rfl
  · simp only
    split
    · rfl
    · split <;> rfl

/-- A search with a result asks for no more bytes; one without has found no fingerprint and asks for more
than there are. -/
theorem scanPacket_cases (rest : Text) (pos resume : ℕ) :
    ((scanPacket digests rest pos resume).done = true ∧ (scanPacket digests rest pos resume).need = 0) ∨
      ((scanPacket digests rest pos resume).done = false ∧
        (scanPacket digests rest pos resume).hassh = [] ∧
        pos + rest.length < (scanPacket digests rest pos resume).need) := by
  unfold scanPacket
  split
  · next hshort => exact .inr ⟨rfl, rfl, by simp only; omega⟩
  · simp only
    split
    · exact .inl ⟨rfl, rfl⟩
    · split
      · next hshort => exact .inr ⟨rfl, rfl, by simp only; omega⟩
      · exact .inl ⟨rfl, rfl⟩

/-! ## The whole search -/

/-- The search from the beginning. -/
def scanAll : Scan := scanKexInitFrom digests buf 0

theorem scanKexInitFrom_eq (start : ℕ) : scanKexInitFrom digests buf start =
    match identify (buf.drop start) start with
    | .error pos => ⟨[], false, pos, buf.length + 1⟩
    | .ok (resume, pos) => scanPacket digests (buf.drop pos) pos resume := by
  rw [scanKexInitFrom, identLoop_enough (by rw [length_drop]; omega)]

theorem scanAll_eq : scanAll digests buf =
    match identify buf 0 with
    | .error pos => ⟨[], false, pos, buf.length + 1⟩
    | .ok (resume, pos) => scanPacket digests (buf.drop pos) pos resume :=
  scanKexInitFrom_eq digests buf 0

theorem scanAll_append
    (hstays : (scanAll digests buf).done = true ∨ (buf ++ more).length < (scanAll digests buf).need) :
    scanAll digests (buf ++ more) = scanAll digests buf := by
  rw [scanAll_eq] at hstays
  rw [scanAll_eq, scanAll_eq]
  cases hfound : identify buf 0 with
  | error pos =>
    rw [hfound] at hstays
    rcases hstays with hdone | hneed
    · cases hdone
    · have hnil : more = [] := by
        rw [length_append] at hneed
        exact eq_nil_of_length_eq_zero (by simp only at hneed; omega)
      rw [hnil, append_nil, hfound]
  | ok found =>
    have happend := identify_append hfound more
    rw [hfound] at hstays
    rw [happend.1]
    have hdrop : (buf ++ more).drop found.2 = buf.drop found.2 ++ more :=
      drop_append_of_le_length (by omega)
    simp only [hdrop]
    apply scanPacket_append
    simp only at hstays
    rcases hstays with hdone | hneed
    · exact .inl hdone
    · refine .inr ?_
      rw [length_append] at hneed ⊢
      rw [length_drop]
      omega

theorem scanAll_cases :
    ((scanAll digests buf).done = true ∧ (scanAll digests buf).need = 0) ∨
      ((scanAll digests buf).done = false ∧ (scanAll digests buf).hassh = [] ∧
        buf.length < (scanAll digests buf).need) := by
  rw [scanAll_eq]
  cases hfound : identify buf 0 with
  | error pos => exact .inr ⟨rfl, rfl, Nat.lt_succ_self _⟩
  | ok found =>
    have hpos := (identify_append hfound []).2
    have hlength : found.2 + (buf.drop found.2).length = buf.length := by
      rw [length_drop]
      omega
    rw [← hlength]
    exact scanPacket_cases ..

/-- A search that begins where the last one said gives the same results as one from the beginning. -/
theorem scanKexInitFrom_resume :
    scanKexInitFrom digests (buf ++ more) (scanAll digests buf).resume =
      scanAll digests (buf ++ more) := by
  have hresume : (scanAll digests buf).resume = resumeOf (identify buf 0) := by
    rw [scanAll_eq]
    cases identify buf 0 with
    | error pos => rfl
    | ok found => exact scanPacket_resume _ ..
  rcases identify_resume buf 0 with ⟨skip, hskip, hskipped, hagree⟩
  rw [hresume, hskipped, scanKexInitFrom_eq, scanAll_eq, Nat.zero_add,
    drop_append_of_le_length hskip]
  have hmore := hagree more
  rw [Nat.zero_add] at hmore
  rw [hmore]

/-! ## The tap -/

namespace KexSniffConn

variable {c : KexSniffConn} (reads : List Text) {seen b : Text}

/-- The tap after the bytes `seen`, while they are within the limit and hold no result. -/
def waiting (seen : Text) : KexSniffConn :=
  if seen = [] then start
  else ⟨seen, (scanAll digests seen).resume, (scanAll digests seen).need, false, []⟩

/-- How the tap stands to the bytes that have arrived. -/
inductive Belongs : KexSniffConn → Text → Prop
  | waiting {c : KexSniffConn} {seen : Text} (hlimit : seen.length < sshKexScanLimit)
      (hopen : (scanAll digests seen).done = false) (hc : c = waiting digests seen) : Belongs c seen
  | stuck {c : KexSniffConn} {seen : Text} (hlimit : sshKexScanLimit ≤ seen.length)
      (hdone : c.done = false) (hneed : sshKexScanLimit < c.need) (hhassh : c.hassh = [])
      (hbuf : c.buf = seen.take sshKexScanLimit)
      (hscan : (scanAll digests (seen.take sshKexScanLimit)).hassh = []) : Belongs c seen
  | finished {c : KexSniffConn} {seen : Text} (hdone : c.done = true) (hbuf : c.buf = [])
      (hhassh : ∀ more, (scanAll digests ((seen ++ more).take sshKexScanLimit)).hassh = c.hassh)
      (hearly : seen.length < sshKexScanLimit → (scanAll digests seen).done = true) : Belongs c seen

theorem waiting_buf (seen : Text) : (waiting digests seen).buf = seen := by
  unfold waiting
  split
  · next hnil => exact hnil.symm
  · rfl

theorem waiting_done (seen : Text) : (waiting digests seen).done = false := by
  unfold waiting
  split <;> rfl

theorem waiting_hassh (seen : Text) : (waiting digests seen).hassh = [] := by
  unfold waiting
  split <;> rfl

theorem waiting_of_ne (hseen : seen ≠ []) : waiting digests seen =
    ⟨seen, (scanAll digests seen).resume, (scanAll digests seen).need, false, []⟩ := if_neg hseen

theorem scanKexInitFrom_waiting (seen more : Text) :
    scanKexInitFrom digests (seen ++ more) (waiting digests seen).resume =
      scanAll digests (seen ++ more) := by
  by_cases hseen : seen = []
  · rw [hseen]
    rfl
  · rw [waiting_of_ne _ hseen]
    exact scanKexInitFrom_resume ..

theorem buffered (hlimit : seen.length < sshKexScanLimit) (b : Text) :
    seen ++ b.take (sshKexScanLimit - seen.length) = (seen ++ b).take sshKexScanLimit := by
  rw [List.take_append, take_of_length_le hlimit.le]

/-- A chunk that completes nothing is only kept. -/
theorem feed_of_short (hdone : c.done = false)
    (hshort : (c.buf ++ b.take (sshKexScanLimit - c.buf.length)).length < c.need) :
    c.feed digests b = { c with buf := c.buf ++ b.take (sshKexScanLimit - c.buf.length) } := by
  rw [feed, if_neg (by rw [hdone]; exact Bool.false_ne_true)]
  simp only [if_pos hshort]

/-- Too few bytes leave the tap waiting, or make it wait for ever. -/
theorem belongs_feed_short (hlimit : seen.length < sshKexScanLimit)
    (hopen : (scanAll digests seen).done = false)
    (hshort : ((seen ++ b).take sshKexScanLimit).length < (waiting digests seen).need) :
    Belongs digests { waiting digests seen with buf := (seen ++ b).take sshKexScanLimit } (seen ++ b) := by
  have hseen : seen ≠ [] := by
    intro hnil
    rw [hnil] at hshort
    exact Nat.not_lt_zero _ hshort
  rw [waiting_of_ne _ hseen] at hshort ⊢
  have hsame : scanAll digests ((seen ++ b).take sshKexScanLimit) = scanAll digests seen := by
    rw [← buffered hlimit] at hshort ⊢
    exact scanAll_append _ _ _ (.inr hshort)
  have hempty : (scanAll digests seen).hassh = [] := by
    rcases scanAll_cases digests seen with hend | hwait
    · rw [hopen] at hend
      cases hend.1
    · exact hwait.2.1
  by_cases hroom : (seen ++ b).length < sshKexScanLimit
  · rw [take_of_length_le hroom.le] at hsame ⊢
    have hmore : seen ++ b ≠ [] := fun hnil ↦ hseen (append_eq_nil_iff.mp hnil).1
    refine .waiting hroom (by rw [hsame, hopen]) ?_
    rw [waiting_of_ne _ hmore, hsame]
  · rw [length_take, Nat.min_eq_left (not_lt.mp hroom)] at hshort
    exact .stuck (not_lt.mp hroom) rfl hshort rfl rfl (by rw [hsame, hempty])

/-- The result of a search on the buffered bytes is the one on all bytes within the limit. -/
theorem belongs_finished (c : KexSniffConn) (hdone : c.done = true) (hbuf : c.buf = [])
    (hhassh : c.hassh = (scanAll digests (seen.take sshKexScanLimit)).hassh)
    (hend : (scanAll digests (seen.take sshKexScanLimit)).done = true ∨
      sshKexScanLimit ≤ (seen.take sshKexScanLimit).length) : Belongs digests c seen := by
  refine .finished hdone hbuf ?_ ?_
  · intro more
    rw [hhassh, List.take_append]
    rcases hend with hend | hfull
    · rw [scanAll_append _ _ _ (.inl hend)]
    · rw [length_take] at hfull
      rw [Nat.sub_eq_zero_of_le (by omega), take_zero, append_nil]
  · intro hshort
    rw [take_of_length_le hshort.le] at hend
    rcases hend with hend | hfull
    · exact hend
    · omega

theorem belongs_feed_waiting (hb : b ≠ []) (hlimit : seen.length < sshKexScanLimit)
    (hopen : (scanAll digests seen).done = false) :
    Belongs digests ((waiting digests seen).feed digests b) (seen ++ b) := by
  have hdone := waiting_done digests seen
  have hbuffered : (waiting digests seen).buf ++
      b.take (sshKexScanLimit - (waiting digests seen).buf.length) =
        (seen ++ b).take sshKexScanLimit := by
    rw [waiting_buf, buffered hlimit]
  by_cases hshort : ((seen ++ b).take sshKexScanLimit).length < (waiting digests seen).need
  · have hkept := feed_of_short digests hdone (b := b) (by rw [hbuffered]; exact hshort)
    rw [hkept, hbuffered]
    exact belongs_feed_short _ hlimit hopen hshort
  · have hscan : scanKexInitFrom digests ((seen ++ b).take sshKexScanLimit)
        (waiting digests seen).resume = scanAll digests ((seen ++ b).take sshKexScanLimit) := by
      rw [← buffered hlimit]
      exact scanKexInitFrom_waiting ..
    rw [feed, if_neg (by rw [hdone]; exact Bool.false_ne_true)]
    simp only [hbuffered, if_neg hshort, hscan]
    split
    · next hend => exact belongs_finished _ _ rfl rfl rfl hend
    · next hgoes =>
      rw [not_or, length_take] at hgoes
      have hroom : (seen ++ b).length < sshKexScanLimit := by omega
      have hmore : seen ++ b ≠ [] := fun hnil ↦ hb (append_eq_nil_iff.mp hnil).2
      rw [take_of_length_le hroom.le] at hgoes ⊢
      refine .waiting hroom (Bool.eq_false_of_not_eq_true hgoes.1) ?_
      rw [waiting_of_ne _ hmore, hdone, waiting_hassh]

theorem belongs_read (c : KexSniffConn) (seen b : Text) (hc : Belongs digests c seen) :
    Belongs digests (c.read digests b) (seen ++ b) := by
  unfold read
  by_cases hempty : b = []
  · rw [hempty, append_nil]
    exact hc
  · rw [if_pos (length_pos_of_ne_nil hempty)]
    cases hc with
    | waiting hlimit hopen hc =>
      rw [hc]
      exact belongs_feed_waiting _ hempty hlimit hopen
    | stuck hlimit hdone hneed hhassh hbuf hscan =>
      have hfull : c.buf.length = sshKexScanLimit := by
        rw [hbuf, length_take, Nat.min_eq_left hlimit]
      have hkeep : c.buf ++ b.take (sshKexScanLimit - c.buf.length) = c.buf := by
        rw [hfull, Nat.sub_self, take_zero, append_nil]
      have hsame : (seen ++ b).take sshKexScanLimit = seen.take sshKexScanLimit :=
        take_append_of_le_length hlimit
      rw [feed_of_short _ hdone (by rw [hkeep, hfull]; exact hneed), hkeep]
      refine .stuck ?_ hdone hneed hhassh (hbuf.trans hsame.symm) (by rw [hsame, hscan])
      rw [length_append]
      omega
    | finished hdone hbuf hhassh hearly =>
      rw [feed, if_pos hdone]
      refine .finished hdone hbuf ?_ ?_
      · intro more
        rw [append_assoc]
        exact hhassh (b ++ more)
      · intro hshort
        rw [length_append] at hshort
        have hend := hearly (by omega)
        rw [scanAll_append _ _ b (.inl hend)]
        exact hend

theorem belongs_start : Belongs digests start [] :=
  .waiting (by decide) rfl rfl

theorem belongs_reads : Belongs digests (reads.foldl (read digests) start) reads.flatten :=
  Chunks.foldl_invariant (belongs_read digests) reads (belongs_start digests)

/-- However the bytes arrive, the fingerprint is that of a search in the first 16 KiB of the stream. -/
theorem hassh_chunking (reads : List Text) :
    (reads.foldl (read digests) start).hassh =
      (scanKexInit digests (reads.flatten.take sshKexScanLimit)).1 := by
  have hbelongs := belongs_reads digests reads
  cases hbelongs with
  | waiting hlimit hopen hc =>
    rw [take_of_length_le hlimit.le, hc, waiting_hassh]
    rcases scanAll_cases digests reads.flatten with hend | hwait
    · rw [hopen] at hend
      cases hend.1
    · exact hwait.2.1.symm
  | stuck hlimit hdone hneed hhassh hbuf hscan =>
    rw [hhassh]
    exact hscan.symm
  | finished hdone hbuf hhassh hearly =>
    have hall := hhassh []
    rw [append_nil] at hall
    exact hall.symm

/-! ## The buffer -/

/-- Some read ended before the limit, at a place from which the search asks for more bytes than the limit
allows. -/
def AsksTooMuch : Prop :=
  ∃ front, front <+: reads ∧ front.flatten.length < sshKexScanLimit ∧
    sshKexScanLimit < (scanKexInitFrom digests front.flatten 0).need

/-- Once the search has asked for too much, the tap keeps its buffer. -/
theorem need_read (hdone : c.done = false) (hneed : sshKexScanLimit < c.need)
    (hbuf : c.buf.length ≤ sshKexScanLimit) (b : Text) :
    (c.read digests b).done = false ∧ (c.read digests b).need = c.need := by
  unfold read
  split
  · rw [feed_of_short _ hdone]
    · exact ⟨hdone, rfl⟩
    · rw [length_append, length_take]
      omega
  · exact ⟨hdone, rfl⟩

theorem belongs_buf_le (hc : Belongs digests c seen) : c.buf.length ≤ sshKexScanLimit := by
  cases hc with
  | waiting hlimit hopen hc =>
    rw [hc, waiting_buf]
    exact hlimit.le
  | stuck hlimit hdone hneed hhassh hbuf hscan =>
    rw [hbuf]
    exact length_take_le ..
  | finished hdone hbuf hhassh hearly =>
    rw [hbuf]
    exact Nat.zero_le _

/-- A tap that belongs to bytes within the limit knows what a search on them would ask for. -/
theorem need_of_belongs (hc : Belongs digests c seen) (hlimit : seen.length < sshKexScanLimit)
    (hneed : sshKexScanLimit < (scanAll digests seen).need) :
    c.done = false ∧ c.need = (scanAll digests seen).need := by
  cases hc with
  | waiting hroom hopen hc =>
    have hseen : seen ≠ [] := by
      intro hnil
      have hone : (scanAll digests []).need = 1 := rfl
      rw [hnil, hone] at hneed
      exact absurd hneed (by decide)
    rw [hc, waiting_of_ne _ hseen]
    exact ⟨rfl, rfl⟩
  | stuck hfull => omega
  | finished hdone hbuf hhassh hearly =>
    rcases scanAll_cases digests seen with hend | hwait
    · rw [hend.2] at hneed
      exact absurd hneed (Nat.not_lt_zero _)
    · rw [hearly hlimit] at hwait
      cases hwait.1

theorem need_of_asksTooMuch {reads : List Text} (hasks : AsksTooMuch digests reads) :
    (reads.foldl (read digests) start).done = false ∧
      sshKexScanLimit < (reads.foldl (read digests) start).need := by
  rcases hasks with ⟨front, ⟨later, hreads⟩, hlimit, hneed⟩
  rw [← hreads]
  clear hreads
  induction later using List.reverseRecOn with
  | nil =>
    rw [append_nil]
    have hfront := need_of_belongs digests (belongs_reads ..) hlimit hneed
    exact ⟨hfront.1, by rw [hfront.2]; exact hneed⟩
  | append_singleton later b ih =>
    have hbuf := belongs_buf_le digests (belongs_reads _ (front ++ later))
    have hread := need_read digests ih.1 ih.2 hbuf b
    rw [← append_assoc, foldl_concat]
    exact ⟨hread.1, by rw [hread.2]; exact ih.2⟩

theorem AsksTooMuch.append {reads : List Text} (hasks : AsksTooMuch digests reads) (b : Text) :
    AsksTooMuch digests (reads ++ [b]) := by
  rcases hasks with ⟨front, hfront, hlimit, hneed⟩
  exact ⟨front, hfront.trans (prefix_append ..), hlimit, hneed⟩

/-- A search at the limit is the last one. -/
theorem done_feed_of_full (hneed : c.need ≤ sshKexScanLimit)
    (hfull : sshKexScanLimit ≤ (c.buf ++ b.take (sshKexScanLimit - c.buf.length)).length) :
    (c.feed digests b).done = true := by
  rw [feed]
  split
  · next hdone => exact hdone
  · rw [if_neg (by omega), if_pos (.inr hfull)]

/-- A tap that waits within the limit and not at it has asked for too much. -/
theorem waiting_need (hlimit : seen.length < sshKexScanLimit)
    (hfull : sshKexScanLimit ≤ (seen ++ b).length)
    (hdone : ((waiting digests seen).read digests b).done = false) :
    sshKexScanLimit < (scanAll digests seen).need := by
  have hread : (waiting digests seen).read digests b = (waiting digests seen).feed digests b := by
    rw [length_append] at hfull
    exact if_pos (by omega)
  have hneed : sshKexScanLimit < (waiting digests seen).need := by
    by_contra hsmall
    rw [hread, done_feed_of_full _ (not_lt.mp hsmall)] at hdone
    · cases hdone
    · rw [waiting_buf, buffered hlimit, length_take]
      omega
  unfold waiting at hneed
  split at hneed
  · exact absurd hneed (Nat.not_lt_zero _)
  · exact hneed

/-- A tap that reaches the limit without a result has asked for too much before. -/
theorem asksTooMuch_of_stuck (hdone : (reads.foldl (read digests) start).done = false)
    (hlimit : sshKexScanLimit ≤ reads.flatten.length) : AsksTooMuch digests reads := by
  induction reads using List.reverseRecOn with
  | nil => exact absurd hlimit (by decide)
  | append_singleton reads b ih =>
    rw [foldl_concat] at hdone
    rw [flatten_concat] at hlimit
    have hbelongs := belongs_reads digests reads
    cases hbelongs with
    | waiting hroom hopen hc =>
      rw [hc] at hdone
      exact ⟨reads, prefix_append _ _, hroom, waiting_need _ hroom hlimit hdone⟩
    | stuck hfull hwaits => exact (ih hwaits hfull).append digests b
    | finished hend =>
      rw [read, feed, if_pos hend, ite_self, hend] at hdone
      cases hdone

/-- After 16 KiB the tap is done and has let go of its buffer exactly if no read ended before the limit at a
place from which the search asks for more than the limit. -/
theorem released_iff (reads : List Text) (hfed : sshKexScanLimit ≤ reads.flatten.length) :
    ((reads.foldl (read digests) start).done = true ∧ (reads.foldl (read digests) start).buf = []) ↔
      ∀ front, front <+: reads → front.flatten.length < sshKexScanLimit →
        (scanKexInitFrom digests front.flatten 0).need ≤ sshKexScanLimit := by
  constructor
  · intro hreleased front hfront hlimit
    by_contra hneed
    have hasks : AsksTooMuch digests reads := ⟨front, hfront, hlimit, not_le.mp hneed⟩
    rw [(need_of_asksTooMuch _ hasks).1] at hreleased
    cases hreleased.1
  · intro hmodest
    have hbelongs := belongs_reads digests reads
    have hdone : (reads.foldl (read digests) start).done = true := by
      by_contra hopen
      rcases asksTooMuch_of_stuck digests reads (Bool.eq_false_of_not_eq_true hopen) hfed
        with ⟨front, hfront, hlimit, hneed⟩
      exact absurd hneed (Nat.not_lt_of_le (hmodest front hfront hlimit))
    cases hbelongs with
    | waiting hlimit => omega
    | stuck hlimit hopen =>
      rw [hopen] at hdone
      cases hdone
    | finished hend hbuf => exact ⟨hdone, hbuf⟩

/-- One large read reaches the limit before any search. -/
theorem released_after_one_read :
    sshKexScanLimit ≤ [List.replicate 16384 (0 : UInt8)].flatten.length ∧
      ([List.replicate 16384 0].foldl (read .constant) start).done = true ∧
      ([List.replicate 16384 0].foldl (read .constant) start).buf = [] := by
  have hfed : sshKexScanLimit ≤ [List.replicate 16384 (0 : UInt8)].flatten.length := by
    rw [flatten_singleton, length_replicate]
    decide
  refine ⟨hfed, (released_iff _ _ hfed).mpr ?_⟩
  intro front hfront hlimit
  rcases prefix_cons_iff.mp hfront with hnil | ⟨rest, hcons, hrest⟩
  · rw [hnil]
    decide
  · rw [hcons, prefix_nil.mp hrest, flatten_singleton, length_replicate] at hlimit
    exact absurd hlimit (by decide)

/-- The first read ends behind the header of a packet of 16 KiB. The packet would end behind the limit, so
the tap keeps all bytes up to the limit and is never done. -/
theorem kept_after_announcement :
    sshKexScanLimit ≤
        [Utf8.ofText "SSH-a\n" ++ [0, 0, 64, 0, 4, 20], List.replicate 16384 0].flatten.length ∧
      ([Utf8.ofText "SSH-a\n" ++ [0, 0, 64, 0, 4, 20], List.replicate 16384 0].foldl
        (read .constant) start).done = false ∧
      ([Utf8.ofText "SSH-a\n" ++ [0, 0, 64, 0, 4, 20], List.replicate 16384 0].foldl
        (read .constant) start).buf.length = sshKexScanLimit := by
  have hfirst : read .constant start (Utf8.ofText "SSH-a\n" ++ [0, 0, 64, 0, 4, 20]) =
      ⟨Utf8.ofText "SSH-a\n" ++ [0, 0, 64, 0, 4, 20], 0, 16394, false, []⟩ := by decide
  have hlength : (Utf8.ofText "SSH-a\n" ++ [0, 0, 64, 0, 4, 20]).length = 12 := by decide
  have hlimit : sshKexScanLimit = 16384 := rfl
  have hbuffered : (Utf8.ofText "SSH-a\n" ++ [0, 0, 64, 0, 4, 20] ++
      (List.replicate 16384 0).take (sshKexScanLimit - 12)).length = sshKexScanLimit := by
    rw [length_append, length_take, length_replicate]
    decide
  refine ⟨?_, ?_⟩
  · rw [flatten_cons, flatten_singleton, length_append, length_replicate]
    omega
  · rw [foldl_cons, foldl_cons, hfirst, read,
      if_pos (by rw [length_replicate]; decide), feed_of_short _ rfl]
    · exact ⟨rfl, by rw [hlength]; exact hbuffered⟩
    · rw [hlength, hbuffered]
      decide

end KexSniffConn

end

end RanHoneypot.Trap.Ssh
