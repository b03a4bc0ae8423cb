import RanHoneypot.Data.TableSums
import RanHoneypot.Data.TimedRun
import RanHoneypot.Alert.OffenderUpkeep

/-!
# No refused connection is lost

A refused connection is counted in the open shun window of its source, and the count leaves the table
in a summary when the window is closed: by a lookup or a sweep that finds it ended, by a later alert,
by a revert, or because its entry expires or is evicted. The flush at shutdown writes the summary of a
window that stays open. `Keeps` says that one operation moves the pending counts into its summaries,
all of them and each only once. It is closed under composition, so that every path of the source gets
one lemma.

The clock is arbitrary here. Go iterates over the set of open windows in an unspecified order and may
visit a window twice that is written back during the iteration, so the loops of `sweep` and `flush`
are taken over an arbitrary list of visits.
-/

namespace RanHoneypot.Alert

open TimedRun List IndexedList

namespace OffenderTable

variable (sources : String → Bool)

/-- The refused connections of the given sources that are still counted in the table. -/
def pending (o : OffenderTable) : ℤ :=
  o.table.total fun e ↦ if sources e.ip then e.suppressed else 0

/-- The refused connections of the given sources in a list of summaries. -/
def reported (sums : List ShunSummary) : ℤ :=
  (sums.map fun s ↦ if sources s.ip then s.count else 0).sum

@[simp] theorem reported_nil : reported sources [] = 0 := rfl

@[simp] theorem reported_append (first second : List ShunSummary) :
    reported sources (first ++ second) = reported sources first + reported sources second := by
  simp [reported]

/-- The table is sound and its counters are not negative. -/
structure Tallied (o : OffenderTable) : Prop where
  wf : o.WF
  nonneg : ∀ e ∈ o.table.vals, 0 ≤ e.suppressed

/-- From `o` to `o'` the pending connections went into the summaries or are still pending. -/
structure Keeps (o o' : OffenderTable) (sums : List ShunSummary) : Prop where
  tallied : o'.Tallied
  total : reported sources sums + o'.pending sources = o.pending sources

variable {sources} {o : OffenderTable} {node : Node Offender} (now : ℕ)

variable {o' : OffenderTable}

variable {sums : List ShunSummary}

theorem Tallied.keeps (h : o.Tallied) : Keeps sources o o [] where
  tallied := h
  total := by rw [reported_nil, zero_add]

theorem Keeps.trans {o₁ o₂ o₃ : OffenderTable} {first second : List ShunSummary}
    (hfirst : Keeps sources o₁ o₂ first) (hsecond : Keeps sources o₂ o₃ second) :
    Keeps sources o₁ o₃ (first ++ second) :=
  { hsecond with
    total := by
      calc reported sources (first ++ second) + o₃.pending sources
          = reported sources first + (reported sources second + o₃.pending sources) := by
            rw [reported_append, add_assoc]
        _ = reported sources first + o₂.pending sources := by rw [hsecond.total]
        _ = o₁.pending sources := hfirst.total }

theorem Keeps.quietly {o₁ o₂ o₃ : OffenderTable} (hfirst : Keeps sources o₁ o₂ sums)
    (hsecond : Keeps sources o₂ o₃ []) : Keeps sources o₁ o₃ sums :=
  append_nil sums ▸ hfirst.trans hsecond

/-! ## Writing entries -/

section

variable (h : o.Tallied) (hmem : node ∈ o.table.nodes)

include h hmem

/-- A write moves what it takes from the counter of an entry into the summaries. -/
theorem Tallied.write {f : Offender → Offender} (hwritten : Rewrites f node o o')
    (hnonneg : 0 ≤ (f node.val).suppressed)
    (hmoved : reported sources sums + (if sources node.val.ip then (f node.val).suppressed else 0) =
      if sources node.val.ip then node.val.suppressed else 0) : Keeps sources o o' sums := by
  refine ⟨⟨hwritten.wf h.wf hmem, ?_⟩, ?_⟩
  · intro e he
    rw [hwritten.table] at he
    rcases (h.wf.table.mem_vals_modify_iff hmem f e).mp he with ⟨hold, _⟩ | rfl
    · exact h.nonneg e hold
    · exact hnonneg
  · have htotal := h.wf.table.total_modify hmem
      (fun e ↦ if sources e.ip then e.suppressed else 0) f
    simp only [hwritten.ip] at htotal
    simp only [pending, hwritten.table]
    linarith

/-- A write that leaves the counter of an entry alone. -/
theorem Tallied.quiet {f : Offender → Offender} (hwritten : Rewrites f node o o')
    (hcount : (f node.val).suppressed = node.val.suppressed := by rfl) : Keeps sources o o' [] := by
  apply h.write hmem hwritten
  · rw [hcount]
    exact h.nonneg _ (mem_map_of_mem hmem)
  · rw [reported_nil, zero_add, hcount]

theorem Tallied.endWindow :
    Keeps sources o (o.endWindow node.id now).1 (o.endWindow node.id now).2 := by
  have hnonneg := h.nonneg node.val (mem_map_of_mem hmem)
  apply h.write hmem (h.wf.endWindow now hmem) le_rfl
  -- The weight of the entry moves from the table to the summary.
  have hclosed : (if sources node.val.ip then node.val.closeWindow.suppressed else 0) = (0 : ℤ) :=
    ite_self _
  rw [h.wf.endWindow_eq _ hmem, hclosed, add_zero]
  split
  · simp [reported, Offender.summary]
  · have hzero : node.val.suppressed = 0 := by omega
    rw [hzero, ite_self, reported_nil]

/-- Dropping an entry without an open window. -/
theorem Tallied.drop (hoff : node.val.active = false) :
    Keeps sources o { o with table := o.table.remove node.val.ip node.id } [] := by
  refine ⟨⟨h.wf.drop hmem hoff, ?_⟩, ?_⟩
  · intro e he
    exact h.nonneg e ((h.wf.table.mem_vals_remove_iff hmem e).mp he).1
  · have htotal := h.wf.table.total_remove hmem
      (fun e ↦ if sources e.ip then e.suppressed else 0) node.val.ip
    simp only [(h.wf.idle _ hmem hoff).2, ite_self, zero_add] at htotal
    rw [reported_nil, zero_add]
    exact htotal

theorem Tallied.remove : Keeps sources o (o.remove node.id now).1 (o.remove node.id now).2 := by
  unfold OffenderTable.remove
  simp only [h.wf.table.deref_of_mem hmem]
  cases hactive : node.val.active with
  | false => exact h.drop hmem hactive
  | true =>
    have hended : Keeps sources o _ _ := h.endWindow now hmem
    have hmem' := (h.wf.endWindow now hmem).mem h.wf hmem
    have hdropped : Keeps sources _ _ [] := hended.tallied.drop hmem' rfl
    exact hended.quietly hdropped

end

section

variable (h : o.Tallied)

include h

theorem Tallied.sweepFrontLoop (rounds : ℕ) :
    Keeps sources o (sweepFrontLoop now rounds o).1 (sweepFrontLoop now rounds o).2 := by
  induction rounds generalizing o with
  | zero => exact h.keeps
  | succ rounds ih =>
    unfold OffenderTable.sweepFrontLoop
    cases hfront : o.table.front? with
    | none => exact h.keeps
    | some node =>
      have hmem : node ∈ o.table.nodes := mem_of_head? hfront
      by_cases hexpired : o.expired node.val now
      · simp only [hexpired]
        have hremoved : Keeps sources o _ _ := h.remove now hmem
        exact hremoved.trans (ih hremoved.tallied)
      · simp only [hexpired]
        exact h.keeps

theorem Tallied.sweepFront :
    Keeps sources o (o.sweepFront now).1 (o.sweepFront now).2 := h.sweepFrontLoop now _

theorem Tallied.makeRoom : Keeps sources o (o.makeRoom now).1 (o.makeRoom now).2 := by
  have hswept : Keeps sources o _ _ := h.sweepFront now
  unfold OffenderTable.makeRoom
  dsimp only
  split
  · exact hswept
  · cases hfront : (o.sweepFront _).1.table.front? with
    | none => exact hswept
    | some front =>
      -- Counting the eviction changes nothing in the table.
      have hcounted (evicted : List Offender) :
          ({ (o.sweepFront _).1 with evicted := evicted } : OffenderTable).Tallied :=
        have hwf := hswept.tallied.wf
        ⟨⟨hwf.table, hwf.active_nodup, hwf.active_iff, hwf.idle⟩, hswept.tallied.nonneg⟩
      have hvictim := victim_mem hfront
      have hremoved : Keeps sources _ _ _ := (hcounted
        ((o.sweepFront now).1.evicted ++ [((o.sweepFront now).1.victim front).val])).remove now hvictim
      exact hswept.trans ⟨hremoved.tallied, hremoved.total⟩

theorem Tallied.roomFor : Keeps sources o (o.roomFor now).1 (o.roomFor now).2 := by
  unfold OffenderTable.roomFor
  split
  · exact h.makeRoom _
  · exact h.keeps

/-! ## Accepted alerts -/

theorem Tallied.pushBack {key : String} (hnew : o.table.get? key = none) :
    Keeps sources o { o with table := o.table.pushBack key { ip := key } } [] := by
  refine ⟨⟨(h.wf.pushBack hnew).1, ?_⟩, ?_⟩
  · intro e he
    rcases (mem_vals_pushBack_iff _ _ e).mp he with hold | rfl
    · exact h.nonneg e hold
    · exact Int.le_refl 0
  · rw [reported_nil, zero_add, pending, total_pushBack, ite_self, add_zero]
    rfl

theorem Tallied.moveToBack (id : ℕ) :
    Keeps sources o { o with table := o.table.moveToBack id } [] := by
  refine ⟨⟨h.wf.moveToBack id, ?_⟩, ?_⟩
  · intro e he
    exact h.nonneg e ((mem_vals_moveToBack_iff id e).mp he)
  · rw [reported_nil, zero_add, pending, total_moveToBack]
    rfl

/-- A new entry, with room made for it. -/
theorem Tallied.pushNew {key : String} (hnew : o.table.get? key = none) :
    Keeps sources o
      { (o.roomFor now).1 with table := (o.roomFor now).1.table.pushBack key { ip := key } }
      (o.roomFor now).2 := by
  have hroom : Keeps sources o _ _ := h.roomFor now
  have hnone : (o.roomFor now).1.table.get? key = none := by
    rcases (h.wf.roomFor_shrinks _).get? key with hsame | ⟨hnone, _⟩
    · rw [hsame, hnew]
    · exact hnone
  exact hroom.quietly (hroom.tallied.pushBack hnone)

theorem Tallied.entryFor (key : String) :
    Keeps sources o (o.entryFor key now).1 (o.entryFor key now).2.2 := by
  unfold OffenderTable.entryFor
  cases hnode : o.table.node? key with
  | none =>
    have hget : o.table.get? key = none := by simp [get?, hnode]
    simp only [hnode]
    exact h.pushNew _ hget
  | some node =>
    rcases (h.wf.table.node?_iff ..).mp hnode with ⟨hmem, hip⟩
    by_cases hexpired : o.expired node.val now
    · have hremoved : Keeps sources o _ _ := h.remove now hmem
      have hgone : (o.remove node.id now).1.table.get? key = none := by
        rw [(h.wf.remove now hmem).2, if_pos hip.symm]
      have hgone' : (o.remove node.id now).1.table.node? key = none := by
        simpa [get?] using hgone
      simp only [hexpired, if_true, hgone']
      exact hremoved.trans (hremoved.tallied.pushNew _ hgone)
    · simp only [hexpired, Bool.false_eq_true, if_false, hnode]
      exact h.moveToBack _

theorem Tallied.shunEntry (hmem : node ∈ o.table.nodes) (window : ℤ) :
    Keeps sources o (o.shunEntry node.id window now).1 (o.shunEntry node.id window now).2.2 := by
  unfold OffenderTable.shunEntry
  simp only [h.wf.table.deref_of_mem hmem]
  by_cases hrunning : (node.val.active && decide (now < node.val.shunUntil)) = true
  · simp only [hrunning, if_true]
    have hopen : node.val.active = true := (Bool.and_eq_true_iff.mp hrunning).1
    split
    · exact h.quiet hmem (h.wf.prolongWindow hmem hopen ..)
    · exact h.keeps
  · simp only [hrunning]
    cases hactive : node.val.active with
    | false => exact h.quiet hmem (h.wf.openWith hmem (·.openWindow now ..) _ hactive)
    | true =>
      have hended : Keeps sources o _ _ := h.endWindow now hmem
      have hmem' := (h.wf.endWindow now hmem).mem h.wf hmem
      exact hended.quietly (hended.tallied.quiet hmem'
        (hended.tallied.wf.openWith hmem' (·.openWindow now ..) _ rfl))

theorem Tallied.acceptLocked (key : String) (idx : Fin 3) (cls : Class) (window : ℤ) :
    Keeps sources o (o.acceptLocked key idx cls window now).1
      (o.acceptLocked key idx cls window now).2.2 := by
  have hentry := h.wf.entryFor now key
  have hfound : Keeps sources o _ _ := h.entryFor now key
  have hwritten := hentry.wf.rewrites hentry.mem (·.record idx now) rfl fun _ ↦ ⟨rfl, rfl⟩
  have hrecorded := hfound.quietly (hfound.tallied.quiet hentry.mem hwritten)
  unfold OffenderTable.acceptLocked
  dsimp only
  split
  · exact hrecorded
  · exact hrecorded.trans (hrecorded.tallied.shunEntry _ (hwritten.mem hentry.wf hentry.mem) _)

theorem Tallied.accepted (net : Netip) (ip : String) (cls : Class) (window : ℤ) :
    Keeps sources o (o.accepted net ip cls window now).2.1
      (o.accepted net ip cls window now).2.2 := by
  unfold OffenderTable.accepted
  split
  · exact h.keeps
  · exact h.acceptLocked ..

/-! ## Reverts, lookups, sweeps and the flush -/

theorem Tallied.revert (m : AcceptMark) :
    Keeps sources o (o.revert m now).1 (o.revert m now).2 := by
  have hwindow {o : OffenderTable} (h : o.Tallied) (id : ℕ) :
      Keeps sources o (o.revertWindow id m now).1 (o.revertWindow id m now).2 := by
    unfold OffenderTable.revertWindow
    cases hderef : o.table.deref id with
    | none => exact h.keeps
    | some e =>
      have hmem := (h.wf.table.deref_iff id e).mp hderef
      dsimp only
      split
      · exact h.endWindow _ hmem
      · exact h.keeps
  have hdrop {o : OffenderTable} (h : o.Tallied) (id : ℕ) :
      Keeps sources o (o.dropEmpty id now).1 (o.dropEmpty id now).2 := by
    unfold OffenderTable.dropEmpty
    cases hderef : o.table.deref id with
    | none => exact h.keeps
    | some e =>
      have hmem := (h.wf.table.deref_iff id e).mp hderef
      dsimp only
      split
      · exact h.remove _ hmem
      · exact h.keeps
  unfold OffenderTable.revert
  split
  · exact h.keeps
  · split
    · exact h.keeps
    · next node hnode =>
      have hmem := ((h.wf.table.node?_iff ..).mp hnode).1
      have hcounted : Keeps sources o _ [] :=
        h.quiet hmem (h.wf.rewrites hmem (·.discount m.idx) rfl fun _ ↦ ⟨rfl, rfl⟩)
      have hended := hwindow hcounted.tallied node.id
      exact hcounted.trans (hended.trans (hdrop hended.tallied node.id))

theorem Tallied.shunned (net : Netip) (ip : String) :
    Keeps sources o (o.shunned net ip now).2.1 (o.shunned net ip now).2.2 := by
  unfold OffenderTable.shunned
  split
  · exact h.keeps
  · split
    · exact h.keeps
    · next key _ =>
      split
      · exact h.keeps
      · next node hnode =>
        have hmem := ((h.wf.table.node?_iff ..).mp hnode).1
        split
        · exact h.keeps
        · split
          · exact h.keeps
          · exact h.endWindow _ hmem

end

/-- `sweep` with the order in which it visits the open windows. -/
def sweepVisiting (o : OffenderTable) (visits : List ℕ) (now : ℕ) :
    OffenderTable × List ShunSummary :=
  let (closed, sums) := visits.foldl (closeEnded now) (o, [])
  let (swept, rest) := closed.sweepFront now
  (swept, sums ++ rest)

/-- `flush` with the order in which it visits the open windows. -/
def flushVisiting (o : OffenderTable) (visits : List ℕ) (now : ℕ) :
    OffenderTable × List ShunSummary :=
  visits.foldl (flushWindow now) (o, [])

/-- A loop whose rounds keep the counts. -/
theorem Keeps.foldl
    {round : OffenderTable × List ShunSummary → ℕ → OffenderTable × List ShunSummary}
    (hround : ∀ o' sums id, Keeps sources o o' sums →
      Keeps sources o (round (o', sums) id).1 (round (o', sums) id).2) (h : Keeps sources o o' sums)
    (visits : List ℕ) :
    Keeps sources o (visits.foldl round (o', sums)).1 (visits.foldl round (o', sums)).2 := by
  induction visits generalizing o' sums with
  | nil => exact h
  | cons id rest ih => exact ih (hround o' sums id h)

theorem Keeps.closeEnded (h : Keeps sources o o' sums) (id : ℕ) :
    Keeps sources o (closeEnded now (o', sums) id).1 (closeEnded now (o', sums) id).2 := by
  unfold OffenderTable.closeEnded
  cases hderef : o'.table.deref id with
  | none => exact h
  | some e =>
    have hmem := (h.tallied.wf.table.deref_iff id e).mp hderef
    dsimp only
    split
    · exact h
    · exact h.trans (h.tallied.endWindow _ hmem)

theorem Tallied.sweep (h : o.Tallied) (visits : List ℕ) :
    Keeps sources o (o.sweepVisiting visits now).1 (o.sweepVisiting visits now).2 := by
  have hclosed := (h.keeps : Keeps sources o o []).foldl (fun _ _ id hkeeps ↦ hkeeps.closeEnded now id) visits
  exact hclosed.trans (hclosed.tallied.sweepFront _)

theorem Tallied.endWindowKeep (h : o.Tallied) (hmem : node ∈ o.table.nodes) :
    Keeps sources o (o.endWindowKeep node.id now).1 (o.endWindowKeep node.id now).2 := by
  have hended : Keeps sources o _ _ := h.endWindow now hmem
  have hmem' := (h.wf.endWindow now hmem).mem h.wf hmem
  unfold OffenderTable.endWindowKeep
  simp only [h.wf.table.deref_of_mem hmem]
  exact hended.quietly (hended.tallied.quiet hmem' (hended.tallied.wf.openWith hmem' _ _ rfl))

theorem Keeps.flushWindow (h : Keeps sources o o' sums) (id : ℕ) :
    Keeps sources o (flushWindow now (o', sums) id).1 (flushWindow now (o', sums) id).2 := by
  unfold OffenderTable.flushWindow
  cases hderef : o'.table.deref id with
  | none => exact h
  | some e =>
    have hmem := (h.tallied.wf.table.deref_iff id e).mp hderef
    dsimp only
    split
    · exact h.trans (h.tallied.endWindowKeep _ hmem)
    · exact h

theorem Tallied.flush (h : o.Tallied) (visits : List ℕ) :
    Keeps sources o (o.flushVisiting visits now).1 (o.flushVisiting visits now).2 :=
  h.keeps.foldl (fun _ _ id hkeeps ↦ hkeeps.flushWindow now id) visits

/-! ## Refused connections -/

/-- The source whose open window a refused connection is counted in. -/
def windowOf (net : Netip) (o : OffenderTable) (ip : String) : Option String :=
  (normalizeIP net ip).filter fun key ↦ (o.table.get? key).any Offender.active

theorem Tallied.rejected (h : o.Tallied) (net : Netip) (ip protocol : String) :
    (o.rejected net ip protocol).Tallied ∧ (o.rejected net ip protocol).pending sources =
      o.pending sources + ((o.windowOf net ip).toList.countP sources : ℤ) := by
  have hwf := h.wf.rejected net ip protocol
  unfold OffenderTable.rejected at hwf ⊢
  unfold windowOf
  cases hkey : normalizeIP net ip with
  | none => simpa using h
  | some key =>
    cases hnode : o.table.node? key with
    | none => simpa [get?, hnode] using h
    | some node =>
      rcases (h.wf.table.node?_iff ..).mp hnode with ⟨hmem, hip⟩
      cases hactive : node.val.active with
      | false => simpa [get?, hnode, hactive] using h
      | true =>
        simp only [hkey, hnode, hactive, Bool.not_true] at hwf ⊢
        refine ⟨⟨hwf, ?_⟩, ?_⟩
        · intro e he
          rcases (h.wf.table.mem_vals_modify_iff hmem _ e).mp he with ⟨hold, _⟩ | rfl
          · exact h.nonneg e hold
          · exact Int.le_add_one (h.nonneg _ (mem_map_of_mem hmem))
        · have hcounted := h.wf.table.total_modify hmem
            (fun e ↦ if sources e.ip then e.suppressed else 0) (·.suppress protocol)
          simp only [Offender.suppress, hip] at hcounted
          simp only [pending, OffenderTable.update, Offender.suppress, get?, hnode,
            Option.map_some, Option.filter_some, Option.any_some, hactive, if_true,
            Option.toList_some, countP_singleton]
          by_cases hsource : sources key
          · simp only [hsource, if_true] at hcounted ⊢
            push_cast
            linarith
          · simp only [hsource, Bool.false_eq_true] at hcounted ⊢
            simpa using hcounted

end OffenderTable

/-! ## Runs -/

/-- A call of the table. The loops over the open windows carry the order of their visits. -/
inductive TableCall where
  | accepted (ip : String) (cls : Class) (window : ℤ) (now : ℕ)
  | rejected (ip protocol : String)
  | shunned (ip : String) (now : ℕ)
  | revert (m : AcceptMark) (now : ℕ)
  | sweep (visits : List ℕ) (now : ℕ)
  | flush (visits : List ℕ) (now : ℕ)

/-- The table, the sources of the refused connections that found an open window and the summaries
written so far. -/
structure ShunBooks where
  table : OffenderTable
  refused : List String
  emitted : List ShunSummary

namespace ShunBooks

def start (cfg : OffenderConfig) : ShunBooks := ⟨newOffenderTable cfg, [], []⟩

def write (s : ShunBooks) (result : OffenderTable × List ShunSummary) : ShunBooks :=
  { s with table := result.1, emitted := s.emitted ++ result.2 }

def step (net : Netip) (s : ShunBooks) : TableCall → ShunBooks
  | .accepted ip cls window now => s.write (s.table.accepted net ip cls window now).2
  | .rejected ip protocol =>
    { s with
      table := s.table.rejected net ip protocol
      refused := s.refused ++ (s.table.windowOf net ip).toList }
  | .shunned ip now => s.write (s.table.shunned net ip now).2
  | .revert m now => s.write (s.table.revert m now)
  | .sweep visits now => s.write (s.table.sweepVisiting visits now)
  | .flush visits now => s.write (s.table.flushVisiting visits now)

/-- Every counted connection of the given sources is pending or in one summary. -/
structure Balanced (sources : String → Bool) (s : ShunBooks) : Prop where
  tallied : s.table.Tallied
  total : (s.refused.countP sources : ℤ) =
    OffenderTable.reported sources s.emitted + s.table.pending sources

variable {sources : String → Bool} {s : ShunBooks}

theorem start_balanced (cfg : OffenderConfig) : (start cfg).Balanced sources where
  tallied := ⟨OffenderTable.newOffenderTable_wf _, fun _ he ↦ by cases he⟩
  total := rfl

theorem Balanced.write (h : s.Balanced sources) {result : OffenderTable × List ShunSummary}
    (hkeeps : OffenderTable.Keeps sources s.table result.1 result.2) :
    (s.write result).Balanced sources where
  tallied := hkeeps.tallied
  total := by
    calc (s.refused.countP _ : ℤ)
        = OffenderTable.reported sources s.emitted + s.table.pending sources := h.total
      _ = OffenderTable.reported sources s.emitted +
            (OffenderTable.reported _ _ + result.1.pending sources) := by
          rw [hkeeps.total]
      _ = OffenderTable.reported sources (s.emitted ++ result.2) + result.1.pending sources := by
          rw [OffenderTable.reported_append, add_assoc]

theorem Balanced.step (h : s.Balanced sources) (net : Netip) (call : TableCall) :
    (s.step net call).Balanced sources := by
  cases call with
  | accepted ip cls window now => exact h.write (h.tallied.accepted _ _ ip ..)
  | rejected ip protocol =>
    have hrejected : _ ∧ _ = s.table.pending sources + _ := h.tallied.rejected net ip protocol
    refine ⟨hrejected.1, ?_⟩
    simp only [ShunBooks.step, countP_append, Nat.cast_add, h.total, hrejected.2]
    rw [add_assoc]
  | shunned ip now => exact h.write (h.tallied.shunned _ _ ip)
  | revert m now => exact h.write (h.tallied.revert _ m)
  | sweep visits now => exact h.write (h.tallied.sweep ..)
  | flush visits now => exact h.write (h.tallied.flush ..)

end ShunBooks

variable (net : Netip) (cfg : OffenderConfig) (calls : List TableCall)

def shunBooksAfter : ShunBooks :=
  run (ShunBooks.step net) (.start cfg) calls

theorem shunBooksAfter_balanced (sources : String → Bool) :
    (shunBooksAfter net cfg calls).Balanced sources :=
  run_invariant_untimed (ShunBooks.Balanced sources) (fun _ call h ↦ h.step net call) calls
    (ShunBooks.start_balanced cfg)

/-- Every refused connection that found an open window is in one summary or still pending, and only
open windows hold pending connections. -/
theorem shun_summaries_conserve (net : Netip) (cfg : OffenderConfig) (calls : List TableCall) :
    let s := shunBooksAfter net cfg calls
    (s.refused.length : ℤ) =
        (s.emitted.map ShunSummary.count).sum + (s.table.table.vals.map Offender.suppressed).sum ∧
      ∀ e ∈ s.table.table.vals, e.suppressed ≠ 0 → e.active = true := by
  intro s
  have hbalanced := shunBooksAfter_balanced net cfg calls fun _ ↦ true
  constructor
  · have htotal := hbalanced.total
    rw [countP_true] at htotal
    exact htotal
  · intro e he hpending
    rcases mem_map.mp he with ⟨node, hmem, rfl⟩
    by_contra hclosed
    exact hpending (hbalanced.tallied.wf.idle _ hmem (Bool.eq_false_iff.mpr hclosed)).2

/-- Whatever the clock and the calls, the map and the list hold the same entries, each under its own
address, the open windows are those of the entries marked active, no pending count is negative, and an
entry that is not active has neither a window nor a pending count. -/
theorem offender_table_coherent (net : Netip) (cfg : OffenderConfig) (calls : List TableCall) :
    let o := (shunBooksAfter net cfg calls).table
    o.table.index.keys.Perm (o.table.vals.map Offender.ip) ∧
      (∀ node ∈ o.table.nodes, o.table.get? node.val.ip = some node.val) ∧
      o.active.Perm ((o.table.nodes.filter (·.val.active)).map Node.id) ∧
      ∀ node ∈ o.table.nodes, 0 ≤ node.val.suppressed ∧
        (node.val.active = false → node.val.shunUntil = 0 ∧ node.val.suppressed = 0) := by
  intro o
  have htallied : o.Tallied := (shunBooksAfter_balanced net cfg calls fun _ ↦ true).tallied
  have hwf := htallied.wf
  refine ⟨hwf.table.keys_perm, fun node ↦ hwf.table.get?_of_mem, ?_, ?_⟩
  · refine (perm_ext_iff_of_nodup hwf.active_nodup ?_).mpr fun id ↦ ?_
    · exact hwf.table.ids_nodup.sublist (filter_sublist.map _)
    · rw [hwf.active_iff, mem_map]
      simp only [mem_filter, and_assoc]
      exact exists_congr fun _ ↦ and_congr_right fun _ ↦ and_comm
  · intro node hnode
    exact ⟨htallied.nonneg _ (mem_map_of_mem hnode), hwf.idle node hnode⟩

/-! ## Late reverts -/

open OffenderTable

theorem discount_eq_self_iff (e : Offender) (idx : Fin 3) :
    e.discount idx = e ↔ e.counts idx ≤ 0 := by
  constructor
  · intro heq
    by_contra hpos
    have hcounts := congrArg (Offender.counts · idx) heq
    simp only [Offender.counts_discount (not_le.mp hpos), Function.update_self] at hcounts
    omega
  · intro hle
    rw [Offender.discount, if_neg (not_lt.mpr hle)]

theorem revertEntry_eq_self_iff (m : AcceptMark) (e : Offender) :
    revertEntry m e = some e ↔ e.counts m.idx ≤ 0 ∧
      ¬(m.win ≠ 0 ∧ e.active ∧ e.winID = m.win) ∧ ¬(e.active = false ∧ ∀ i, e.counts i = 0) := by
  unfold revertEntry unshunned
  by_cases hcloses : m.win ≠ 0 ∧ e.active ∧ e.winID = m.win
  · rw [if_pos hcloses]
    refine iff_of_false ?_ fun hkept ↦ hkept.2.1 hcloses
    split
    · nofun
    · intro heq
      have hclosed : false = e.active := congrArg Offender.active (Option.some.inj heq)
      exact Bool.false_ne_true (hclosed.trans hcloses.2.1)
  · simp only [hcloses, if_false, not_false_eq_true, true_and]
    constructor
    · intro heq
      split at heq
      · cases heq
      · next hkept =>
        have hsame := Option.some.inj heq
        rw [hsame] at hkept
        exact ⟨(discount_eq_self_iff e _).mp hsame, hkept⟩
    · intro hkept
      rw [(discount_eq_self_iff e _).mpr hkept.1, if_neg hkept.2]

/-- Two sources in a table of capacity 1. -/
def evicting : List TableCall :=
  [.accepted "a" .attack 60 0, .accepted "b" .attack 60 5, .accepted "a" .attack 60 9]

def twoSources : Netip := .ofTable [("a", .v4 1), ("b", .v4 2)]

def oneEntry : OffenderConfig := ⟨true, 5, 0, 1, 60⟩

/-- The first entry of the source is evicted and the source entered again before the revert, which
takes the alert of the new entry back. -/
theorem late_revert_touches_newer_entry :
    ¬∀ (net : Netip) (cfg : OffenderConfig) (first between : List TableCall) (ip : String)
      (cls : Class) (window : ℤ) (t now : ℕ),
      let before := (shunBooksAfter net cfg first).table
      let o := (shunBooksAfter net cfg (first ++ .accepted ip cls window t :: between)).table
      (∀ key ∈ normalizeIP net ip, (before.entryFor key t).2.1 ∉ o.table.nodes.map Node.id) →
        ∀ key, (o.revert (before.accepted net ip cls window t).1 now).1.table.get? key =
          o.table.get? key := by
  intro hall
  have hsame := hall twoSources oneEntry [] evicting.tail "a" .attack 60 0 10 (by decide) "a"
  exact absurd (congrArg (Option.map (Offender.counts · Class.attack.index)) hsame) (by decide)

end RanHoneypot.Alert
