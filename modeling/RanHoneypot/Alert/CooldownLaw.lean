import RanHoneypot.Data.TimedRun
import RanHoneypot.Alert.Cooldown

/-!
# When the cooldown filter refuses an alert

The filter forgets expired entries lazily, takes entries out on `release` and on eviction, and
re-arms entries in place. Against the history of taken and released slots it decides one question:
an alert is refused exactly if an alert of the same or a higher class of the address is still inside
the window it was taken with, and its slot was neither released nor evicted.
-/

namespace RanHoneypot.Alert

open TimedRun List IndexedList.WF IndexedList

namespace CooldownFilter

/-- The map and the list agree. -/
def WF (d : CooldownFilter) : Prop := d.table.WF CooldownEntry.key

/-- The entries in the order of the list. -/
def entries (d : CooldownFilter) : List CooldownEntry := d.table.vals

theorem newCooldownFilter_wf (window maxEntries : ℤ) : (newCooldownFilter window maxEntries).WF :=
  empty_wf

variable {d d' : CooldownFilter} {now : ℕ}

/-! ## Entries that go -/

/-- `d'` is `d` without some entries, all of which satisfy `gone`. -/
structure Drops (gone : CooldownEntry → Prop) (d d' : CooldownFilter) : Prop where
  table : d.table.Drops CooldownEntry.key gone d'.table
  window : d'.window = d.window
  nextSlot : d'.nextSlot = d.nextSlot

variable {new : CooldownEntry}

theorem WF.sweepFront_drops (hwf : d.WF) (now : ℕ) :
    Drops (fun e ↦ e.live now = false) d (d.sweepFront now) :=
  ⟨(IndexedList.WF.sweepFront_drops hwf _).mono fun _ h ↦ by simpa using h, rfl, rfl⟩

/-- At most one entry is evicted, and it is gone. -/
def EvictsOne (d d' : CooldownFilter) : Prop :=
  d'.evicted = d.evicted ∨
    ∃ e ∈ d.entries, e ∉ d'.entries ∧ d'.evicted = d.evicted ++ [e]

theorem WF.makeRoom_drops (hwf : d.WF) (now : ℕ) :
    Drops (fun e ↦ e.live now = false ∨ e ∈ (d.makeRoom now).evicted) d (d.makeRoom now) ∧
      EvictsOne d (d.makeRoom now) := by
  have hdrops := IndexedList.WF.makeRoom_drops hwf (fun e ↦ !e.live now) d.maxEntries
  refine ⟨⟨hdrops.mono fun e hgone ↦ ?_, rfl, rfl⟩, ?_⟩
  · rcases hgone with hstale | hvictim
    · exact .inl (by simpa using hstale)
    · simp [makeRoom, hvictim]
  · cases hout : (d.table.makeRoom CooldownEntry.key (fun e ↦ !e.live now) d.maxEntries).2 with
    | none => exact .inl (by simp [makeRoom, hout])
    | some e =>
      rcases IndexedList.WF.makeRoom_victim hwf hout with ⟨hmem, hgone⟩
      exact .inr ⟨e, hmem, hgone, by simp [makeRoom, hout]⟩

/-! ## Taking and releasing slots -/

theorem suppressed_iff {ip : String} {cls : Class} :
    d.suppressed ip cls now = true ↔ ∃ c e, cls.rank ≤ c.rank ∧
      d.table.get? (cooldownKey ip c) = some e ∧ e.live now = true := by
  unfold suppressed
  rw [any_eq_true]
  constructor
  · intro h
    rcases h with ⟨c, _, hc⟩
    rw [Bool.and_eq_true, Bool.not_eq_true', decide_eq_false_iff_not, Nat.not_lt] at hc
    cases hget : d.table.get? (cooldownKey ip c) with
    | none => simp [hget] at hc
    | some e =>
      simp only [hget] at hc
      exact ⟨c, e, hc.1, hget, hc.2⟩
  · intro h
    rcases h with ⟨c, e, hrank, hget, hlive⟩
    refine ⟨c, mem_classes c, ?_⟩
    simp [hget, hlive, hrank]

/-- `d'` is `d` after the slot of `new` was taken. -/
structure Takes (d : CooldownFilter) (new : CooldownEntry) (now : ℕ) (d' : CooldownFilter) : Prop where
  wf : d'.WF
  window : d'.window = d.window
  nextSlot : d'.nextSlot = d.nextSlot + 1
  mem : new ∈ d'.entries
  sub : ∀ e ∈ d'.entries, e = new ∨ (e ∈ d.entries ∧ e.key ≠ new.key)
  keeps : ∀ e ∈ d.entries, e.key ≠ new.key →
    e ∈ d'.entries ∨ e.live now = false ∨ e ∈ d'.evicted
  evicted : EvictsOne d d'

theorem Takes.evicted_mono (htakes : Takes d new now d') : ∀ e ∈ d.evicted, e ∈ d'.evicted := by
  intro e he
  rcases htakes.evicted with hsame | ⟨x, _, _, hlast⟩
  · rwa [hsame]
  · rw [hlast]
    exact mem_append_left _ he

/-- What is evicted when a slot is taken is an entry that is gone. -/
theorem Takes.evicted_cases (htakes : Takes d new now d') :
    ∀ e ∈ d'.evicted, e ∈ d.evicted ∨ (e ∈ d.entries ∧ e ∉ d'.entries) := by
  intro e he
  rcases htakes.evicted with hsame | ⟨x, hx, hout, hlast⟩
  · exact .inl (hsame ▸ he)
  · rw [hlast, mem_append, mem_singleton] at he
    rcases he with hold | rfl
    · exact .inl hold
    · exact .inr ⟨hx, hout⟩

/-- Re-arming the entry of the key in place. -/
theorem WF.rearm_takes (hwf : d.WF) {node : Node CooldownEntry} (hmem : node ∈ d.table.nodes)
    (win : ℤ) (slot : ℕ) (hslot : slot = d.nextSlot + 1) :
    Takes d ⟨node.val.key, now, win, slot⟩ now
      { d with
        nextSlot := slot
        table := (d.table.modify node.id fun e ↦
          { e with takenAt := now, win := win, slot := slot }).moveToBack node.id } := by
  have hvals (e : CooldownEntry) :
      e ∈ ((d.table.modify node.id fun e ↦
          { e with takenAt := now, win := win, slot := slot }).moveToBack node.id).vals ↔
        (e ∈ d.entries ∧ e ≠ node.val) ∨ e = ⟨node.val.key, now, win, slot⟩ := by
    rw [mem_vals_moveToBack_iff]
    exact mem_vals_modify_iff hwf hmem _ e
  refine ⟨?_, rfl, hslot, (hvals _).mpr (.inr rfl), fun e he ↦ ?_, fun e he hne ↦ .inl ?_, .inl rfl⟩
  · exact (hwf.modify _ fun _ _ _ ↦ rfl).moveToBack node.id
  · rcases (hvals e).mp he with ⟨hold, hne⟩ | hnew
    · exact .inr ⟨hold, (eq_val_iff hwf hmem hold).not.mp hne⟩
    · exact .inl hnew
  · exact (hvals e).mpr (.inl ⟨he, fun heq ↦ hne (by rw [heq])⟩)

/-- A new entry for a key that had none, in a filter with room for it. -/
theorem takes_push {room : CooldownFilter} (hwf : room.WF) (hwindow : room.window = d.window)
    (hslot : room.nextSlot = d.nextSlot + 1) (hsub : ∀ e ∈ room.entries, e ∈ d.entries)
    (hkeeps : ∀ e ∈ d.entries, e ∈ room.entries ∨ e.live now = false ∨ e ∈ room.evicted)
    (hevicted : EvictsOne d room) (hnew : d.table.get? new.key = none) (hd : d.WF) :
    Takes d new now { room with table := room.table.pushBack new.key new } := by
  have hkeys : ∀ e ∈ d.entries, e.key ≠ new.key := (get?_eq_none_iff hd _).mp hnew
  have hvals (e : CooldownEntry) : e ∈ (room.table.pushBack new.key _).vals ↔
      e ∈ room.entries ∨ e = new :=
    mem_vals_pushBack_iff ..
  refine ⟨?_, hwindow, hslot, (hvals _).mpr (.inr rfl), fun e he ↦ ?_, fun e he _ ↦ ?_, ?_⟩
  · apply pushBack hwf
    intro node hmem
    exact hkeys _ (hsub _ (mem_vals_iff.mpr ⟨node, hmem, rfl⟩))
  · rcases (hvals e).mp he with hold | rfl
    · exact .inr ⟨hsub e hold, hkeys e (hsub e hold)⟩
    · exact .inl rfl
  · rcases hkeeps e he with hmem | hgone
    · exact .inl ((hvals e).mpr (.inl hmem))
    · exact .inr hgone
  · rcases hevicted with hsame | ⟨x, hx, hout, hlast⟩
    · exact .inl hsame
    · refine .inr ⟨x, hx, fun hin ↦ ?_, hlast⟩
      rcases (hvals x).mp hin with hin | heq
      · exact hout hin
      · exact hkeys x hx (congrArg _ heq)

/-- `allow` refuses a suppressed alert and changes nothing, and takes a slot for any other. -/
theorem WF.allow (hwf : d.WF) (hwindow : d.window ≠ 0) (net : Netip)
    (offenders : Option OffenderTable) (ip : String) (cls : Class) (now : ℕ) :
    (d.suppressed ip cls now = true ∧ d.allow net offenders ip cls now = ({ ok := false }, d)) ∨
    (d.suppressed ip cls now = false ∧ ∃ win d', win = windowFor net offenders ip cls d.window now ∧
      d.allow net offenders ip cls now = (⟨cooldownKey ip cls, d.nextSlot + 1, win, true⟩, d') ∧
      Takes d ⟨cooldownKey ip cls, now, win, d.nextSlot + 1⟩ now d') := by
  unfold CooldownFilter.allow
  rw [if_neg hwindow]
  cases hsuppressed : d.suppressed ip cls now with
  | true => exact .inl ⟨rfl, rfl⟩
  | false =>
    refine .inr ⟨rfl, windowFor net offenders ip cls d.window now, ?_⟩
    simp only [Bool.false_eq_true]
    cases hnode : d.table.node? (cooldownKey ip _) with
    | some node =>
      rcases (node?_iff hwf ..).mp hnode with ⟨hmem, hkey⟩
      refine ⟨_, trivial, rfl, ?_⟩
      rw [← hkey]
      exact hwf.rearm_takes hmem _ _ rfl
    | none =>
      have hget : d.table.get? (cooldownKey ip cls) = none := by simp [get?, hnode]
      let next : CooldownFilter := { d with nextSlot := d.nextSlot + 1 }
      have hnext : next.WF := hwf
      refine ⟨_, trivial, rfl, ?_⟩
      split
      · rcases hnext.makeRoom_drops now with ⟨hdrops, hevicted⟩
        exact takes_push hdrops.table.wf hdrops.window hdrops.nextSlot
          (fun _ ↦ hdrops.table.mem) hdrops.table.keeps hevicted hget hwf
      · exact takes_push hnext rfl rfl (fun _ h ↦ h) (fun _ h ↦ .inl h) (.inl rfl) hget hwf

theorem WF.release (hwf : d.WF) (key : String) (slot : ℕ) :
    Drops (fun e ↦ e.key = key ∧ e.slot = slot) d (d.release key slot) ∧
      (d.release key slot).evicted = d.evicted ∧
      (key ≠ "" → ∀ e ∈ (d.release key slot).entries, ¬(e.key = key ∧ e.slot = slot)) := by
  unfold CooldownFilter.release
  by_cases hempty : key = ""
  · rw [if_pos hempty]
    exact ⟨⟨.refl hwf, rfl, rfl⟩, rfl, fun h ↦ absurd hempty h⟩
  · rw [if_neg hempty]
    cases hnode : d.table.node? key with
    | none =>
      refine ⟨⟨.refl hwf, rfl, rfl⟩, rfl, fun _ e he h ↦ ?_⟩
      rcases mem_vals_iff.mp he with ⟨node, hmem, rfl⟩
      exact (node?_eq_none_iff hwf _).mp hnode node hmem h.1
    | some node =>
      rcases (node?_iff hwf ..).mp hnode with ⟨hmem, hkey⟩
      have hunique {e : CooldownEntry} (he : e ∈ d.entries) (h : e.key = key) : e = node.val :=
        (eq_val_iff hwf hmem he).mpr (h.trans hkey.symm)
      dsimp only
      split
      · next hslot =>
        refine ⟨⟨(remove_drops hwf hmem).mono fun e he ↦ ?_, rfl, rfl⟩, rfl,
          fun _ e he h ↦ ?_⟩
        · rw [he]
          exact ⟨hkey, hslot⟩
        · rcases (mem_vals_remove_iff hwf hmem e).mp he with ⟨hold, hne⟩
          exact hne (hunique hold h.1)
      · next hslot =>
        refine ⟨⟨.refl hwf, rfl, rfl⟩, rfl, fun _ e he h ↦ hslot ?_⟩
        rw [← hunique he h.1]
        exact h.2

theorem WF.cleanup_drops (hwf : d.WF) (now : ℕ) :
    Drops (fun e ↦ e.live now = false) d (d.cleanup now) ∧ (d.cleanup now).evicted = d.evicted := by
  unfold cleanup
  split
  · exact ⟨⟨.refl hwf, rfl, rfl⟩, rfl⟩
  · exact ⟨hwf.sweepFront_drops _, rfl⟩

end CooldownFilter

/-! ## Histories -/

/-- An alert that `allow` let pass, with the slot and the window it took. -/
structure TakenAlert where
  ip : String
  cls : Class
  takenAt : ℕ
  win : ℤ
  slot : ℕ
deriving DecidableEq

def TakenAlert.key (a : TakenAlert) : String := cooldownKey a.ip a.cls

theorem TakenAlert.key_ne_empty (a : TakenAlert) : a.key ≠ "" := cooldownKey_ne_empty a.ip a.cls

def TakenAlert.entry (a : TakenAlert) : CooldownEntry := ⟨a.key, a.takenAt, a.win, a.slot⟩

inductive CooldownEvent where
  | taken (a : TakenAlert)
  | released (key : String) (slot : ℕ)
deriving DecidableEq

/-- A call of the filter. `offenders` is the offender table at that moment. -/
inductive CooldownOp where
  | allow (offenders : Option OffenderTable) (ip : String) (cls : Class) (now : ℕ)
  | release (key : String) (slot now : ℕ)
  | cleanup (now : ℕ)

def CooldownOp.time : CooldownOp → ℕ
  | allow _ _ _ now => now
  | release _ _ now => now
  | cleanup now => now

/-- The filter and the history of its slots, oldest event first. -/
structure CooldownRun where
  filter : CooldownFilter
  trace : List CooldownEvent

namespace CooldownRun

def start (window maxEntries : ℤ) : CooldownRun := ⟨newCooldownFilter window maxEntries, []⟩

def step (net : Netip) (r : CooldownRun) : CooldownOp → CooldownRun
  | .allow offenders ip cls now =>
    let (allowance, filter) := r.filter.allow net offenders ip cls now
    { filter := filter
      trace := if allowance.ok then r.trace ++ [.taken ⟨ip, cls, now, allowance.win, allowance.slot⟩]
        else r.trace }
  | .release key slot _ =>
    { filter := r.filter.release key slot, trace := r.trace ++ [.released key slot] }
  | .cleanup now => { r with filter := r.filter.cleanup now }

/-- The alert `a` was let pass, and its slot was neither released since nor evicted. -/
def Standing (r : CooldownRun) (a : TakenAlert) : Prop :=
  ∃ earlier later, r.trace = earlier ++ .taken a :: later ∧ .released a.key a.slot ∉ later ∧
    ∀ e ∈ r.filter.evicted, e.slot ≠ a.slot

/-- Slots are handed out in increasing order. -/
def Before (x y : CooldownEvent) : Prop := ∀ a b, x = .taken a → y = .taken b → a.slot < b.slot

/-- The entries are the standing alerts, up to those whose window has ended. -/
structure Inv (now : ℕ) (r : CooldownRun) : Prop where
  wf : r.filter.WF
  window : r.filter.window ≠ 0
  order : r.trace.Pairwise Before
  slot_le : ∀ a, .taken a ∈ r.trace → a.slot ≤ r.filter.nextSlot
  evicted_le : ∀ e ∈ r.filter.evicted, e.slot ≤ r.filter.nextSlot
  sound : ∀ e ∈ r.filter.entries, ∃ a, r.Standing a ∧ a.entry = e
  newest : ∀ e ∈ r.filter.entries, ∀ a, .taken a ∈ r.trace → a.key = e.key → a.slot ≤ e.slot
  complete : ∀ a, r.Standing a → since now a.takenAt < a.win → a.entry ∈ r.filter.entries

variable {r r' : CooldownRun} {now later : ℕ}

theorem Standing.mem {a : TakenAlert} (h : r.Standing a) : .taken a ∈ r.trace := by
  rcases h with ⟨earlier, later, hsplit, _⟩
  simp [hsplit]

theorem live_entry_iff {a : TakenAlert} :
    a.entry.live now = true ↔ since now a.takenAt < a.win :=
  decide_eq_true_iff

/-- Two alerts with the same slot are the same alert. -/
theorem eq_of_slot_eq {trace : List CooldownEvent} (horder : trace.Pairwise Before)
    {a b : TakenAlert} (ha : .taken a ∈ trace) (hb : .taken b ∈ trace) (hslot : a.slot = b.slot) :
    a = b := by
  induction trace with
  | nil => cases ha
  | cons x rest ih =>
    rw [pairwise_cons] at horder
    rcases mem_cons.mp ha with hax | ha'
    · rcases mem_cons.mp hb with hbx | hb'
      · exact CooldownEvent.taken.inj (hax.trans hbx.symm)
      · have hlt := horder.1 _ hb' a b hax.symm rfl
        omega
    · rcases mem_cons.mp hb with hbx | hb'
      · have hlt := horder.1 _ ha' b a hbx.symm rfl
        omega
      · exact ih horder.2 ha' hb'

/-- Splitting a history at an event, when one more event was appended. -/
theorem split_concat {α : Type*} {trace earlier later : List α} {x y : α}
    (h : trace ++ [x] = earlier ++ y :: later) :
    (later = [] ∧ trace = earlier ∧ x = y) ∨
      ∃ later', later = later' ++ [x] ∧ trace = earlier ++ y :: later' := by
  rcases eq_nil_or_concat later with rfl | ⟨later', z, rfl⟩
  · rcases append_inj' h rfl with ⟨htrace, hlast⟩
    exact .inl ⟨rfl, htrace, singleton_inj.mp hlast⟩
  · rw [concat_eq_append] at h ⊢
    have h' : trace ++ [x] = (earlier ++ y :: later') ++ [z] := by simpa using h
    rcases append_inj' h' rfl with ⟨htrace, hlast⟩
    exact .inr ⟨later', by rw [singleton_inj.mp hlast], htrace⟩

theorem start_inv {window : ℤ} (hwindow : 0 < window) (maxEntries : ℤ) :
    Inv 0 (start window maxEntries) where
  wf := CooldownFilter.newCooldownFilter_wf window maxEntries
  window := ne_of_gt hwindow
  order := List.Pairwise.nil
  slot_le := nofun
  evicted_le := nofun
  sound := nofun
  newest := nofun
  complete := by
    intro a ha
    exact absurd ha.mem (by simp [start])

theorem Inv.wait (hinv : Inv now r) (hle : now ≤ later) : Inv later r :=
  { hinv with
    complete := by
      intro a ha hlive
      exact hinv.complete a ha (lt_of_le_of_lt (since_mono hle) hlive) }

/-- Losing entries keeps the invariant, if an alert stands as long as its entry is there and no entry
of a live one goes. -/
theorem Inv.drops (hinv : Inv now r) {gone : CooldownEntry → Prop}
    (hdrops : CooldownFilter.Drops gone r.filter r'.filter)
    (hevicted : r'.filter.evicted = r.filter.evicted) (horder : r'.trace.Pairwise Before)
    (htaken : ∀ a, .taken a ∈ r'.trace → .taken a ∈ r.trace)
    (hsound : ∀ a, r.Standing a → a.entry ∈ r'.filter.entries → r'.Standing a)
    (hcomplete : ∀ a, r'.Standing a →
      r.Standing a ∧ (since now a.takenAt < a.win → ¬gone a.entry)) : Inv now r' where
  wf := hdrops.table.wf
  window := hdrops.window ▸ hinv.window
  order := horder
  slot_le a ha := (hinv.slot_le a (htaken a ha)).trans_eq hdrops.nextSlot.symm
  evicted_le e he := (hinv.evicted_le e (hevicted ▸ he)).trans_eq hdrops.nextSlot.symm
  sound := by
    intro e he
    rcases hinv.sound e (hdrops.table.mem he) with ⟨a, ha, rfl⟩
    exact ⟨a, hsound a ha he, rfl⟩
  newest e he a ha := hinv.newest e (hdrops.table.mem he) a (htaken a ha)
  complete := by
    intro a ha hlive
    rcases hcomplete a ha with ⟨hbefore, hkept⟩
    have hkeeps := hdrops.table.keeps a.entry (hinv.complete a hbefore hlive)
    exact hkeeps.resolve_right (hkept hlive)

theorem Inv.cleanup (hinv : Inv now r) : Inv now { r with filter := r.filter.cleanup now } := by
  rcases hinv.wf.cleanup_drops now with ⟨hdrops, hevicted⟩
  have hstanding (a : TakenAlert) :
      Standing { r with filter := r.filter.cleanup now } a ↔ r.Standing a := by
    simp only [Standing, hevicted]
  refine hinv.drops hdrops hevicted hinv.order (fun _ ↦ id) (fun a ha _ ↦ (hstanding a).mpr ha) ?_
  intro a ha
  exact ⟨(hstanding a).mp ha, fun hlive ↦ by simp [live_entry_iff.mpr hlive]⟩

theorem Inv.release (hinv : Inv now r) (key : String) (slot : ℕ) :
    Inv now ⟨r.filter.release key slot, r.trace ++ [.released key slot]⟩ := by
  rcases hinv.wf.release key slot with ⟨hdrops, hevicted, hfreed⟩
  refine hinv.drops hdrops hevicted ?_ (by simp) ?_ ?_
  · refine pairwise_append.mpr ⟨hinv.order, pairwise_singleton _ _, ?_⟩
    intro x _ y hy a b _ hb
    rw [mem_singleton] at hy
    rw [hy] at hb
    cases hb
  · intro a ha hentry
    rcases ha with ⟨earlier, later, hsplit, hkept, hstay⟩
    refine ⟨earlier, later ++ [.released key slot], ?_, ?_, hevicted ▸ hstay⟩
    · rw [hsplit, append_assoc, cons_append]
    · intro hmem
      rcases mem_append.mp hmem with hold | hnew
      · exact hkept hold
      · -- The entry would have been removed by this release.
        rw [mem_singleton, CooldownEvent.released.injEq] at hnew
        exact hfreed (hnew.1 ▸ a.key_ne_empty) a.entry hentry hnew
  · intro a ha
    rcases ha with ⟨earlier, later, hsplit, hkept, hstay⟩
    rcases split_concat hsplit with ⟨_, _, heq⟩ | ⟨later', rfl, htrace⟩
    · cases heq
    · rw [mem_append, not_or] at hkept
      refine ⟨⟨earlier, later', htrace, hkept.1, hevicted ▸ hstay⟩, fun _ hgone ↦ hkept.2 ?_⟩
      rw [mem_singleton, ← hgone.1, ← hgone.2]
      rfl

theorem Inv.entry_slot_le (hinv : Inv now r) : ∀ e ∈ r.filter.entries, e.slot ≤ r.filter.nextSlot := by
  intro e he
  rcases hinv.sound e he with ⟨a, ha, rfl⟩
  exact hinv.slot_le a ha.mem

section Takes

variable {ip : String} {cls : Class} {win : ℤ} {d' : CooldownFilter}
  (htakes : r.filter.Takes ⟨cooldownKey ip cls, now, win, r.filter.nextSlot + 1⟩ now d')

include htakes

/-- Nothing that is evicted has the slot that is handed out. -/
theorem Inv.evicted_slot_le (hinv : Inv now r) : ∀ e ∈ d'.evicted, e.slot ≤ r.filter.nextSlot := by
  intro e he
  rcases htakes.evicted_cases e he with hold | ⟨hentry, _⟩
  · exact hinv.evicted_le e hold
  · exact hinv.entry_slot_le e hentry

/-- The new alert stands, and so does an older one whose entry is still there. -/
theorem Inv.takes_sound (hinv : Inv now r) : ∀ e ∈ d'.entries, ∃ a, a.entry = e ∧
    Standing ⟨d', r.trace ++ [.taken ⟨ip, cls, now, win, r.filter.nextSlot + 1⟩]⟩ a := by
  intro e he
  rcases htakes.sub e he with rfl | ⟨hold, _⟩
  · refine ⟨⟨ip, cls, now, win, r.filter.nextSlot + 1⟩, rfl, r.trace, [], rfl, by simp, ?_⟩
    intro x hx
    have hle := hinv.evicted_slot_le htakes x hx
    change x.slot ≠ r.filter.nextSlot + 1
    omega
  · rcases hinv.sound e hold with ⟨a, ha, heq⟩
    rcases id ha with ⟨earlier, later, hsplit, hkept, hstay⟩
    refine ⟨a, heq, earlier, later ++ [.taken ⟨ip, cls, now, win, r.filter.nextSlot + 1⟩], ?_,
      by simpa using hkept, ?_⟩
    · rw [hsplit, append_assoc, cons_append]
    · intro x hx
      rcases htakes.evicted_cases x hx with hx' | ⟨hentry, hout⟩
      · exact hstay x hx'
      · intro hsame
        rcases hinv.sound x hentry with ⟨b, hb, rfl⟩
        have hab : b = a := eq_of_slot_eq hinv.order hb.mem ha.mem hsame
        rw [hab, heq] at hout
        exact hout he

/-- An older alert that still stands and is live keeps its entry: of the same key it would have suppressed
the new one. -/
theorem Inv.takes_complete (hinv : Inv now r) (hfree : r.filter.suppressed ip cls now = false)
    {a : TakenAlert} (ha : r.Standing a) (hstay : ∀ e ∈ d'.evicted, e.slot ≠ a.slot)
    (hlive : since now a.takenAt < a.win) : a.entry ∈ d'.entries := by
  have hentry := hinv.complete a ha hlive
  have hlive' := live_entry_iff.mpr hlive
  by_cases hkey : a.key = cooldownKey ip cls
  · have hget : r.filter.table.get? (cooldownKey ip _) = some a.entry :=
      (get?_iff hinv.wf ..).mpr ⟨hentry, hkey⟩
    have hsuppressed := CooldownFilter.suppressed_iff.mpr ⟨cls, a.entry, le_rfl, hget, hlive'⟩
    rw [hfree] at hsuppressed
    cases hsuppressed
  · rcases htakes.keeps a.entry hentry hkey with hmem | hgone | hout
    · exact hmem
    · rw [hlive'] at hgone
      cases hgone
    · exact absurd rfl (hstay a.entry hout)

end Takes

theorem Inv.takes (hinv : Inv now r) {ip : String} {cls : Class} {win : ℤ} {d' : CooldownFilter}
    (hfree : r.filter.suppressed ip cls now = false)
    (htakes : r.filter.Takes ⟨cooldownKey ip cls, now, win, r.filter.nextSlot + 1⟩ now d') :
    Inv now ⟨d', r.trace ++ [.taken ⟨ip, cls, now, win, r.filter.nextSlot + 1⟩]⟩ := by
  have htaken {a : TakenAlert}
      (ha : .taken a ∈ r.trace ++ [.taken ⟨ip, cls, now, win, r.filter.nextSlot + 1⟩]) :
      .taken a ∈ r.trace ∨ a = ⟨ip, cls, now, win, r.filter.nextSlot + 1⟩ := by simpa using ha
  refine ⟨htakes.wf, htakes.window ▸ hinv.window, ?_, ?_, ?_, ?_, ?_, ?_⟩
  · refine pairwise_append.mpr ⟨hinv.order, pairwise_singleton _ _, ?_⟩
    intro x hx y hy a b ha hb
    rw [mem_singleton] at hy
    rw [hy, CooldownEvent.taken.injEq] at hb
    rw [← hb]
    exact Nat.lt_succ_of_le (hinv.slot_le a (ha ▸ hx))
  · intro a ha
    rw [htakes.nextSlot]
    rcases htaken ha with hold | rfl
    · exact Nat.le_succ_of_le (hinv.slot_le a hold)
    · exact le_rfl
  · intro e he
    rw [htakes.nextSlot]
    exact Nat.le_succ_of_le (hinv.evicted_slot_le htakes e he)
  · intro e he
    rcases hinv.takes_sound htakes e he with ⟨a, heq, hstanding⟩
    exact ⟨a, hstanding, heq⟩
  · intro e he a ha hkey
    rcases htakes.sub e he with rfl | ⟨hold, hne⟩
    · rcases htaken ha with hold | rfl
      · exact Nat.le_succ_of_le (hinv.slot_le a hold)
      · exact le_rfl
    · rcases htaken ha with hold' | rfl
      · exact hinv.newest e hold a hold' hkey
      · exact absurd hkey.symm hne
  · intro a ha hlive
    rcases ha with ⟨earlier, later, hsplit, hkept, hstay⟩
    rcases split_concat hsplit with ⟨_, _, heq⟩ | ⟨later', rfl, htrace⟩
    · cases heq
      exact htakes.mem
    · rw [mem_append, not_or] at hkept
      have hold : ∀ e ∈ r.filter.evicted, e.slot ≠ a.slot :=
        fun e he ↦ hstay e (htakes.evicted_mono e he)
      exact hinv.takes_complete htakes hfree ⟨earlier, later', htrace, hkept.1, hold⟩ hstay hlive

theorem Inv.step {net : Netip} {op : CooldownOp} (hinv : Inv op.time r) :
    Inv op.time (r.step net op) := by
  cases op with
  | allow offenders ip cls now =>
    rcases hinv.wf.allow hinv.window net offenders ip cls now with
      ⟨_, hrefused⟩ | ⟨hfree, win, d', _, hpassed, htakes⟩
    · simp only [CooldownRun.step, hrefused]
      exact hinv
    · simp only [CooldownRun.step, hpassed]
      exact hinv.takes hfree htakes
  | release key slot now => exact hinv.release ..
  | cleanup now => exact hinv.cleanup

end CooldownRun

/-- The filter and its history after a run. -/
def cooldownAfter (net : Netip) (window maxEntries : ℤ) (ops : List CooldownOp) : CooldownRun :=
  run (CooldownRun.step net) (CooldownRun.start window maxEntries) ops

theorem cooldownAfter_inv (net : Netip) {window : ℤ} (hwindow : 0 < window) (maxEntries : ℤ)
    {ops : List CooldownOp} {now : ℕ} (hclock : Clock CooldownOp.time 0 ops now) :
    CooldownRun.Inv now (cooldownAfter net window maxEntries ops) :=
  run_invariant CooldownRun.Inv (fun _ _ _ hle h ↦ h.wait hle) (fun _ _ _ h ↦ h.step) hclock
    (along_of_forall fun _ _ ↦ trivial) (CooldownRun.start_inv hwindow maxEntries)

/-- An alert is suppressed exactly while a standing alert of the address, of the same or a higher
class, is inside its window. -/
theorem CooldownRun.Inv.suppressed_iff {r : CooldownRun} {now : ℕ} (hinv : CooldownRun.Inv now r)
    (ip : String) (cls : Class) : r.filter.suppressed ip cls now = true ↔
      ∃ a, r.Standing a ∧ a.ip = ip ∧ cls.rank ≤ a.cls.rank ∧ since now a.takenAt < a.win := by
  rw [CooldownFilter.suppressed_iff]
  constructor
  · intro h
    rcases h with ⟨c, e, hrank, hget, hlive⟩
    rcases (get?_iff hinv.wf ..).mp hget with ⟨hentry, hkey⟩
    rcases hinv.sound e hentry with ⟨a, ha, rfl⟩
    rcases cooldownKey_inj (show cooldownKey a.ip a.cls = cooldownKey ip c from hkey) with
      ⟨hip, hcls⟩
    exact ⟨a, ha, hip, hcls ▸ hrank, live_entry_iff.mp hlive⟩
  · intro h
    rcases h with ⟨a, ha, rfl, hrank, hlive⟩
    have hentry := hinv.complete a ha hlive
    exact ⟨a.cls, a.entry, hrank, (get?_iff hinv.wf ..).mpr ⟨hentry, rfl⟩,
      live_entry_iff.mpr hlive⟩

/-- The release of an alert whose key was taken again since changes nothing. -/
theorem CooldownRun.Inv.release_rearmed {r : CooldownRun} {now : ℕ} (hinv : CooldownRun.Inv now r)
    {earlier middle later : List CooldownEvent} {a b : TakenAlert}
    (htrace : r.trace = earlier ++ .taken a :: (middle ++ .taken b :: later))
    (hkey : b.key = a.key) : r.filter.release a.key a.slot = r.filter := by
  have hlt : a.slot < b.slot := by
    have horder := hinv.order
    rw [htrace] at horder
    have htail := (pairwise_append.mp horder).2.1
    exact (pairwise_cons.mp htail).1 (.taken b) (by simp) a b rfl rfl
  unfold CooldownFilter.release
  rw [if_neg a.key_ne_empty]
  cases hnode : r.filter.table.node? a.key with
  | none => rfl
  | some node =>
    rcases (node?_iff hinv.wf ..).mp hnode with ⟨hmem, hnodeKey⟩
    have hentry : node.val ∈ r.filter.entries := mem_vals_iff.mpr ⟨node, hmem, rfl⟩
    have hle : b.slot ≤ node.val.slot :=
      hinv.newest _ hentry b (by simp [htrace]) (hkey.trans hnodeKey.symm)
    have hne : node.val.slot ≠ a.slot := by omega
    simp [hne]

/-- The cooldown law. -/
theorem cooldown_law (net : Netip) (window maxEntries : ℤ) (hwindow : 0 < window)
    (ops : List CooldownOp) (now : ℕ) (hclock : Clock CooldownOp.time 0 ops now) :
    (∀ (offenders : Option OffenderTable) (ip : String) (cls : Class),
      ((cooldownAfter net window maxEntries ops).filter.allow net offenders ip cls now).1.ok = false ↔
        ∃ a, (cooldownAfter net window maxEntries ops).Standing a ∧ a.ip = ip ∧
          cls.rank ≤ a.cls.rank ∧ since now a.takenAt < a.win) ∧
    (∀ (earlier middle later : List CooldownEvent) (a b : TakenAlert),
      (cooldownAfter net window maxEntries ops).trace =
        earlier ++ .taken a :: (middle ++ .taken b :: later) → b.key = a.key →
      (cooldownAfter net window maxEntries ops).filter.release a.key a.slot =
        (cooldownAfter net window maxEntries ops).filter) := by
  have hinv := cooldownAfter_inv net hwindow maxEntries hclock
  refine ⟨fun offenders ip cls ↦ ?_, fun earlier middle later a b ↦ hinv.release_rearmed⟩
  rw [← hinv.suppressed_iff]
  rcases hinv.wf.allow hinv.window net offenders ip cls now with
    ⟨hsuppressed, hrefused⟩ | ⟨hfree, win, d', _, hpassed, _⟩
  · simp [hrefused, hsuppressed]
  · simp [hpassed, hfree]

/-- Two attack alerts, the second when the window of the first has just ended. -/
def rearmedOps : List CooldownOp :=
  [.allow none "8.8.8.8" .attack 0, .allow none "8.8.8.8" .attack 60]

theorem cooldown_law_rearmed :
    ((cooldownAfter (.ofTable []) 60 1 rearmedOps).filter.allow (.ofTable []) none "8.8.8.8"
      .probe 61).1.ok = false ∧
    (cooldownAfter (.ofTable []) 60 1 rearmedOps).filter.release (cooldownKey "8.8.8.8" .attack) 1 =
      (cooldownAfter (.ofTable []) 60 1 rearmedOps).filter := by
  have hlaw := cooldown_law (.ofTable []) 60 1 (by decide) rearmedOps 61 (by decide)
  have htrace : (cooldownAfter (.ofTable []) 60 1 rearmedOps).trace =
      [.taken ⟨"8.8.8.8", .attack, 0, 60, 1⟩, .taken ⟨"8.8.8.8", .attack, 60, 60, 2⟩] := by decide
  refine ⟨(hlaw.1 ..).mpr ⟨⟨"8.8.8.8", .attack, 60, 60, 2⟩, ?_, rfl, ?_⟩, ?_⟩
  · exact ⟨[.taken ⟨"8.8.8.8", .attack, 0, 60, 1⟩], [], htrace, by simp, by decide⟩
  · decide
  · exact hlaw.2 [] [] [] ⟨"8.8.8.8", .attack, 0, 60, 1⟩ ⟨"8.8.8.8", .attack, 60, 60, 2⟩ htrace rfl

end RanHoneypot.Alert
