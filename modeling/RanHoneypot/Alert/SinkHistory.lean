import RanHoneypot.Alert.OffenderUpkeep
import RanHoneypot.Alert.CooldownLaw
import RanHoneypot.Alert.CrowdSec

/-!
# What the tables of the sink remember of the accepted alerts

The cooldown filter and the offender table are filled by the same `Submit` calls but have different
keys, windows and rules for forgetting. This module relates both to one thing, the list of the alerts
that the sink has accepted. In a run without evictions, dropped alerts and failed pushes the filter
refuses an alert by the windows of that list (`CooldownLaw`), and the offender table holds for each
source the counters and the shun window that follow from it.
-/

namespace RanHoneypot.Alert

open TimedRun OffenderTable List Offender

/-- An accepted alert, with what the tables hold about it at that moment: the window it was taken
with, and whether the offender entry of the source counts this alert only. -/
structure AcceptedAlert where
  ip : String
  cls : Class
  acceptedAt : ℕ
  win : ℤ
  slot : ℕ
  restarted : Bool
deriving DecidableEq

/-- A call of the sink at a clock reading. `deliver` is the worker taking an alert that it pushes
with success. -/
inductive SinkOp where
  | submit (ev : Event) (now : ℕ)
  | deliver (now : ℕ)
  | shunned (ip : String) (now : ℕ)
  | rejected (ip protocol : String) (now : ℕ)
  | sweep (now : ℕ)
  | cleanup (now : ℕ)
  | close (now : ℕ)
deriving DecidableEq

def SinkOp.time : SinkOp → ℕ
  | submit _ now => now
  | deliver now => now
  | shunned _ now => now
  | rejected _ _ now => now
  | sweep now => now
  | cleanup now => now
  | close now => now

/-- The sink and the alerts it has accepted, oldest first. -/
structure SinkRun where
  sink : CrowdSecAlerter
  history : List AcceptedAlert

namespace SinkRun

/-- The entry counts one alert of class `idx` and nothing else. -/
def countsOnly (e : Offender) (idx : Fin 3) : Bool :=
  decide (∀ i, e.counts i = if i = idx then 1 else 0)

/-- What the tables hold about the alert that was queued last. -/
def acceptedAlert (sink : CrowdSecAlerter) (msg : AlertMsg) (now : ℕ) : AcceptedAlert where
  ip := msg.ip
  cls := msg.cls
  acceptedAt := now
  win := ((sink.cooldown.table.get? msg.cooldownKey).map CooldownEntry.win).getD 0
  slot := msg.slot
  restarted := (sink.offenders.table.get? msg.mark.key).any fun e ↦ countsOnly e msg.mark.idx

def start (cfg : CrowdSecConfig) : SinkRun := ⟨newCrowdSec cfg, []⟩

def step (net : Netip) (s : SinkRun) : SinkOp → SinkRun
  | .submit ev now =>
    let (stage, sink) := s.sink.submit net s.history.length ev now
    { sink := sink
      history := s.history ++
        if stage = .queued then (sink.ch.getLast?.map (acceptedAlert sink · now)).toList else [] }
  | .deliver _ => { s with sink := { s.sink with ch := s.sink.ch.tail } }
  | .shunned ip now => { s with sink := (s.sink.shunned net ip now).2 }
  | .rejected ip protocol _ => { s with sink := s.sink.shunRejected net ip protocol }
  | .sweep now => { s with sink := s.sink.sweep now }
  | .cleanup now => { s with sink := s.sink.cleanup now }
  | .close _ => { s with sink := { s.sink with closed := true } }

/-- Nothing has been evicted from the tables. -/
def uncrowded (s : SinkRun) : Prop :=
  s.sink.cooldown.evicted = [] ∧ s.sink.offenders.evicted.length = 0

instance (s : SinkRun) : Decidable s.uncrowded := inferInstanceAs (Decidable (_ ∧ _))

/-- The operation evicts nothing and drops no alert. -/
def undisturbed (net : Netip) (s : SinkRun) (op : SinkOp) : Prop :=
  (s.step net op).uncrowded ∧
    match op with
    | .submit ev now => (s.sink.submit net s.history.length ev now).1 ≠ .dropped
    | _ => True

instance (net : Netip) (s : SinkRun) (op : SinkOp) : Decidable (s.undisturbed net op) := by
  unfold undisturbed
  cases op <;> infer_instance

end SinkRun

/-- A run of the sink without evictions and dropped alerts. Pushes never fail in it. -/
structure UndisturbedRun (net : Netip) (cfg : CrowdSecConfig) (ops : List SinkOp) (now : ℕ) : Prop where
  clock : Clock SinkOp.time 0 ops now
  along : Along (SinkRun.step net) (SinkRun.undisturbed net) (SinkRun.start cfg) ops

variable (history : List AcceptedAlert) (ip : String)

instance (net : Netip) (cfg : CrowdSecConfig) (ops : List SinkOp) (now : ℕ) :
    Decidable (UndisturbedRun net cfg ops now) :=
  decidable_of_iff
    (Clock SinkOp.time 0 ops now ∧
      Along (SinkRun.step net) (SinkRun.undisturbed net) (SinkRun.start cfg) ops)
    ⟨fun h ↦ ⟨h.1, h.2⟩, fun h ↦ ⟨h.clock, h.along⟩⟩

def sinkAfter (net : Netip) (cfg : CrowdSecConfig) (ops : List SinkOp) : SinkRun :=
  run (SinkRun.step net) (SinkRun.start cfg) ops

/-! ## What follows from a history -/

/-- Some attack or scan alert of the source is still inside its window. -/
def WindowLeft (now : ℕ) : Prop :=
  ∃ a ∈ history, a.ip = ip ∧ a.cls ≠ .probe ∧ since now a.acceptedAt < a.win

/-- The source has been silent for `reset` in all classes and has no shun window left. -/
def Quiet (reset : ℤ) (shun : Bool) (history : List AcceptedAlert) (ip : String) (now : ℕ) : Prop :=
  (∀ a ∈ history, a.ip = ip → reset ≤ since now a.acceptedAt) ∧
    ¬(shun = true ∧ WindowLeft history ip now)

/-- The alerts of the source since its counters last restarted. -/
def sinceRestart : List AcceptedAlert :=
  history.foldl (fun found a ↦
    if a.ip ≠ ip then found else if a.restarted then [a] else found ++ [a]) []

/-- The number of alerts of a source and class since the counters of the source restarted. -/
def ordinal (cls : Class) : ℕ :=
  (sinceRestart history ip).countP fun a ↦ decide (a.cls = cls)

section

variable {history : List AcceptedAlert} {a : AcceptedAlert} {ip : String} {cls : Class}
  {reset : ℤ} {shun : Bool} {now later : ℕ}

theorem sinceRestart_concat : sinceRestart (history ++ [a]) ip =
    if a.ip ≠ ip then sinceRestart history ip
    else if a.restarted then [a] else sinceRestart history ip ++ [a] := by
  simp [sinceRestart]

theorem ordinal_concat_of_ne (hne : a.ip ≠ ip) :
    ordinal (history ++ [a]) ip cls = ordinal history ip cls := by
  rw [ordinal, sinceRestart_concat, if_pos hne, ordinal]

theorem ordinal_concat_self : ordinal (history ++ [a]) a.ip cls =
    (if a.restarted then 0 else ordinal history a.ip cls) + if a.cls = cls then 1 else 0 := by
  rw [ordinal, sinceRestart_concat]
  cases a.restarted <;> simp [ordinal, countP_cons]

theorem windowLeft_concat : WindowLeft (history ++ [a]) ip now ↔ WindowLeft history ip now ∨
    (a.ip = ip ∧ a.cls ≠ .probe ∧ since now a.acceptedAt < a.win) := by
  simp [WindowLeft, or_and_right, exists_or]

theorem WindowLeft.earlier (hle : now ≤ later) (hleft : WindowLeft history ip later) :
    WindowLeft history ip now := by
  rcases hleft with ⟨a, ha, hip, hcls, hopen⟩
  exact ⟨a, ha, hip, hcls, lt_of_le_of_lt (since_mono hle) hopen⟩

theorem Quiet.wait (hquiet : Quiet reset shun history ip now) (hle : now ≤ later) :
    Quiet reset shun history ip later := by
  refine ⟨fun a ha hip ↦ (hquiet.1 a ha hip).trans (since_mono hle), fun hleft ↦ hquiet.2 ?_⟩
  exact ⟨hleft.1, hleft.2.earlier hle⟩

theorem quiet_concat_of_ne (hne : a.ip ≠ ip) :
    Quiet reset shun (history ++ [a]) ip now ↔ Quiet reset shun history ip now := by
  simp only [Quiet, windowLeft_concat, mem_append, mem_singleton, hne, false_and, or_false]
  constructor
  · intro h
    exact ⟨fun x hx ↦ h.1 x (.inl hx), h.2⟩
  · intro h
    refine ⟨fun x hx hip ↦ ?_, h.2⟩
    rcases hx with hx | rfl
    · exact h.1 x hx hip
    · exact absurd hip hne

end

/-! ## The entry of a source -/

/-- The offender entry of a source, as it follows from the history. -/
structure Remembers (shun : Bool) (history : List AcceptedAlert) (ip : String) (now : ℕ)
    (e : Offender) : Prop where
  counts : ∀ cls : Class, e.counts cls.index = ordinal history ip cls
  last : ∃ a ∈ history, a.ip = ip ∧ a.acceptedAt = e.last
  last_max : ∀ a ∈ history, a.ip = ip → a.acceptedAt ≤ e.last
  counted : ∃ cls, 0 < ordinal history ip cls
  window : ∀ t, now ≤ t → (e.shunnedAt t = true ↔ shun = true ∧ WindowLeft history ip t)
  idle : e.active = false → e.shunUntil = 0

/-- The table knows the source as the history says, or has rightly forgotten it. -/
def Tracks (o : OffenderTable) (history : List AcceptedAlert) (ip : String) (now : ℕ) : Prop :=
  match o.table.get? ip with
  | none => Quiet o.reset o.shun history ip now
  | some e => Remembers o.shun history ip now e

section

variable {o o' : OffenderTable} {e : Offender} {history : List AcceptedAlert} {ip : String}
  {now later : ℕ} {shun : Bool}

theorem Remembers.wait (h : Remembers shun history ip now e) (hle : now ≤ later) :
    Remembers shun history ip later e :=
  { h with window := fun t ht ↦ h.window t (hle.trans ht) }

theorem Tracks.wait (h : Tracks o history ip now) (hle : now ≤ later) :
    Tracks o history ip later := by
  unfold Tracks at h ⊢
  cases hget : o.table.get? ip with
  | none =>
    rw [hget] at h
    exact Quiet.wait h hle
  | some e =>
    rw [hget] at h
    exact Remembers.wait h hle

/-- An entry has expired exactly if the history of the source says so. -/
theorem Remembers.expired_iff (h : Remembers o.shun history ip now e) :
    o.expired e now = true ↔ Quiet o.reset o.shun history ip now := by
  have hwindow : now < e.shunUntil ↔ e.shunnedAt now = true := by
    rw [shunnedAt_iff]
    constructor
    · intro hlt
      refine ⟨?_, hlt⟩
      by_contra hoff
      rw [h.idle (Bool.eq_false_iff.mpr hoff)] at hlt
      exact absurd hlt (Nat.not_lt_zero _)
    · exact And.right
  unfold expired
  rw [Bool.and_eq_true, decide_eq_true_iff, Bool.not_eq_true', decide_eq_false_iff_not, hwindow,
    h.window now le_rfl]
  refine and_congr_left fun _ ↦ ⟨fun hsilent a ha hip ↦ ?_, fun hsilent ↦ ?_⟩
  · have hle := h.last_max a ha hip
    unfold since at hsilent ⊢
    omega
  · rcases h.last with ⟨a, ha, hip, hlast⟩
    rw [← hlast]
    exact hsilent a ha hip

/-- Closing a window that has ended. -/
theorem Remembers.closeWindow (h : Remembers shun history ip now e) (hended : ended e now) :
    Remembers shun history ip now e.closeWindow :=
  { h with
    window := by
      intro t ht
      rw [← h.window t ht]
      have hpast : ¬t < e.shunUntil := by have := hended.2; omega
      simp [Offender.shunnedAt, Offender.closeWindow, hpast]
    idle := fun _ ↦ rfl }

theorem Tracks.tidied (h : Tracks o history ip now) (htidied : Tidied now o o') :
    Tracks o' history ip now := by
  have hreset := reset_of_config htidied.frame.config
  have hshun := shun_of_config htidied.frame.config
  unfold Tracks at h ⊢
  rw [hreset, hshun]
  rcases htidied.get? ip with hsame | ⟨e, he, hended, hclosed⟩ | ⟨hnone, e, he, hexpired⟩
  · rw [hsame]
    exact h
  · rw [he] at h
    rw [hclosed]
    exact Remembers.closeWindow h hended
  · rw [he] at h
    rw [hnone]
    exact (Remembers.expired_iff h).mp hexpired

theorem Tracks.rejected (h : Tracks o history ip now) (hwf : o.WF) (net : Netip)
    (source protocol : String) : Tracks (o.rejected net source protocol) history ip now := by
  have hframe := rejected_frame (o := o) net source protocol
  have hreset := reset_of_config hframe.config
  have hshun := shun_of_config hframe.config
  unfold Tracks at h ⊢
  rw [hreset, hshun]
  rcases hwf.rejected_get? net source protocol ip with hsame | ⟨e, he, _, hcounted⟩
  · rw [hsame]
    exact h
  · rw [he] at h
    rw [hcounted]
    exact ⟨h.counts, h.last, h.last_max, h.counted, h.window, h.idle⟩

end

/-! ## Accepting an alert -/

section

variable {o : OffenderTable} {e after : Offender} {cls : Class} {window : ℤ} {now win next : ℕ}
  (h : o.Accepts e cls window now after win next)

include h

/-- The window of an entry after an alert: it ends at the later of the two ends. -/
theorem OffenderTable.Accepts.shunnedAt_iff {t : ℕ} (hle : now ≤ t) : after.shunnedAt t = true ↔
      e.shunnedAt t = true ∨ (o.shuns cls window ∧ t < advance now window) := by
  have hlater (hrunning : ¬e.shunnedAt now = true) : ¬e.shunnedAt t = true := by
    intro hopen
    rw [OffenderTable.shunnedAt_iff] at hrunning hopen
    exact hrunning ⟨hopen.1, hle.trans_lt hopen.2⟩
  cases h with
  | quiet hquiet => simp [hquiet]
  | joins hshuns hrunning hjoins =>
    have hopen := (OffenderTable.shunnedAt_iff.mp hrunning).1
    simp only [OffenderTable.shunnedAt_iff, hopen, true_and]
    omega
  | prolongs hshuns hrunning hlonger =>
    have hopen := (OffenderTable.shunnedAt_iff.mp hrunning).1
    simp only [OffenderTable.shunnedAt_iff, extendWindow, hopen, hshuns, true_and]
    omega
  | opens hshuns hidle =>
    simp only [hlater hidle, hshuns]
    simp [OffenderTable.shunnedAt_iff, openWindow]

theorem OffenderTable.Accepts.last : after.last = e.last := by
  cases h with
  | quiet | joins | prolongs => rfl
  | opens hshuns hidle =>
    split <;> rfl

end

section

variable {o o' : OffenderTable} {history : List AcceptedAlert} {ip : String} {now : ℕ}
  {a : AcceptedAlert} {win : ℕ}

/-- The entry an alert is recorded in: a new one exactly if the source has been quiet. -/
theorem Tracks.startEntry (h : Tracks o history ip now) :
    (Quiet o.reset o.shun history ip now ∧ o.startEntry ip now = { ip := ip }) ∨
    (¬Quiet o.reset o.shun history ip now ∧
      Remembers o.shun history ip now (o.startEntry ip now)) := by
  unfold Tracks at h
  unfold OffenderTable.startEntry
  cases hget : o.table.get? ip with
  | none =>
    rw [hget] at h
    exact .inl ⟨h, rfl⟩
  | some e =>
    rw [hget] at h
    have hexpired := Remembers.expired_iff h
    by_cases hquiet : Quiet o.reset o.shun history ip now
    · simp only [hexpired.mpr hquiet, if_true]
      exact .inl ⟨hquiet, trivial⟩
    · rw [← hexpired] at hquiet
      simp only [hquiet, Bool.false_eq_true]
      exact .inr ⟨by simpa [hexpired] using hquiet, h⟩

/-- The counter that the next alert of the source finds. -/
theorem Tracks.startEntry_counts (h : Tracks o history ip now) (cls : Class) :
    (Quiet o.reset o.shun history ip now → (o.startEntry ip now).counts cls.index = 0) ∧
    (¬Quiet o.reset o.shun history ip now →
      (o.startEntry ip now).counts cls.index = ordinal history ip cls) := by
  rcases h.startEntry with ⟨hquiet, hfresh⟩ | ⟨hbusy, hknown⟩
  · rw [hfresh]
    exact ⟨fun _ ↦ rfl, fun hbusy ↦ absurd hquiet hbusy⟩
  · exact ⟨fun hquiet ↦ absurd hquiet hbusy, fun _ ↦ hknown.counts cls⟩

theorem countsOnly_record {e after : Offender} {idx : Fin 3}
    (hcounts : after.counts = (e.record idx now).counts) :
    SinkRun.countsOnly after idx = true ↔ ∀ i, e.counts i = 0 := by
  rw [SinkRun.countsOnly, decide_eq_true_iff, hcounts]
  refine forall_congr' fun i ↦ ?_
  by_cases hi : i = idx
  · simp [record, hi]
  · simp [record, hi]

theorem exists_class_index (i : Fin 3) : ∃ cls : Class, cls.index = i := by
  match i with
  | 0 => exact ⟨.probe, rfl⟩
  | 1 => exact ⟨.attack, rfl⟩
  | 2 => exact ⟨.scan, rfl⟩

/-- The counters restart exactly if the source has been quiet. -/
theorem Tracks.restarted_iff (h : Tracks o history ip now) {after : Offender} {idx : Fin 3}
    (hcounts : after.counts = ((o.startEntry ip now).record idx now).counts) :
    SinkRun.countsOnly after idx = true ↔ Quiet o.reset o.shun history ip now := by
  rw [countsOnly_record hcounts]
  constructor
  · intro hzero
    by_contra hbusy
    rcases h.startEntry with ⟨hquiet, _⟩ | ⟨_, hknown⟩
    · exact hbusy hquiet
    · rcases hknown.counted with ⟨cls, hpos⟩
      have hcount := hknown.counts cls
      rw [hzero] at hcount
      omega
  · intro hquiet i
    rcases exists_class_index i with ⟨cls, rfl⟩
    exact (h.startEntry_counts cls).1 hquiet

/-- An alert of another source says nothing about the entry. -/
theorem Remembers.concat_of_ne {shun : Bool} {e : Offender} (h : Remembers shun history ip now e)
    (hne : a.ip ≠ ip) : Remembers shun (history ++ [a]) ip now e where
  counts := by
    intro cls
    rw [ordinal_concat_of_ne hne]
    exact h.counts _
  last := by
    rcases h.last with ⟨x, hx, hip, hlast⟩
    exact ⟨x, mem_append_left _ hx, hip, hlast⟩
  last_max := by
    intro x hx hip
    rcases mem_append.mp hx with hold | hnew
    · exact h.last_max x hold hip
    · rw [mem_singleton.mp hnew] at hip
      exact absurd hip hne
  counted := by
    simp only [ordinal_concat_of_ne hne]
    exact h.counted
  window := by
    intro t ht
    simp only [windowLeft_concat, hne, false_and, or_false]
    exact h.window t ht
  idle := h.idle

/-- The counters of the entry and of the history grow alike. -/
theorem Tracks.record_counts (h : Tracks o history a.ip now)
    (hrestarted : a.restarted = true ↔ Quiet o.reset o.shun history a.ip now) (cls : Class) :
    ((o.startEntry a.ip now).record a.cls.index now).counts cls.index =
      ordinal (history ++ [a]) a.ip cls := by
  have hstart := h.startEntry_counts cls
  have hbefore : (o.startEntry a.ip now).counts cls.index =
      ((if a.restarted then 0 else ordinal history a.ip cls : ℕ) : ℤ) := by
    by_cases hquiet : Quiet o.reset o.shun history a.ip now
    · rw [hstart.1 hquiet, if_pos (hrestarted.mpr hquiet)]
      rfl
    · rw [hstart.2 hquiet, if_neg (fun hr ↦ hquiet (hrestarted.mp hr))]
  rw [ordinal_concat_self, Nat.cast_add, ← hbefore]
  by_cases hcls : a.cls = cls
  · simp [record, hcls]
  · have hne : cls.index ≠ a.cls.index := fun heq ↦ hcls (Class.index_injective heq.symm)
    simp [record, hne, hcls]

/-- The entry of the source after its alert. -/
theorem Tracks.record {after : Offender} {next : ℕ} (h : Tracks o history a.ip now)
    (hpast : ∀ x ∈ history, x.acceptedAt ≤ now) (hwin : 0 < a.win) (hnow : a.acceptedAt = now)
    (haccepts : o.Accepts ((o.startEntry a.ip now).record a.cls.index now) a.cls a.win now after
      win next)
    (hrestarted : a.restarted = true ↔ Quiet o.reset o.shun history a.ip now)
    (hidle : after.active = false → after.shunUntil = 0) :
    Remembers o.shun (history ++ [a]) a.ip now after where
  counts := by
    intro cls
    rw [haccepts.counts]
    exact h.record_counts hrestarted _
  last := by
    refine ⟨a, by simp, rfl, ?_⟩
    rw [haccepts.last, hnow]
    rfl
  last_max := by
    intro x hx _
    have hlast : after.last = now := haccepts.last
    rw [hlast]
    rcases mem_append.mp hx with hold | hnew
    · exact hpast x hold
    · rw [mem_singleton.mp hnew, hnow]
  counted := by
    refine ⟨a.cls, ?_⟩
    rw [ordinal_concat_self]
    simp
  window := by
    intro t ht
    have hbefore : ((o.startEntry a.ip now).record a.cls.index now).shunnedAt t = true ↔
        o.shun = true ∧ WindowLeft history a.ip t := by
      change (o.startEntry ..).shunnedAt t = true ↔ _
      rcases h.startEntry with ⟨hquiet, hfresh⟩ | ⟨_, hknown⟩
      · rw [hfresh]
        have hnone := (hquiet.wait ht).2
        simpa [shunnedAt] using hnone
      · exact hknown.window t ht
    rw [haccepts.shunnedAt_iff ht, windowLeft_concat, hnow, since_lt_iff hwin]
    simp only [OffenderTable.shuns, true_and]
    tauto
  idle := hidle

/-- The table tracks the history with the new alert. -/
theorem Tracks.accepted (h : ∀ ip, Tracks o history ip now)
    (hpast : ∀ x ∈ history, x.acceptedAt ≤ now) (hwin : 0 < a.win) (hnow : a.acceptedAt = now)
    (hin : o.AcceptedIn a.ip a.cls.index a.cls a.win now o' win) (hevicted : o'.evicted = [])
    (hrestarted : ∀ e, o'.table.get? a.ip = some e →
      a.restarted = SinkRun.countsOnly e a.cls.index) :
    (a.restarted = true ↔ Quiet o.reset o.shun history a.ip now) ∧
      ∀ ip, Tracks o' (history ++ [a]) ip now := by
  rcases hin.entry with ⟨after, haccepts, hafter⟩
  have hiff : a.restarted = true ↔ Quiet o.reset o.shun history a.ip now := by
    rw [hrestarted after hafter]
    exact (h a.ip).restarted_iff haccepts.counts
  refine ⟨hiff, fun ip ↦ ?_⟩
  have hreset := reset_of_config hin.config
  have hshun := shun_of_config hin.config
  unfold Tracks
  rw [hreset, hshun]
  by_cases hip : ip = a.ip
  · rw [hip, hafter]
    apply (h a.ip).record hpast hwin hnow haccepts hiff
    rcases (hin.wf.table.get?_iff ..).mp hafter with ⟨hmem, _⟩
    rcases mem_map.mp hmem with ⟨node, hnode, rfl⟩
    exact fun hoff ↦ (hin.wf.idle _ hnode hoff).1
  · have hne : a.ip ≠ ip := fun heq ↦ hip heq.symm
    have hold := h ip
    unfold Tracks at hold
    rw [quiet_concat_of_ne hne]
    rcases hin.others ip hip with hsame | ⟨hnone, e, he, hlost⟩
    · rw [hsame]
      cases hget : o.table.get? ip with
      | none =>
        rw [hget] at hold
        exact hold
      | some e =>
        rw [hget] at hold
        exact Remembers.concat_of_ne hold hne
    · rw [he] at hold
      rw [hnone]
      rcases hlost with hexpired | hlast
      · exact (Remembers.expired_iff hold).mp hexpired
      · rw [hevicted] at hlast
        simp at hlast

end

end RanHoneypot.Alert
