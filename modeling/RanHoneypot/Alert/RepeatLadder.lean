import RanHoneypot.Alert.SinkHistory

/-!
# Shun windows, cooldowns and the repeat ladder

In an undisturbed run of the sink the shun window of a source and its cooldown for attacks are the
same thing, although two tables keep them. The window of an alert is the base cooldown for the first
alerts of a class and the repeat cooldown from the configured number on, counted since the source
was last forgotten.
-/

namespace RanHoneypot.Alert

open TimedRun OffenderTable

/-- The window of the `n`-th alert of a class. -/
def ladderWindow (base repeatCooldown repeatAfter n : ℤ) : ℤ :=
  if 0 < repeatCooldown ∧ repeatAfter ≤ n then repeatCooldown else base

theorem ladderWindow_pos {base repeatCooldown repeatAfter n : ℤ} (hbase : 0 < base) :
    0 < ladderWindow base repeatCooldown repeatAfter n := by
  unfold ladderWindow
  split
  · next h => exact h.1
  · exact hbase

/-- The window is chosen by the counter that the alert itself will leave. -/
theorem windowFor_eq {net : Netip} {o : OffenderTable} {ip : String} {base : ℤ} {now : ℕ}
    (hkey : normalizeIP net ip = some ip) (hbase : 0 < base) (cls : Class) :
    windowFor net (some o) ip cls base now =
      ladderWindow base o.repeatCooldown o.repeatAfter
        (((o.startEntry ip now).record cls.index now).counts cls.index) := by
  have hrecord : ((o.startEntry ip now).record cls.index now).counts cls.index =
      (o.startEntry ip now).counts cls.index + 1 := by
    simp [Offender.record]
  unfold windowFor ladderWindow
  rw [hkey, hrecord]
  dsimp only
  unfold startEntry
  by_cases hrepeat : 0 < o.repeatCooldown
  · have hactive : ¬(base ≤ 0 ∨ o.repeatCooldown ≤ 0) := by omega
    rw [if_neg hactive]
    -- An entry that is missing or expired counts from zero on either side.
    cases o.table.get? ip with
    | none => exact if_congr ⟨fun hcount ↦ ⟨hrepeat, hcount⟩, And.right⟩ rfl rfl
    | some e =>
      by_cases hexpired : o.expired e now = true
      · simp only [hexpired]
        exact if_congr ⟨fun hcount ↦ ⟨hrepeat, hcount⟩, And.right⟩ rfl rfl
      · simp only [hexpired]
        exact if_congr ⟨fun hcount ↦ ⟨hrepeat, hcount⟩, And.right⟩ rfl rfl
  · simp [hrepeat]

/-! ## The history in the cooldown filter -/

def AcceptedAlert.taken (a : AcceptedAlert) : TakenAlert := ⟨a.ip, a.cls, a.acceptedAt, a.win, a.slot⟩

/-- The history as the cooldown filter saw it; no slot was released. -/
def slotTrace (history : List AcceptedAlert) : List CooldownEvent :=
  history.map fun a ↦ .taken a.taken

theorem standing_of_mem {filter : CooldownFilter} {history : List AcceptedAlert} {a : AcceptedAlert}
    (hmem : a ∈ history) (hevicted : filter.evicted = []) :
    (CooldownRun.mk filter (slotTrace history)).Standing a.taken := by
  rcases List.append_of_mem hmem with ⟨earlier, later, rfl⟩
  refine ⟨slotTrace earlier, slotTrace later, by simp [slotTrace], by simp [slotTrace], ?_⟩
  intro e he
  rw [hevicted] at he
  cases he

/-- Without releases and evictions every accepted alert counts. -/
theorem suppressed_iff_history {filter : CooldownFilter} {history : List AcceptedAlert} {now : ℕ}
    (hinv : CooldownRun.Inv now ⟨filter, slotTrace history⟩) (hevicted : filter.evicted = [])
    (ip : String) (cls : Class) :
    filter.suppressed ip cls now = true ↔ ∃ a ∈ history, a.ip = ip ∧ cls.rank ≤ a.cls.rank ∧
      since now a.acceptedAt < a.win := by
  rw [show filter.suppressed ip cls now = true ↔ _ from hinv.suppressed_iff ip cls]
  constructor
  · intro h
    rcases h with ⟨b, hb, hip, hrank, hopen⟩
    rcases List.mem_map.mp hb.mem with ⟨a, ha, htaken⟩
    rw [← CooldownEvent.taken.inj htaken] at hip hrank hopen
    exact ⟨a, ha, hip, hrank, hopen⟩
  · intro h
    rcases h with ⟨a, ha, hip, hrank, hopen⟩
    exact ⟨a.taken, standing_of_mem ha hevicted, hip, hrank, hopen⟩

/-! ## The invariant of undisturbed runs -/

/-- What holds of an accepted alert and the alerts accepted before it. -/
structure Lawful (cfg : CrowdSecConfig) (earlier : List AcceptedAlert) (a : AcceptedAlert) : Prop where
  window : a.win = ladderWindow cfg.cooldown cfg.repeatCooldown
    (newOffenderTable cfg.offenderConfig).repeatAfter (ordinal (earlier ++ [a]) a.ip a.cls)
  restart : a.restarted = true ↔
    Quiet (resetFor cfg.offenderConfig) cfg.shun earlier a.ip a.acceptedAt
  spaced : ∀ x ∈ earlier, x.ip = a.ip → x.cls = a.cls → x.win ≤ since a.acceptedAt x.acceptedAt

namespace SinkRun

structure Inv (cfg : CrowdSecConfig) (now : ℕ) (s : SinkRun) : Prop where
  filter : CooldownRun.Inv now ⟨s.sink.cooldown, slotTrace s.history⟩
  window : s.sink.cooldown.window = cfg.cooldown
  table : s.sink.offenders.WF
  config : s.sink.offenders.config = (newOffenderTable cfg.offenderConfig).config
  uncrowded : s.uncrowded
  past : ∀ a ∈ s.history, a.acceptedAt ≤ now
  tracks : ∀ ip, Tracks s.sink.offenders s.history ip now
  lawful : ∀ earlier a later, s.history = earlier ++ a :: later → Lawful cfg earlier a

variable {cfg : CrowdSecConfig} {s : SinkRun} {now later : ℕ} {net : Netip}

variable {o' : OffenderTable}

theorem start_inv (hcooldown : 0 < cfg.cooldown) : Inv cfg 0 (start cfg) where
  filter := CooldownRun.start_inv hcooldown _
  window := rfl
  table := newOffenderTable_wf _
  config := rfl
  uncrowded := ⟨rfl, rfl⟩
  past := nofun
  tracks := by
    intro ip
    change Quiet _ _ [] ip 0
    simp [Quiet, WindowLeft]
  lawful := by
    intro earlier a later h
    simp [start] at h

section

variable (hinv : Inv cfg now s)

include hinv

theorem Inv.wait (hle : now ≤ later) : Inv cfg later s :=
  { hinv with
    filter := hinv.filter.wait hle
    past := fun a ha ↦ (hinv.past a ha).trans hle
    tracks := fun ip ↦ (hinv.tracks ip).wait hle }

/-- Upkeep of the offender table. -/
theorem Inv.offenders (hwf : o'.WF) (hframe : SameFrame s.sink.offenders o')
    (htracks : ∀ ip, Tracks o' s.history ip now) (shunLog : List ShunSummary) :
    Inv cfg now { s with sink := { s.sink with offenders := o', shunLog := shunLog } } :=
  { hinv with
    table := hwf
    config := hframe.config.trans hinv.config
    uncrowded := ⟨hinv.uncrowded.1, hframe.evicted ▸ hinv.uncrowded.2⟩
    tracks := htracks }

theorem Inv.tidied (htidied : Tidied now s.sink.offenders o') (shunLog : List ShunSummary) :
    Inv cfg now { s with sink := { s.sink with offenders := o', shunLog := shunLog } } :=
  hinv.offenders htidied.wf htidied.frame (fun ip ↦ (hinv.tracks ip).tidied htidied) shunLog

/-- A queued alert, with the tables as `Submit` leaves them. -/
theorem Inv.queued (hcooldown : 0 < cfg.cooldown) {ip : String} {cls : Class}
    (hkey : normalizeIP net ip = some ip) {d' : CooldownFilter} {win : ℕ} {a : AcceptedAlert}
    (hip : a.ip = ip) (hcls : a.cls = cls) (hnow : a.acceptedAt = now)
    (hslot : a.slot = s.sink.cooldown.nextSlot + 1)
    (hwindow : a.win = windowFor net (some s.sink.offenders) ip cls s.sink.cooldown.window now)
    (hfree : s.sink.cooldown.suppressed ip cls now = false)
    (htakes : s.sink.cooldown.Takes ⟨cooldownKey ip cls, now, a.win, a.slot⟩ now d')
    (hin : s.sink.offenders.AcceptedIn ip cls.index cls a.win now o' win)
    (hrestarted : ∀ e, o'.table.get? ip = some e → a.restarted = countsOnly e cls.index)
    (shunLog : List ShunSummary) (ch : List AlertMsg)
    (huncrowded : d'.evicted = [] ∧ o'.evicted.length = 0) :
    Inv cfg now
      ⟨{ s.sink with cooldown := d', offenders := o', shunLog := shunLog, ch := ch },
        s.history ++ [a]⟩ := by
  subst hip hcls
  have hwin : 0 < a.win := by
    rw [hwindow, hinv.window, windowFor_eq hkey hcooldown]
    exact ladderWindow_pos hcooldown
  have hevicted : o'.evicted = [] := List.length_eq_zero_iff.mp huncrowded.2
  rcases Tracks.accepted hinv.tracks hinv.past hwin hnow hin hevicted hrestarted with
    ⟨hiff, htracks⟩
  refine ⟨?_, htakes.window.trans hinv.window, hin.wf, hin.config.trans hinv.config, huncrowded,
    ?_, htracks, ?_⟩
  · have hfilter := hinv.filter.takes hfree (hslot ▸ htakes)
    have htaken : a.taken = ⟨a.ip, a.cls, now, a.win, s.sink.cooldown.nextSlot + 1⟩ := by
      rw [AcceptedAlert.taken, hnow, hslot]
    rw [show slotTrace (s.history ++ [a]) = slotTrace s.history ++ [.taken a.taken] by
      simp [slotTrace], htaken]
    exact hfilter
  · intro x hx
    rcases List.mem_append.mp hx with hold | hnew
    · exact hinv.past x hold
    · rw [List.mem_singleton.mp hnew, hnow]
  · intro earlier x later hsplit
    rcases CooldownRun.split_concat hsplit with ⟨_, rfl, rfl⟩ | ⟨later', _, hhistory⟩
    swap
    · exact hinv.lawful _ x _ hhistory
    have hreset : s.sink.offenders.reset = resetFor cfg.offenderConfig := reset_of_config hinv.config
    have hshun : s.sink.offenders.shun = cfg.shun := shun_of_config hinv.config
    refine ⟨?_, ?_, fun x hx hxip hxcls ↦ ?_⟩
    · have hrepeat : s.sink.offenders.repeatCooldown = cfg.repeatCooldown :=
        congrArg OffenderConfig.repeatCooldown hinv.config
      have hafter : s.sink.offenders.repeatAfter =
          (newOffenderTable _).repeatAfter :=
        congrArg OffenderConfig.repeatAfter hinv.config
      rw [hwindow, hinv.window, windowFor_eq hkey hcooldown,
        (hinv.tracks _).record_counts hiff, hrepeat, hafter]
    · rw [hnow, ← hreset, ← hshun]
      exact hiff
    · by_contra hearly
      have hsuppressed := (suppressed_iff_history hinv.filter hinv.uncrowded.1 _ a.cls).mpr
        ⟨x, hx, hxip, hxcls ▸ le_rfl, by rw [← hnow]; omega⟩
      rw [hfree] at hsuppressed
      exact Bool.false_ne_true hsuppressed

theorem Inv.submit (hnet : net.RoundTrip) (hcooldown : 0 < cfg.cooldown) {ev : Event}
    (hundisturbed : s.undisturbed net (.submit ev now)) :
    Inv cfg now (s.step net (.submit ev now)) := by
  rcases s.sink.submit_cases net s.history.length ev now with
    ⟨hqueued, _, hsame⟩ | ⟨addr, allowance, taken, msg, recorded, hbannable, hallow, hok, hrecord,
      hqueued | hdropped⟩
  · have hstep : s.step net (.submit ev now) = s := by simp [step, hqueued, hsame]
    rwa [hstep]
  swap
  · exact absurd (congrArg _ hdropped) hundisturbed.2
  -- The slot and the record of the alert, by the specifications of the two tables.
  have hkey := normalizeIP_string hnet hbannable
  generalize hcls : (CrowdSecAlerter.downgrade _ ev).cls = cls at hallow
  rcases hinv.filter.wf.allow hinv.filter.window net (some s.sink.offenders) (net.string _) cls
    now with ⟨_, hrefused⟩ | ⟨hfree, win, d', hwin, hpassed, htakes⟩
  · rw [CrowdSecAlerter.allow, show s.sink.cooldown.allow net _ _ cls now = _ from hrefused] at hallow
    rw [← congrArg (·.1.ok) hallow] at hok
    cases hok
  rw [CrowdSecAlerter.allow, show s.sink.cooldown.allow net _ _ cls now = _ from hpassed] at hallow
  rcases hallow with ⟨rfl, rfl⟩
  have hin := hinv.table.acceptLocked now (net.string addr) cls.index cls win
  rcases hlocked : s.sink.offenders.acceptLocked (net.string _) cls.index cls win now with
    ⟨o', opened, sums⟩
  rw [hlocked] at hin
  simp only [CrowdSecAlerter.record, CrowdSecAlerter.accepted, OffenderTable.accepted, hkey, hcls,
    hlocked] at hrecord
  rcases hrecord with ⟨rfl, rfl⟩
  have hget := (IndexedList.WF.get?_iff htakes.wf ..).mpr ⟨htakes.mem, rfl⟩
  have huncrowded := hundisturbed.1
  simp only [step, hqueued, List.getLast?_append, List.getLast?_singleton, Option.some_or] at huncrowded ⊢
  simp only [acceptedAlert, CrowdSecAlerter.message, hget, hcls, Option.map_some]
  refine hinv.queued hcooldown hkey rfl rfl rfl rfl hwin hfree htakes hin ?_ _ _ huncrowded
  intro e he
  simp [he]

theorem Inv.step (hnet : net.RoundTrip) (hcooldown : 0 < cfg.cooldown) (op : SinkOp)
    (hnow : op.time = now) (hundisturbed : s.undisturbed net op) : Inv cfg now (s.step net op) := by
  cases op with
  | submit ev t =>
    subst hnow
    exact hinv.submit hnet hcooldown hundisturbed
  | deliver t => exact ⟨hinv.filter, hinv.window, hinv.table, hinv.config, hinv.uncrowded, hinv.past,
      hinv.tracks, hinv.lawful⟩
  | shunned ip t =>
    subst hnow
    exact hinv.tidied (hinv.table.shunned_tidied t _ ip) _
  | rejected ip protocol t =>
    exact hinv.offenders (hinv.table.rejected _ ip _) (rejected_frame _ ip _)
      (fun key ↦ (hinv.tracks _).rejected hinv.table net ip protocol) _
  | sweep t =>
    subst hnow
    exact hinv.tidied (hinv.table.sweep_tidied t) _
  | cleanup t =>
    subst hnow
    rcases hinv.filter.wf.cleanup_drops t with ⟨hdrops, hevicted⟩
    exact ⟨hinv.filter.cleanup, hdrops.window.trans hinv.window, hinv.table,
      hinv.config, ⟨hevicted.trans hinv.uncrowded.1, hinv.uncrowded.2⟩, hinv.past, hinv.tracks,
      hinv.lawful⟩
  | close t => exact ⟨hinv.filter, hinv.window, hinv.table, hinv.config, hinv.uncrowded, hinv.past,
      hinv.tracks, hinv.lawful⟩

end

end SinkRun

section

variable {net : Netip} {cfg : CrowdSecConfig} {ops : List SinkOp} {now : ℕ}

theorem sinkAfter_inv (hnet : net.RoundTrip) (hcooldown : 0 < cfg.cooldown)
    (hrun : UndisturbedRun net cfg ops now) : SinkRun.Inv cfg now (sinkAfter net cfg ops) :=
  run_invariant (SinkRun.Inv cfg) (fun _ _ _ hle h ↦ h.wait hle)
    (fun _ op hundisturbed h ↦ h.step hnet hcooldown op rfl hundisturbed) hrun.clock hrun.along
    (SinkRun.start_inv hcooldown)

/-- A source is shunned exactly while an attack or scan alert of it is inside its window. -/
theorem SinkRun.Inv.shunned_iff {s : SinkRun} (hinv : SinkRun.Inv cfg now s) {source : String}
    {addr : Addr} (hbannable : parseBannableIP net source = some addr) :
    (s.sink.shunned net source now).1 = true ↔
      cfg.shun = true ∧ WindowLeft s.history (net.string addr) now := by
  have hshun : s.sink.offenders.shun = cfg.shun := shun_of_config hinv.config
  have htracks := hinv.tracks (net.string addr)
  rw [show (s.sink.shunned ..).1 = true ↔ _ from
    hinv.table.shunned_iff now net source, normalizeIP_of_bannable hbannable, hshun]
  refine and_congr_right fun hon ↦ ?_
  simp only [Option.some.injEq, exists_and_left, exists_eq_left']
  unfold Tracks at htracks
  cases hget : s.sink.offenders.table.get? (net.string _) with
  | none =>
    rw [hget, hshun] at htracks
    have hnone : ¬WindowLeft s.history (net.string _) now := fun hleft ↦ htracks.2 ⟨hon, hleft⟩
    simpa using hnone
  | some e =>
    rw [hget, hshun] at htracks
    have hwindow := htracks.window now le_rfl
    simpa [hon] using hwindow

end

/-- Shun and cooldown agree. -/
theorem shunned_iff_attack_refused (net : Netip) (hnet : net.RoundTrip) (cfg : CrowdSecConfig)
    (hshun : cfg.shun = true) (hcooldown : 0 < cfg.cooldown) (ops : List SinkOp) (now : ℕ)
    (hrun : UndisturbedRun net cfg ops now) (source : String) (addr : Addr)
    (hbannable : parseBannableIP net source = some addr) :
    ((sinkAfter net cfg ops).sink.shunned net source now).1 = true ↔
      ((sinkAfter net cfg ops).sink.allow net (net.string addr) .attack now).1.ok = false := by
  have hinv := sinkAfter_inv hnet hcooldown hrun
  have hrefused : ((sinkAfter net cfg ops).sink.allow net (net.string addr) .attack now).1.ok = false ↔
      (sinkAfter net cfg ops).sink.cooldown.suppressed (net.string addr) .attack now = true := by
    unfold CrowdSecAlerter.allow
    rcases hinv.filter.wf.allow hinv.filter.window net (some (sinkAfter net cfg ops).sink.offenders)
      (net.string addr) .attack now with ⟨hsuppressed, hrefused⟩ | ⟨hfree, win, d', _, hpassed, _⟩
    · simp [hrefused, hsuppressed]
    · simp [hpassed, hfree]
  have hclass (c : Class) : Class.attack.rank ≤ c.rank ↔ c ≠ .probe := by
    cases c <;> decide
  rw [hinv.shunned_iff hbannable, hrefused, suppressed_iff_history hinv.filter hinv.uncrowded.1]
  simp [hshun, hclass, WindowLeft]

/-- Base cooldown 60, repeat cooldown 600 from the second alert on. -/
def ladderConfig : CrowdSecConfig where
  banOn := []
  cooldown := 60
  shun := true
  repeatAfter := 2
  repeatCooldown := 600
  offenderReset := 1000
  batchInterval := 0
  batchSize := 1
  maxTracked := 10

/-- An attack on the ssh trap from 8.8.8.8. -/
def sshAttack : Event where
  cls := .attack
  info :=
    { sourceIP := Netip.binary.string (.v4 0x08080808#32), protocol := "ssh", transport := .tcp,
      destPort := 22, authAttempts := 1, commands := 0, payloadBytes := 0, alertedClass := none }
  meta' := ∅

/-- Three attacks, each when the window of the one before has just ended. -/
def threeAttacks : List SinkOp := [.submit sshAttack 0, .submit sshAttack 60, .submit sshAttack 660]

theorem shunned_iff_attack_refused_ssh :
    ((sinkAfter .binary ladderConfig threeAttacks).sink.shunned .binary sshAttack.info.sourceIP
      1259).1 = true ∧
    ((sinkAfter .binary ladderConfig threeAttacks).sink.allow .binary
      (Netip.binary.string (.v4 0x08080808#32)) .attack 1259).1.ok = false := by
  have hagree := shunned_iff_attack_refused .binary Netip.binary_roundTrip ladderConfig rfl
    (by decide) threeAttacks 1259 (by decide) sshAttack.info.sourceIP (.v4 0x08080808#32) (by decide)
  have hshunned : ((sinkAfter .binary ladderConfig threeAttacks).sink.shunned .binary
      sshAttack.info.sourceIP 1259).1 = true := by decide
  exact ⟨hshunned, hagree.mp hshunned⟩

/-- The repeat ladder. -/
theorem repeat_ladder (net : Netip) (hnet : net.RoundTrip) (cfg : CrowdSecConfig)
    (hcooldown : 0 < cfg.cooldown) (hrepeat : 0 < cfg.repeatCooldown) (hafter : 1 ≤ cfg.repeatAfter)
    (ops : List SinkOp) (now : ℕ) (hrun : UndisturbedRun net cfg ops now) :
    (∀ (earlier middle later : List AcceptedAlert) (a b : AcceptedAlert),
      (sinkAfter net cfg ops).history = earlier ++ a :: (middle ++ b :: later) →
      b.ip = a.ip → b.cls = a.cls →
      (if (ordinal (earlier ++ [a]) a.ip a.cls : ℤ) < cfg.repeatAfter then cfg.cooldown
        else cfg.repeatCooldown) ≤ since b.acceptedAt a.acceptedAt) ∧
    (∀ (earlier later : List AcceptedAlert) (a : AcceptedAlert),
      (sinkAfter net cfg ops).history = earlier ++ a :: later →
      (a.restarted = true ↔
        Quiet (resetFor cfg.offenderConfig) cfg.shun earlier a.ip a.acceptedAt)) := by
  have hinv := sinkAfter_inv hnet hcooldown hrun
  refine ⟨fun earlier middle later a b hsplit hip hcls ↦ ?_, fun earlier later a hsplit ↦ ?_⟩
  · have hthreshold : (newOffenderTable cfg.offenderConfig).repeatAfter = cfg.repeatAfter :=
      if_neg (by change ¬cfg.repeatAfter < 1; omega)
    have hwindow := (hinv.lawful _ a _ hsplit).window
    have hspaced := (hinv.lawful (earlier ++ a :: middle) b later (by simp [hsplit])).spaced a
      (by simp) hip.symm hcls.symm
    rw [hwindow, ladderWindow] at hspaced
    split
    · next hbelow => rwa [if_neg (by omega)] at hspaced
    · next habove => rwa [if_pos ⟨hrepeat, by omega⟩] at hspaced
  · exact (hinv.lawful _ a _ hsplit).restart

/-- The three attacks as the sink accepted them. -/
def acceptedAttack (acceptedAt : ℕ) (win : ℤ) (slot : ℕ) (restarted : Bool) : AcceptedAlert :=
  ⟨Netip.binary.string (.v4 0x08080808#32), .attack, acceptedAt, win, slot, restarted⟩

theorem repeat_ladder_three :
    (sinkAfter .binary ladderConfig threeAttacks).history =
      [acceptedAttack 0 60 1 true, acceptedAttack 60 600 2 false, acceptedAttack 660 600 3 false] ∧
    ladderConfig.repeatCooldown ≤
      since (acceptedAttack 660 600 3 false).acceptedAt (acceptedAttack 60 600 2 false).acceptedAt ∧
    ¬Quiet (resetFor ladderConfig.offenderConfig) true
      [acceptedAttack 0 60 1 true, acceptedAttack 60 600 2 false]
      (Netip.binary.string (.v4 0x08080808#32)) 660 := by
  have hladder := repeat_ladder .binary Netip.binary_roundTrip ladderConfig (by decide) (by decide)
    (by decide) threeAttacks 660 (by decide)
  have hhistory : (sinkAfter .binary ladderConfig threeAttacks).history =
      [acceptedAttack 0 60 1 true, acceptedAttack 60 600 2 false, acceptedAttack 660 600 3 false] := by
    decide
  refine ⟨hhistory, ?_, ?_⟩
  · exact hladder.1 [acceptedAttack 0 60 1 _] [] [] _
      _ hhistory rfl rfl
  · have hrestart := hladder.2 [acceptedAttack 0 60 1 _, acceptedAttack 60 _ 2 _] []
      (acceptedAttack _ _ 3 _) hhistory
    intro hquiet
    exact Bool.false_ne_true (hrestart.mpr hquiet)

end RanHoneypot.Alert
