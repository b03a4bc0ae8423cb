import RanHoneypot.Alert.OffenderLedger

/-!
# What a failed alert leaves behind

An alert whose push fails is reverted. Afterwards the counters of its source are those of the run in
which the alert was never accepted. The shun window is not always restored: an extended window
belongs to no alert, so a failed alert that extended a running window leaves it extended, and a
window that was extended stays open even if all alerts of the source fail. The other direction is
limited as well: the revert of the alert that opened a window closes it under an alert that fell
into it without extending it.
-/

namespace RanHoneypot.Alert

open TimedRun OffenderTable List TableOp SourceState

/-- The call accepts the alert `name` of the source `key`, which asks at `t` for a shun window up to
`till`. -/
def TableOp.Asks (net : Netip) (key : String) (op : TableOp) (name t till : ℕ) : Prop :=
  ∃ ip cls window, op = .accepted name ip cls window t ∧ normalizeIP net ip = some key ∧
    shunTill cls window t = some till

/-- A run with an alert that was accepted and later taken back. -/
structure FailedRun where
  before : List TableOp
  name : ℕ
  ip : String
  cls : Class
  window : ℤ
  acceptedAt : ℕ
  between : List TableOp
  revertedAt : ℕ
  after : List TableOp

namespace FailedRun

def ops (r : FailedRun) : List TableOp :=
  r.before ++ .accepted r.name r.ip r.cls r.window r.acceptedAt ::
    (r.between ++ .revert r.name r.revertedAt :: r.after)

/-- The same run without the alert and its revert. -/
def without (r : FailedRun) : List TableOp := r.before ++ (r.between ++ r.after)

/-- The failed alert asked for no window, or it fell into a running window and did not extend it, or
it opened a window. In the last case no other alert of the source asks for a window while that one
runs and before the revert, or one of those that do extends it and none of them fails. -/
def Traceless (net : Netip) (cfg : OffenderConfig) (key : String) (r : FailedRun) : Prop :=
  ∀ till, shunTill r.cls r.window r.acceptedAt = some till →
    match (ledgerAfter net cfg r.before).runningUntil key r.acceptedAt with
    | some e => till ≤ e
    | none =>
      (∀ op ∈ r.between, ∀ name t e, op.Asks net key name t e → till ≤ t) ∨
      ((∃ op ∈ r.between, ∃ name t e, op.Asks net key name t e ∧ t < till ∧ till < e) ∧
        ∀ op ∈ r.between, ∀ name t e, op.Asks net key name t e → t < till →
          ∀ t', .revert name t' ∉ r.between ++ r.after)

end FailedRun

/-! ## From the table to the machine of a source -/

section

variable {s : Ledger} {t : SourceState ℕ (Fin 3)} {net : Netip} {cfg : OffenderConfig}
  {key ip : String} {now : ℕ}

variable {ops : List TableOp} {name : ℕ}

theorem Ledger.Sound.shunned_eq (hs : s.Sound) (hkey : normalizeIP net ip = some key) :
    (s.table.shunned net ip now).1 = (s.runningUntil key now).isSome := by
  rw [Bool.eq_iff_iff, hs.wf.shunned_iff _ _ ip, Ledger.runningUntil, Option.isSome_map]
  constructor
  · intro h
    rcases h with ⟨_, found, e, hfound, hget, hopen⟩
    have hsame : found = key := Option.some.inj (hfound.symm.trans hkey)
    subst hsame
    rw [Option.isSome_iff_exists]
    exact ⟨e, Option.filter_eq_some_iff.mpr ⟨hget, hopen⟩⟩
  · intro h
    rcases Option.isSome_iff_exists.mp h with ⟨e, he⟩
    rcases Option.filter_eq_some_iff.mp he with ⟨hget, hopen⟩
    exact ⟨hs.shun, key, e, hkey, hget, hopen⟩

theorem Refines.runningUntil (hrefines : Refines key now s t) :
    s.runningUntil key now = (running now t.window).map ShunWindow.till := by
  have hwindow := hrefines.window
  unfold Ledger.runningUntil
  generalize s.runningEntry key now = r at hwindow ⊢
  generalize running now t.window = r' at hwindow ⊢
  cases hwindow with
  | none => rfl
  | some hsame => exact congrArg _ hsame.1

theorem Refines.disowned (hrefines : Refines key now s t) (hfresh : s.inFlight name = none) :
    Disowned name now t := by
  intro w hw howner
  have hwindow := hrefines.window
  rw [hw] at hwindow
  generalize s.runningEntry key now = r at hwindow
  cases hwindow with
  | some hsame =>
    rcases (hsame.2 _).mp howner with ⟨m, hm, _⟩
    cases hfresh.symm.trans hm.1

theorem Refines.not_live (hrefines : Refines key now s t) (hfresh : s.inFlight name = none) :
    ∀ x ∈ t.live, x.1 ≠ name := by
  intro x hx heq
  rcases (hrefines.live ..).mp hx with ⟨m, hm, _⟩
  rw [heq] at hm
  cases hfresh.symm.trans hm.1

theorem CalmRun.shunned_eq (hrun : CalmRun net cfg ops now) (hshun : cfg.shun = true)
    (hkey : normalizeIP net ip = some key) :
    ((ledgerAfter net cfg ops).table.shunned net ip now).1 =
      ((running now (sourceAfter net key ops).window).map ShunWindow.till).isSome := by
  rcases hrun.refines hshun key with ⟨hsound, hrefines⟩
  rw [hsound.shunned_eq hkey, hrefines.runningUntil]

theorem sourceAfter_append (first rest : List TableOp) :
    sourceAfter net key (first ++ rest) =
      run step (sourceAfter net key first)
        (rest.filterMap (forSource net key)) := by
  unfold sourceAfter
  rw [filterMap_append, run_append]

/-- The run up to a call, and what holds when it is made. -/
theorem CalmRun.split {first rest : List TableOp} {op : TableOp}
    (hrun : CalmRun net cfg (first ++ op :: rest) now) :
    CalmRun net cfg first op.time ∧ (ledgerAfter net cfg first).calm net op = true ∧
      Clock time op.time rest now := by
  rcases clock_append.mp hrun.clock with ⟨middle, hfirst, hmiddle, hrest⟩
  rcases along_append.mp hrun.calm with ⟨hcalm, hop, _⟩
  exact ⟨⟨hfirst.mono_finish hmiddle, hcalm⟩, hop, hrest⟩

theorem Clock.forSource {start finish : ℕ} (hclock : Clock time start ops finish)
    (net : Netip) (key : String) :
    Clock SourceOp.time start (ops.filterMap (forSource net key)) finish :=
  hclock.filterMap fun _ _ h ↦ time_forSource h

theorem forSource_accepted (hkey : normalizeIP net ip = some key) (name : ℕ) (cls : Class)
    (window : ℤ) (t : ℕ) : (accepted name ip cls window t).forSource net key =
      some (.alert name cls.index t (shunTill cls window t)) :=
  if_pos hkey

theorem forSource_eq_alert {op : TableOp} {idx : Fin 3} {t : ℕ} {till? : Option ℕ}
    (h : op.forSource net key = some (.alert name idx t till?)) :
    ∃ ip cls window, op = .accepted name ip cls window t ∧ normalizeIP net ip = some key ∧
      shunTill cls window t = till? := by
  cases op with
  | accepted name' ip cls window t' =>
    simp only [forSource] at h
    split at h
    · next hkey =>
      cases h
      exact ⟨ip, cls, window, rfl, hkey, rfl⟩
    · cases h
  | rejected | shunned | sweep | revert => cases h

/-- The alerts of a source among the calls of a run. -/
theorem mem_forSource_alert {idx : Fin 3} {t : ℕ} {till? : Option ℕ}
    (hmem : .alert name idx t till? ∈ ops.filterMap (forSource net key)) :
    ∃ ip cls window, .accepted name ip cls window t ∈ ops ∧ normalizeIP net ip = some key ∧
      shunTill cls window t = till? := by
  rcases mem_filterMap.mp hmem with ⟨op, hop, heq⟩
  rcases forSource_eq_alert heq with ⟨ip, cls, window, rfl, hkey, htill⟩
  exact ⟨ip, cls, window, hop, hkey, htill⟩

theorem mem_forSource_revert {t : ℕ}
    (hmem : .revert name t ∈ ops.filterMap (forSource net key)) : .revert name t ∈ ops := by
  rcases mem_filterMap.mp hmem with ⟨op, hop, heq⟩
  cases op with
  | accepted name' ip cls window t' =>
    simp only [forSource] at heq
    split at heq <;> cases heq
  | rejected | shunned | sweep => cases heq
  | revert name' t' =>
    cases heq
    exact hop

theorem name_forSource (hops : ∀ op ∈ ops, op.alert? ≠ some name) :
    ∀ op ∈ ops.filterMap (forSource net key), op.name ≠ name := by
  intro op hop
  cases op with
  | alert name' idx t till? =>
    rcases mem_forSource_alert hop with ⟨ip, cls, window, hmem, _⟩
    intro heq
    exact hops _ hmem (congrArg _ heq)
  | revert name' t =>
    intro heq
    exact hops _ (mem_forSource_revert hop) (congrArg _ heq)

end

/-! ## Counters and windows after a failed alert -/

section

variable {net : Netip} {cfg : OffenderConfig} {key : String} {now : ℕ} {r : FailedRun}

theorem FailedRun.sourceAfter_ops (hkey : normalizeIP net r.ip = some key) :
    sourceAfter net key r.ops = run step (sourceAfter net key r.before)
      (.alert r.name r.cls.index r.acceptedAt (shunTill r.cls r.window r.acceptedAt) ::
        (r.between.filterMap (forSource net key) ++ .revert r.name r.revertedAt ::
          r.after.filterMap (forSource net key))) := by
  unfold FailedRun.ops
  rw [sourceAfter_append, filterMap_cons, forSource_accepted hkey, filterMap_append]
  rfl

theorem FailedRun.sourceAfter_without :
    sourceAfter net key r.without = run step (sourceAfter net key r.before)
      (r.between.filterMap (forSource net key) ++
        r.after.filterMap (forSource net key)) := by
  unfold FailedRun.without
  rw [sourceAfter_append, filterMap_append]

theorem counts_failed (hshun : cfg.shun = true) (hkey : normalizeIP net r.ip = some key)
    (hbetween : ∀ op ∈ r.between, op.alert? ≠ some r.name) (hrun : CalmRun net cfg r.ops now)
    (hwithout : CalmRun net cfg r.without now) (i : Fin 3) :
    (ledgerAfter net cfg r.ops).counts key i = (ledgerAfter net cfg r.without).counts key i := by
  rcases hrun.split with ⟨hbefore, hcalm, _⟩
  have hfresh := Ledger.calm_fresh hcalm
  have hlive : (sourceAfter net key r.ops).live = (sourceAfter net key r.without).live := by
    rw [FailedRun.sourceAfter_ops hkey, FailedRun.sourceAfter_without]
    exact live_failed ((hbefore.refines hshun _).2.not_live hfresh) (name_forSource hbetween)
  calc
    (ledgerAfter ..).counts key i = (sourceAfter ..).count i :=
      (hrun.refines hshun _).2.counts i
    _ = (sourceAfter ..).count i := by simp only [SourceState.count, hlive]
    _ = (ledgerAfter ..).counts key i :=
      ((hwithout.refines hshun _).2.counts i).symm

/-- The alerts of the source that ask for a window before `till`, among the calls after the failed
alert. -/
def FailedRun.Inside (net : Netip) (key : String) (r : FailedRun) (till name : ℕ) : Prop :=
  ∃ op ∈ r.between, ∃ t e, op.Asks net key name t e ∧ t < till

theorem exists_asks {ops : List TableOp} {name : ℕ} {idx : Fin 3} {t till : ℕ}
    (hmem : .alert name idx t (some till) ∈ ops.filterMap (forSource net key)) :
    ∃ op ∈ ops, op.Asks net key name t till := by
  rcases mem_forSource_alert hmem with ⟨ip, cls, window, hop, hip, htill⟩
  exact ⟨_, hop, ip, cls, window, rfl, hip, htill⟩

theorem FailedRun.between_forSource {till : ℕ}
    (hbetween : ∀ op ∈ r.between, op.alert? ≠ some r.name)
    (hkept : ∀ c t, .revert c t ∈ r.between → ¬r.Inside net key till c) :
    ∀ op ∈ r.between.filterMap (forSource net key),
      Between (r.Inside net key till) r.name till op := by
  intro op hop
  refine ⟨name_forSource hbetween op hop, fun c t heq ↦ hkept c t ?_, fun c idx t e heq hlt ↦ ?_⟩
  · exact mem_forSource_revert (heq ▸ hop)
  · rcases exists_asks (heq ▸ hop) with ⟨asked, hasked, hasks⟩
    exact ⟨asked, hasked, t, e, hasks, hlt⟩

/-- At the revert the states with and without the alert agree. -/
theorem FailedRun.Traceless.agree (htraceless : r.Traceless net cfg key) (hshun : cfg.shun = true)
    (hbetween : ∀ op ∈ r.between, op.alert? ≠ some r.name) (hrun : CalmRun net cfg r.ops now) :
    ∃ kept : ℕ → Prop, (∀ c t, .revert c t ∈ r.after → ¬kept c) ∧
      Agree kept r.revertedAt
        ((run step ((sourceAfter net key r.before).step
            (.alert r.name r.cls.index r.acceptedAt (shunTill r.cls r.window r.acceptedAt)))
          (r.between.filterMap (forSource net key))).step (.revert r.name r.revertedAt))
        (run step (sourceAfter net key r.before)
          (r.between.filterMap (forSource net key))) := by
  rcases hrun.split with ⟨hbefore, hcalm, hrest⟩
  rcases clock_append.mp hrest with ⟨middle, hmiddle, hrevert, _⟩
  have hclock : Clock SourceOp.time r.acceptedAt
      (r.between.filterMap _) r.revertedAt :=
    Clock.forSource (hmiddle.mono_finish hrevert) net key
  have hrefines : Refines key r.acceptedAt (ledgerAfter ..)
      (sourceAfter ..) := (hbefore.refines hshun _).2
  have hdisowned := hrefines.disowned (Ledger.calm_fresh hcalm)
  cases htill : shunTill r.cls r.window r.acceptedAt with
  | none =>
    refine ⟨fun _ ↦ False, fun _ _ _ h ↦ h, ?_⟩
    exact agree_of_within hdisowned (by simp) hclock (name_forSource hbetween)
  | some till =>
    have hcases := htraceless till htill
    rw [hrefines.runningUntil] at hcases
    cases hwindow : running r.acceptedAt (sourceAfter ..).window with
    | some w =>
      rw [hwindow] at hcases
      refine ⟨fun _ ↦ False, fun _ _ _ h ↦ h, ?_⟩
      refine agree_of_within hdisowned (fun till' heq ↦ ⟨w, hwindow, ?_⟩) hclock
        (name_forSource hbetween)
      rw [← Option.some.inj heq]
      exact hcases
    | none =>
      rw [hwindow] at hcases
      refine ⟨r.Inside net key till, ?_⟩
      rcases hcases with halone | ⟨⟨op, hop, name, t, e, hasked, hlt, hlonger⟩, hfailed⟩
      · have hnone (c : ℕ) : ¬r.Inside net key till c := by
          intro hc
          rcases hc with ⟨op, hop, t, e, hasked, hlt⟩
          exact not_lt.mpr (halone op hop c t e hasked) hlt
        refine ⟨fun c _ _ ↦ hnone c, ?_⟩
        apply agree_of_alone (pending_alert hwindow) hclock
          (FailedRun.between_forSource hbetween fun c _ _ ↦ hnone c) hwindow
        intro c idx t e hmem
        rcases exists_asks hmem with ⟨op, hop, hasked⟩
        exact halone op hop c t e hasked
      · have hkept (c t : ℕ) (hmem : .revert c t ∈ r.between ++ r.after) :
            ¬r.Inside net key till c := by
          intro hc
          rcases hc with ⟨op', hop', t', e', hasked', hlt'⟩
          exact hfailed op' hop' c t' e' hasked' hlt' t hmem
        refine ⟨fun c t hmem ↦ hkept c t (mem_append_right _ hmem), ?_⟩
        rcases hasked with ⟨ip, cls, window, rfl, hip, hasked⟩
        have hmem : .alert name cls.index t (some e) ∈
            r.between.filterMap (forSource net key) := by
          rw [← hasked]
          exact mem_filterMap.mpr ⟨_, hop, forSource_accepted hip _ _ _ t⟩
        exact agree_of_extended (pending_alert hwindow) hclock
          (FailedRun.between_forSource hbetween fun c t hmem ↦
            hkept c t (mem_append_left _ hmem)) hmem hlt hlonger

theorem shunned_failed (hshun : cfg.shun = true) (hkey : normalizeIP net r.ip = some key)
    (hbetween : ∀ op ∈ r.between, op.alert? ≠ some r.name) (hrun : CalmRun net cfg r.ops now)
    (hwithout : CalmRun net cfg r.without now) (htraceless : r.Traceless net cfg key) :
    ((ledgerAfter net cfg r.ops).table.shunned net r.ip now).1 =
      ((ledgerAfter net cfg r.without).table.shunned net r.ip now).1 := by
  rcases htraceless.agree hshun hbetween hrun with ⟨kept, hkept, hagree⟩
  rcases hrun.split with ⟨_, _, hrest⟩
  rcases clock_append.mp hrest with ⟨_, _, _, hafter⟩
  have hends := hagree.ends_run (Clock.forSource hafter net key) fun c t hmem ↦
    hkept c t (mem_forSource_revert hmem)
  rw [hrun.shunned_eq hshun hkey, hwithout.shunned_eq hshun hkey, FailedRun.sourceAfter_ops hkey,
    FailedRun.sourceAfter_without, run_cons, run_append, run_append]
  exact congrArg _ hends

end

/-! ## Sources without a pushed alert, and sources with one -/

section

variable {net : Netip} {cfg : OffenderConfig} {key ip : String} {now : ℕ} {ops : List TableOp}

/-- Every alert of the source was taken back later. -/
def AllReverted (net : Netip) (key : String) (ops : List TableOp) : Prop :=
  ∀ first name ip cls window t rest, ops = first ++ .accepted name ip cls window t :: rest →
    normalizeIP net ip = some key → ∃ t', .revert name t' ∈ rest

/-- No alert of the source extended a running window. -/
def NoneExtended (net : Netip) (cfg : OffenderConfig) (key : String) (ops : List TableOp) : Prop :=
  ∀ first op rest name t till e, ops = first ++ op :: rest → op.Asks net key name t till →
    (ledgerAfter net cfg first).runningUntil key t = some e → till ≤ e

theorem AllReverted.live_eq_nil (hreverted : AllReverted net key ops) :
    (sourceAfter net key ops).live = [] := by
  rw [eq_nil_iff_forall_not_mem]
  intro x hx
  rcases exists_alert_of_live hx rfl with ⟨first, rest, t, till?, hsplit, hrest⟩
  rcases filterMap_eq_append_iff.mp hsplit with ⟨before, tail, rfl, _, htail⟩
  rcases filterMap_eq_cons_iff.mp htail with ⟨skipped, op, after, rfl, _, hop, hafter⟩
  rcases forSource_eq_alert hop with ⟨ip, cls, window, rfl, hkey, _⟩
  rcases hreverted (before ++ skipped) x.1 ip cls window t after (by simp) hkey with ⟨t', hmem⟩
  exact hrest t' (hafter ▸ mem_filterMap.mpr ⟨_, hmem, rfl⟩)

theorem NoneExtended.ownerLive (hextended : NoneExtended net cfg key ops) (hshun : cfg.shun = true)
    (hrun : CalmRun net cfg ops now) (first rest : List TableOp) (hsplit : ops = first ++ rest) :
    OwnerLive (sourceAfter net key first) := by
  induction first using List.reverseRecOn generalizing rest with
  | nil =>
    intro w hw
    cases hw
  | append_singleton first op ih =>
    have hops : ops = first ++ op :: rest := by simpa using hsplit
    have hfirst := ih (op :: rest) hops
    rw [sourceAfter_append, filterMap_cons]
    cases hop : op.forSource net key with
    | none => exact hfirst
    | some sourceOp =>
      refine hfirst.step _ ?_
      intro name idx t till w heq hrunning
      rw [heq] at hop
      rcases forSource_eq_alert hop with ⟨ip, cls, window, rfl, hkey, htill⟩
      rw [hops] at hrun
      have hrefines := (hrun.split.1.refines hshun key).2
      refine hextended first _ rest name t till w.till hops ⟨ip, cls, window, rfl, hkey, htill⟩ ?_
      rw [show t = (accepted _ ip _ _ t).time from rfl, hrefines.runningUntil]
      exact congrArg _ hrunning

theorem not_shunned_of_allReverted (hshun : cfg.shun = true) (hkey : normalizeIP net ip = some key)
    (hrun : CalmRun net cfg ops now) (hreverted : AllReverted net key ops)
    (hextended : NoneExtended net cfg key ops) :
    ((ledgerAfter net cfg ops).table.shunned net ip now).1 = false := by
  have howner := hextended.ownerLive hshun hrun ops [] (by simp)
  have hwindow : (sourceAfter net key ops).window = none := by
    cases hw : (sourceAfter ..).window with
    | none => rfl
    | some w =>
      rcases howner w hw with ⟨x, hx, _⟩
      rw [hreverted.live_eq_nil] at hx
      cases hx
  rw [hrun.shunned_eq hshun hkey, hwindow]
  rfl

/-- An alert that opened or extended its window and was not taken back keeps the source shunned. -/
theorem shunned_of_pushed {first rest : List TableOp} {op : TableOp} {name t till : ℕ}
    (hshun : cfg.shun = true) (hkey : normalizeIP net ip = some key)
    (hrun : CalmRun net cfg (first ++ op :: rest) now) (hasks : op.Asks net key name t till)
    (hlongest : ∀ e, (ledgerAfter net cfg first).runningUntil key t = some e → e < till)
    (hpushed : ∀ t', .revert name t' ∉ rest) (hnow : now < till) :
    ((ledgerAfter net cfg (first ++ op :: rest)).table.shunned net ip now).1 = true := by
  rcases hasks with ⟨ip', cls, window, rfl, hip, htill⟩
  rcases hrun.split with ⟨hfirst, _, hrest⟩
  have hrefines : Refines key t (ledgerAfter ..) (sourceAfter ..) :=
    (hfirst.refines hshun _).2
  have hsecured : Secured name till t
      ((sourceAfter net key first).step (.alert name cls.index t (some till))) := by
    apply secured_alert
    intro w hw
    apply hlongest
    rw [hrefines.runningUntil, hw]
    rfl
  have hfinish := hsecured.run (Clock.forSource hrest net key) fun t' hmem ↦
    hpushed t' (mem_forSource_revert hmem)
  rcases hfinish hnow with ⟨w, hwindow, hle, _⟩
  have hsource : sourceAfter net key (first ++ .accepted name ip' cls window t :: rest) =
      run step ((sourceAfter net key first).step (.alert name cls.index t (some till)))
        (rest.filterMap (forSource net key)) := by
    rw [sourceAfter_append, filterMap_cons, forSource_accepted hip, htill]
    rfl
  rw [hrun.shunned_eq hshun hkey, hsource,
    running_eq_some_iff.mpr ⟨hwindow, hnow.trans_le hle⟩]
  rfl

/-- What a failed alert leaves behind in the table. -/
theorem failed_alert_trace (net : Netip) (cfg : OffenderConfig) (hshun : cfg.shun = true)
    (now : ℕ) :
    (∀ (r : FailedRun) (key : String), normalizeIP net r.ip = some key →
      (∀ op ∈ r.between, op.alert? ≠ some r.name) →
      CalmRun net cfg r.ops now → CalmRun net cfg r.without now →
        (∀ i, (ledgerAfter net cfg r.ops).counts key i =
          (ledgerAfter net cfg r.without).counts key i) ∧
        (r.Traceless net cfg key →
          ((ledgerAfter net cfg r.ops).table.shunned net r.ip now).1 =
            ((ledgerAfter net cfg r.without).table.shunned net r.ip now).1)) ∧
    (∀ (ops : List TableOp) (ip key : String), normalizeIP net ip = some key →
      CalmRun net cfg ops now → AllReverted net key ops → NoneExtended net cfg key ops →
        ((ledgerAfter net cfg ops).table.shunned net ip now).1 = false) ∧
    (∀ (first rest : List TableOp) (op : TableOp) (ip key : String) (name t till : ℕ),
      normalizeIP net ip = some key → CalmRun net cfg (first ++ op :: rest) now →
      op.Asks net key name t till →
      (∀ e, (ledgerAfter net cfg first).runningUntil key t = some e → e < till) →
      (∀ t', .revert name t' ∉ rest) → now < till →
        ((ledgerAfter net cfg (first ++ op :: rest)).table.shunned net ip now).1 = true) := by
  refine ⟨?_, ?_, ?_⟩
  · intro r key hkey hbetween hrun hwithout
    exact ⟨counts_failed hshun hkey hbetween hrun hwithout,
      shunned_failed hshun hkey hbetween hrun hwithout⟩
  · intro ops ip key hkey hrun
    exact not_shunned_of_allReverted hshun hkey hrun
  · intro first rest op ip key name t till hkey hrun
    exact shunned_of_pushed hshun hkey hrun

/-- Sources do not influence one another: two runs of two tables, with any limits, in which the alerts of
a source and the reverts are the same end with the same counters and the same answer for the source. -/
theorem sources_independent {cfg' : OffenderConfig} {ops' : List TableOp} (hshun : cfg.shun = true)
    (hshun' : cfg'.shun = true) (hkey : normalizeIP net ip = some key) (hrun : CalmRun net cfg ops now)
    (hrun' : CalmRun net cfg' ops' now)
    (hsame : ops.filterMap (forSource net key) = ops'.filterMap (forSource net key)) :
    (∀ i, (ledgerAfter net cfg ops).counts key i = (ledgerAfter net cfg' ops').counts key i) ∧
      ((ledgerAfter net cfg ops).table.shunned net ip now).1 =
        ((ledgerAfter net cfg' ops').table.shunned net ip now).1 := by
  have hsource : sourceAfter net key ops = sourceAfter net key ops' := by
    rw [sourceAfter, hsame, sourceAfter]
  constructor
  · intro i
    rw [(hrun.refines hshun key).2.counts, hsource, (hrun'.refines hshun' key).2.counts]
  · rw [hrun.shunned_eq hshun hkey, hsource, hrun'.shunned_eq hshun' hkey]

end

/-! ## An opener and an extender that both fail -/

/-- One second in nanoseconds. -/
def second : ℕ := 1000000000

/-- A single source, in its own printed form. -/
def oneSource : Netip := .ofTable [("8.8.8.8", .v4 0x08080808)]

def shunOn : OffenderConfig where
  shun := true
  repeatAfter := 5
  repeatCooldown := 0
  maxEntries := 0
  reset := 0

theorem sources_independent_swept :
    let ops : List TableOp := [.accepted 0 "8.8.8.8" .attack 60 0]
    ((ledgerAfter oneSource shunOn ops).table.shunned oneSource "8.8.8.8" 9).1 =
      ((ledgerAfter oneSource shunOn (ops ++ [.sweep 5])).table.shunned oneSource "8.8.8.8" 9).1 :=
  (sources_independent rfl rfl (show normalizeIP _ "8.8.8.8" = some "8.8.8.8" by decide)
    ⟨by decide, by decide⟩ ⟨by decide, by decide⟩ (filterMap_append.trans (append_nil _)).symm).2

/-- A scan alert extends the window of an attack alert, and both fail. -/
def bothFail : FailedRun where
  before := [.accepted 0 "8.8.8.8" .attack (3600 * second) 0]
  name := 1
  ip := "8.8.8.8"
  cls := .scan
  window := 3600 * second
  acceptedAt := 60 * second
  between := [.revert 0 (120 * second)]
  revertedAt := 180 * second
  after := []

/-- The window survives the reverts of both alerts, while the run without the failed extension has
no window left. -/
theorem extended_window_outlives_reverts :
    ¬∀ (net : Netip) (cfg : OffenderConfig) (r : FailedRun) (key : String) (now : ℕ),
      cfg.shun = true → normalizeIP net r.ip = some key →
      (∀ op ∈ r.between, op.alert? ≠ some r.name) →
      CalmRun net cfg r.ops now → CalmRun net cfg r.without now →
        ((ledgerAfter net cfg r.ops).table.shunned net r.ip now).1 =
          ((ledgerAfter net cfg r.without).table.shunned net r.ip now).1 := by
  intro hall
  have heq := hall oneSource shunOn bothFail "8.8.8.8" (240 * second) rfl (by decide) (by decide)
    ⟨by decide, by decide⟩ ⟨by decide, by decide⟩
  revert heq
  decide

/-- The attack alert fails alone, and a later scan alert is pushed. -/
def openerFails : FailedRun where
  before := []
  name := 0
  ip := "8.8.8.8"
  cls := .attack
  window := 3600 * second
  acceptedAt := 0
  between := [.shunned "8.8.8.8" (60 * second), .rejected "8.8.8.8" "ssh" (60 * second)]
  revertedAt := 120 * second
  after := [.accepted 1 "8.8.8.8" .scan (3600 * second) (180 * second)]

theorem openerFails_traceless : openerFails.Traceless oneSource shunOn "8.8.8.8" := by
  intro till _
  have hidle : (ledgerAfter oneSource shunOn openerFails.before).runningUntil "8.8.8.8"
      openerFails.acceptedAt = none := by decide
  refine .inl fun op hop name t e hasks ↦ ?_
  rcases hasks with ⟨ip, cls, window, rfl, _⟩
  simp [openerFails] at hop

/-- An attack alert and its revert. -/
def openedAndReverted : List TableOp :=
  [.accepted 0 "8.8.8.8" .attack (3600 * second) 0, .revert 0 (60 * second)]

theorem openedAndReverted_split {first rest : List TableOp} {op : TableOp}
    (hsplit : openedAndReverted = first ++ op :: rest) (hop : ∀ t, op ≠ .revert 0 t) :
    first = [] ∧ rest = [.revert 0 (60 * second)] := by
  cases first with
  | nil =>
    simp only [openedAndReverted, nil_append, List.cons.injEq] at hsplit
    exact ⟨rfl, hsplit.2.symm⟩
  | cons head tail =>
    simp only [openedAndReverted, cons_append, List.cons.injEq] at hsplit
    rcases singleton_eq_append_iff.mp hsplit.2 with ⟨_, hlast⟩ | ⟨_, hnil⟩
    · simp only [List.cons.injEq] at hlast
      exact absurd hlast.1 (hop _)
    · cases hnil

theorem failed_alert_trace_opener :
    ((∀ i, (ledgerAfter oneSource shunOn openerFails.ops).counts "8.8.8.8" i =
        (ledgerAfter oneSource shunOn openerFails.without).counts "8.8.8.8" i) ∧
      ((ledgerAfter oneSource shunOn openerFails.ops).table.shunned oneSource "8.8.8.8"
        (240 * second)).1 =
      ((ledgerAfter oneSource shunOn openerFails.without).table.shunned oneSource "8.8.8.8"
        (240 * second)).1) ∧
    ((ledgerAfter oneSource shunOn openedAndReverted).table.shunned oneSource "8.8.8.8"
      (240 * second)).1 = false ∧
    ((ledgerAfter oneSource shunOn openerFails.without).table.shunned oneSource "8.8.8.8"
      (240 * second)).1 = true := by
  rcases failed_alert_trace oneSource shunOn rfl (240 * second) with ⟨hfailed, hreverted, hpushed⟩
  refine ⟨?_, ?_, ?_⟩
  · have htrace := hfailed openerFails "8.8.8.8" (by decide) (by decide) ⟨by decide, by decide⟩
      ⟨by decide, by decide⟩
    exact ⟨htrace.1, htrace.2 openerFails_traceless⟩
  · refine hreverted openedAndReverted "8.8.8.8" "8.8.8.8" (by decide) ⟨by decide, by decide⟩ ?_ ?_
    · intro first name ip cls window t rest hsplit _
      have hrest := (openedAndReverted_split hsplit (by simp)).2
      have hname : name = 0 := by
        rw [(openedAndReverted_split hsplit (by simp)).1] at hsplit
        simp only [openedAndReverted, nil_append, List.cons.injEq, accepted.injEq]
          at hsplit
        exact hsplit.1.1.symm
      exact ⟨60 * second, by simp [hrest, hname]⟩
    · intro first op rest name t till e hsplit hasks hrunning
      rcases hasks with ⟨ip, cls, window, rfl, _⟩
      rw [(openedAndReverted_split hsplit (by simp)).1] at hrunning
      cases hrunning
  · refine hpushed [.shunned "8.8.8.8" (60 * second), .rejected "8.8.8.8" "ssh" (60 * second)] []
      (.accepted 1 "8.8.8.8" .scan (3600 * second) (180 * second)) "8.8.8.8" "8.8.8.8" 1
      (180 * second) (3780 * second) (by decide) ⟨by decide, by decide⟩ ?_ ?_ (by simp) (by decide)
    · exact ⟨"8.8.8.8", .scan, 3600 * second, rfl, by decide, by decide⟩
    · intro e he
      cases he

end RanHoneypot.Alert
