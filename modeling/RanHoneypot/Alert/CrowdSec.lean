import RanHoneypot.Alert.Cooldown
import RanHoneypot.Alert.Meta

/-!
# The CrowdSec sink

The state that `Submit` and the shun gate of `crowdsec.go` work on: the cooldown filter, the offender
table, the queue of accepted alerts and the closed flag. The batch worker that empties the queue is
modelled in `Pipeline`. Here `Submit` is one step that reads one clock value; `Pipeline` also runs
it as a thread that other goroutines may interrupt.
-/

namespace RanHoneypot.Alert

/-- Ranges that are never legitimate scanner sources. -/
def nonGlobalPrefixes : List Prefix :=
  [.ofOctets 0 0 0 0 8, .ofOctets 10 0 0 0 8, .ofOctets 100 64 0 0 10, .ofOctets 127 0 0 0 8,
   .ofOctets 169 254 0 0 16, .ofOctets 172 16 0 0 12, .ofOctets 192 0 0 0 24,
   .ofOctets 192 0 2 0 24, .ofOctets 192 88 99 0 24, .ofOctets 192 168 0 0 16,
   .ofOctets 198 18 0 0 15, .ofOctets 198 51 100 0 24, .ofOctets 203 0 113 0 24,
   .ofOctets 224 0 0 0 4, .ofOctets 240 0 0 0 4,
   .ofGroups [] 128, .ofGroups [0, 0, 0, 0, 0, 0, 0, 1] 128, .ofGroups [0, 0, 0, 0, 0, 0xffff] 96,
   .ofGroups [0x64, 0xff9b] 96, .ofGroups [0x64, 0xff9b, 1] 48, .ofGroups [0x100] 64,
   .ofGroups [0x2001] 23, .ofGroups [0x2001, 0xdb8] 32, .ofGroups [0x2002] 16,
   .ofGroups [0x3fff] 20, .ofGroups [0x5f00] 16, .ofGroups [0xfc00] 7, .ofGroups [0xfe80] 10,
   .ofGroups [0xff00] 8, .ofGroups [] 96]

/-- The unmapped address of a text, unless it is zoned or in a non-global prefix. -/
def parseBannableIP (net : Netip) (ip : String) : Option Addr :=
  match net.parseAddr ip with
  | none => none
  | some addr =>
    if addr.zone ≠ "" then none
    else if nonGlobalPrefixes.any (·.contains addr.unmap) then none
    else some addr.unmap

/-- The stages that the sink counts an alert in. -/
inductive Stage where
  | received
  | invalid
  | closed
  | filtered
  | cooldown
  | queued
  | dropped
  | sent
  | failed
  | released
deriving DecidableEq, Repr

/-- An alert on its way to the LAPI. `raw` is the size of the marshaled alert once it is encoded.
`call` numbers the `Submit` call that made the alert, which the source does not record. -/
structure AlertMsg where
  ip : String
  protocol : String
  cls : Class
  meta' : Meta
  cooldownKey : String
  slot : ℕ
  mark : AcceptMark
  raw : Option ℕ
  call : ℕ
deriving DecidableEq

structure CrowdSecConfig where
  banOn : List Class
  cooldown : ℤ
  shun : Bool
  repeatAfter : ℤ
  repeatCooldown : ℤ
  offenderReset : ℤ
  batchInterval : ℤ
  batchSize : ℤ
  maxTracked : ℤ

/-- `ch` is the content of the channel and `shunLog` the shun summaries written so far. -/
structure CrowdSecAlerter where
  banOn : List Class
  cooldown : CooldownFilter
  offenders : OffenderTable
  batchInterval : ℤ
  batchSize : ℤ
  ch : List AlertMsg
  closed : Bool
  shunLog : List ShunSummary

/-- The capacity of the channel. -/
def chanCapacity : ℕ := 256

def CrowdSecConfig.offenderConfig (cfg : CrowdSecConfig) : OffenderConfig where
  shun := cfg.shun
  repeatAfter := cfg.repeatAfter
  repeatCooldown := cfg.repeatCooldown
  maxEntries := cfg.maxTracked
  reset := cfg.offenderReset

/-- The sink after a successful login. -/
def newCrowdSec (cfg : CrowdSecConfig) : CrowdSecAlerter where
  banOn := if cfg.banOn = [] then [.attack, .scan] else cfg.banOn
  cooldown := newCooldownFilter cfg.cooldown
    (if cfg.maxTracked ≤ 0 then defaultMaxTracked else cfg.maxTracked)
  offenders := newOffenderTable cfg.offenderConfig
  batchInterval := cfg.batchInterval
  batchSize := if cfg.batchInterval = 0 then 1 else cfg.batchSize
  ch := []
  closed := false
  shunLog := []

namespace CrowdSecAlerter

variable (net : Netip) (a : CrowdSecAlerter) (call : ℕ) (ev : Event) (ip : String) (now : ℕ)

/-- When scan is not reported, a scan event falls back to what the session did itself. -/
def downgrade (banOn : List Class) (ev : Event) : Event :=
  if ev.cls = .scan ∧ .scan ∉ banOn then { ev with cls := classify ev.info } else ev

/-- The class filter of `Submit`. -/
def passesFilter (banOn : List Class) (ev : Event) : Bool := (downgrade banOn ev).cls ∈ banOn

/-- `a.cooldown.allow`, which reads the window from the offender table of the sink. -/
def allow (cls : Class) (now : ℕ) : Allowance × CrowdSecAlerter :=
  let (allowance, cooldown) := a.cooldown.allow net (some a.offenders) ip cls now
  (allowance, { a with cooldown := cooldown })

def accepted (cls : Class) (window : ℤ) (now : ℕ) : AcceptMark × CrowdSecAlerter :=
  let (mark, offenders, sums) := a.offenders.accepted net ip cls window now
  (mark, { a with offenders := offenders, shunLog := a.shunLog ++ sums })

def release (key : String) (slot : ℕ) : CrowdSecAlerter :=
  { a with cooldown := a.cooldown.release key slot }

def revert (mark : AcceptMark) (now : ℕ) : CrowdSecAlerter :=
  let (offenders, sums) := a.offenders.revert mark now
  { a with offenders := offenders, shunLog := a.shunLog ++ sums }

/-- The alert of an event that passed the cooldown. -/
def message (allowance : Allowance) (mark : AcceptMark) :
    AlertMsg where
  ip := ip
  protocol := ev.info.protocol
  cls := ev.cls
  meta' := eventMeta ev
  cooldownKey := allowance.key
  slot := allowance.slot
  mark := mark
  raw := none
  call := call

/-- Records an alert that took a slot, before it is queued. -/
def record (allowance : Allowance) (now : ℕ) : AlertMsg × CrowdSecAlerter :=
  let (mark, recorded) := a.accepted net ip ev.cls allowance.win now
  (message call ev ip allowance mark, recorded)

/-- The channel takes another alert. -/
def hasRoom : Bool := a.ch.length < chanCapacity

/-- Reports the event unless it is filtered out. Returns the stage it is counted in after
`received`. -/
def submit : Stage × CrowdSecAlerter :=
  match parseBannableIP net ev.info.sourceIP with
  | none => (.invalid, a)
  | some addr =>
    let ip := net.string addr
    if a.closed then (.closed, a)
    else
      let ev' := downgrade a.banOn ev
      if ev'.cls ∉ a.banOn then (.filtered, a)
      else
        let (allowance, taken) := a.allow net ip ev'.cls now
        if !allowance.ok then (.cooldown, taken)
        else
          let (msg, recorded) := taken.record net call ev' ip allowance now
          if recorded.hasRoom then (.queued, { recorded with ch := recorded.ch ++ [msg] })
          else (.dropped, (recorded.release msg.cooldownKey msg.slot).revert msg.mark now)

/-- An event is stopped without a trace, or it takes a slot, is recorded and then queued or
dropped. -/
theorem submit_cases :
    ((a.submit net call ev now).1 ≠ .queued ∧ (a.submit net call ev now).1 ≠ .dropped ∧
      (a.submit net call ev now).2 = a) ∨
    ∃ addr allowance taken msg recorded, parseBannableIP net ev.info.sourceIP = some addr ∧
      a.allow net (net.string addr) (downgrade a.banOn ev).cls now = (allowance, taken) ∧
      allowance.ok = true ∧
      taken.record net call (downgrade a.banOn ev) (net.string addr) allowance now =
        (msg, recorded) ∧
      (a.submit net call ev now = (.queued, { recorded with ch := recorded.ch ++ [msg] }) ∨
        a.submit net call ev now =
          (.dropped, (recorded.release msg.cooldownKey msg.slot).revert msg.mark now)) := by
  unfold submit
  cases hparse : parseBannableIP net ev.info.sourceIP with
  | none => exact .inl ⟨by simp, by simp, rfl⟩
  | some addr =>
    dsimp only
    by_cases hclosed : a.closed
    · rw [if_pos hclosed]
      exact .inl ⟨by simp, by simp, rfl⟩
    rw [if_neg hclosed]
    by_cases hfiltered : (downgrade a.banOn ev).cls ∈ a.banOn
    swap
    · rw [if_pos hfiltered]
      exact .inl ⟨by simp, by simp, rfl⟩
    rw [if_neg (not_not.mpr hfiltered)]
    rcases hallow : a.allow net (net.string _) (downgrade a.banOn ev).cls now with
      ⟨allowance, taken⟩
    cases hok : allowance.ok with
    | false =>
      have hsame : taken = a := by
        have hrefused := CooldownFilter.allow_refused (congrArg (·.1.ok) hallow |>.trans hok)
        calc taken = (a.allow ..).2 := by rw [hallow]
          _ = a := congrArg (fun d ↦ { a with cooldown := d }) hrefused
      simp [hsame]
    | true =>
      rcases hrecord : taken.record net call (downgrade a.banOn ev) (net.string _) allowance now
        with ⟨msg, recorded⟩
      refine .inr ⟨addr, allowance, taken, msg, recorded, rfl, hallow, hok, hrecord, ?_⟩
      by_cases hroom : recorded.hasRoom
      · exact .inl (if_pos hroom)
      · exact .inr (if_neg hroom)

/-! ## The shun gate and the clean-up loop -/

def shunEnabled : Bool := a.offenders.shun

def shunned : Bool × CrowdSecAlerter :=
  let (answer, offenders, sums) := a.offenders.shunned net ip now
  (answer, { a with offenders := offenders, shunLog := a.shunLog ++ sums })

def shunRejected (protocol : String) : CrowdSecAlerter :=
  { a with offenders := a.offenders.rejected net ip protocol }

def sweep : CrowdSecAlerter :=
  let (offenders, sums) := a.offenders.sweep now
  { a with offenders := offenders, shunLog := a.shunLog ++ sums }

def flush : CrowdSecAlerter :=
  let (offenders, sums) := a.offenders.flush now
  { a with offenders := offenders, shunLog := a.shunLog ++ sums }

/-- One round of `cleanupLoop`. -/
def cleanup : CrowdSecAlerter :=
  { a with cooldown := a.cooldown.cleanup now }

end CrowdSecAlerter

/-! ## Bannable addresses -/

variable {net : Netip} {ip : String} {addr : Addr}

theorem parseBannableIP_eq_some :
    parseBannableIP net ip = some addr ↔ ∃ parsed, net.parseAddr ip = some parsed ∧
      parsed.zone = "" ∧ addr = parsed.unmap ∧ ∀ range ∈ nonGlobalPrefixes,
        range.contains addr = false := by
  unfold parseBannableIP
  cases hparse : net.parseAddr ip with
  | none => simp
  | some parsed =>
    by_cases hzone : parsed.zone = ""
    · by_cases hglobal : nonGlobalPrefixes.any (·.contains parsed.unmap) = true
      · have hsome := List.any_eq_true.mp hglobal
        simp only [hzone, ne_eq, not_true_eq_false, if_false, hglobal, if_true, reduceCtorEq,
          Option.some.injEq, exists_eq_left', true_and, false_iff, not_and]
        intro haddr hnone
        rcases hsome with ⟨range, hmem, hcontains⟩
        rw [← haddr, hnone range hmem] at hcontains
        exact Bool.false_ne_true hcontains
      · have hnone := List.any_eq_false.mp (Bool.not_eq_true _ ▸ hglobal)
        simp only [hzone, ne_eq, not_true_eq_false, if_false, hglobal, Bool.false_eq_true,
          Option.some.injEq, exists_eq_left', true_and]
        constructor
        · intro haddr
          refine ⟨haddr.symm, fun range hmem ↦ ?_⟩
          rw [← haddr]
          exact Bool.eq_false_iff.mpr (hnone range hmem)
        · intro h
          exact h.1.symm
    · simp [hzone]

section

variable (hbannable : parseBannableIP net ip = some addr)

include hbannable

theorem unmap_of_bannable : addr.unmap = addr := by
  rcases parseBannableIP_eq_some.mp hbannable with ⟨parsed, _, _, haddr, _⟩
  rw [haddr, Addr.unmap_unmap]

theorem zone_of_bannable : addr.zone = "" := by
  rcases parseBannableIP_eq_some.mp hbannable with ⟨parsed, _, hzone, haddr, _⟩
  rw [haddr]
  exact Addr.zone_unmap hzone

/-- The offender table and the sink name a bannable source by the same text. -/
theorem normalizeIP_of_bannable : normalizeIP net ip = some (net.string addr) := by
  rcases parseBannableIP_eq_some.mp hbannable with ⟨parsed, hparse, hzone, haddr, _⟩
  simp [normalizeIP, hparse, hzone, haddr]

end

/-- The text of a bannable address is its own key. -/
theorem normalizeIP_string (hnet : net.RoundTrip) (hbannable : parseBannableIP net ip = some addr) :
    normalizeIP net (net.string addr) = some (net.string addr) := by
  have hzone := zone_of_bannable hbannable
  simp [normalizeIP, hnet addr hzone, hzone, unmap_of_bannable hbannable]

end RanHoneypot.Alert
