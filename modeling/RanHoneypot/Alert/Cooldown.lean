import RanHoneypot.Data.BoundedTable
import RanHoneypot.Alert.Offenders

/-!
# The cooldown filter

The filter of `cooldown.go` lets at most one alert per address and class pass within a window. A
class is also suppressed while a higher one is in cooldown. Each entry remembers the window it was
taken with, so the list is ordered by the time a slot was taken but not by the time it expires.
-/

namespace RanHoneypot.Alert

structure CooldownEntry where
  key : String
  takenAt : ℕ
  win : ℤ
  slot : ℕ
deriving DecidableEq

/-- `table` is the map `seen` and the list `order`. `evicted` lists the entries dropped because the
map was full, which the source only counts. -/
structure CooldownFilter where
  table : IndexedList String CooldownEntry
  nextSlot : ℕ
  window : ℤ
  maxEntries : ℤ
  evicted : List CooldownEntry

/-- What `allow` returns: the slot that was taken and the window applied to it. -/
structure Allowance where
  key : String := ""
  slot : ℕ := 0
  win : ℤ := 0
  ok : Bool
deriving DecidableEq

def newCooldownFilter (window maxEntries : ℤ) : CooldownFilter where
  table := .empty
  nextSlot := 0
  window := window
  maxEntries := maxEntries
  evicted := []

def cooldownKey (ip : String) (cls : Class) : String := ip ++ "|" ++ cls.toText

/-- The entry is still inside its window. -/
def CooldownEntry.live (e : CooldownEntry) (now : ℕ) : Bool := decide (since now e.takenAt < e.win)

namespace CooldownFilter

variable (d : CooldownFilter) (now : ℕ)

def remove (node : Node CooldownEntry) : CooldownFilter :=
  { d with table := d.table.remove node.val.key node.id }

/-- Removes expired entries from the front, up to the first live one. -/
def sweepFront : CooldownFilter :=
  { d with table := (d.table.sweepFront CooldownEntry.key fun e ↦ !e.live now).1 }

/-- Sweeps, and evicts the oldest entry if that frees no slot. -/
def makeRoom : CooldownFilter :=
  let (table, out) := d.table.makeRoom CooldownEntry.key (fun e ↦ !e.live now) d.maxEntries
  { d with table := table, evicted := d.evicted ++ out.toList }

/-- The same class or a higher one is still in cooldown for `ip`. -/
def suppressed (ip : String) (cls : Class) (now : ℕ) : Bool :=
  classes.any fun c ↦ !decide (c.rank < cls.rank) &&
    match d.table.get? (cooldownKey ip c) with
    | none => false
    | some e => e.live now

/-- Takes the slot for `ip` and `cls` unless it is in cooldown. -/
def allow (net : Netip) (d : CooldownFilter) (offenders : Option OffenderTable) (ip : String)
    (cls : Class) (now : ℕ) : Allowance × CooldownFilter :=
  if d.window = 0 then ({ ok := true }, d)
  else if d.suppressed ip cls now then ({ ok := false }, d)
  else
    let win := windowFor net offenders ip cls d.window now
    let key := cooldownKey ip cls
    let slot := d.nextSlot + 1
    let next := { d with nextSlot := slot }
    match next.table.node? key with
    | some node =>
      let rearmed := next.table.modify node.id fun e ↦
        { e with takenAt := now, win := win, slot := slot }
      (⟨key, slot, win, true⟩, { next with table := rearmed.moveToBack node.id })
    | none =>
      let room := if next.maxEntries ≤ (next.table.len : ℤ) then next.makeRoom now else next
      (⟨key, slot, win, true⟩, { room with table := room.table.pushBack key ⟨key, now, win, slot⟩ })

/-- Frees a slot, unless the key was re-armed by another alert since. -/
def release (key : String) (slot : ℕ) : CooldownFilter :=
  if key = "" then d
  else
    match d.table.node? key with
    | none => d
    | some node => if node.val.slot = slot then d.remove node else d

def cleanup : CooldownFilter :=
  if d.window = 0 then d else d.sweepFront now

/-- A refused alert changes nothing. -/
theorem allow_refused {net : Netip} {d : CooldownFilter} {offenders : Option OffenderTable}
    {ip : String} {cls : Class} {now : ℕ}
    (hrefused : (d.allow net offenders ip cls now).1.ok = false) :
    (d.allow net offenders ip cls now).2 = d := by
  unfold allow at hrefused ⊢
  split
  · rfl
  · split
    · rfl
    · simp_all only [Bool.not_eq_true, if_false, Bool.false_eq_true]
      split at hrefused <;> cases hrefused

end CooldownFilter

/-! ## Keys -/

theorem cooldownKey_ne_empty (ip : String) (cls : Class) : cooldownKey ip cls ≠ "" := by
  intro h
  have hlist := congrArg String.toList h
  simp [cooldownKey] at hlist

/-- No class text contains the separator, so a key determines its address and class. -/
theorem cooldownKey_inj {ip ip' : String} {cls cls' : Class}
    (h : cooldownKey ip cls = cooldownKey ip' cls') : ip = ip' ∧ cls = cls' := by
  have hlist := congrArg (fun s : String ↦ s.toList.reverse) h
  have hcls : cls = cls' := by
    cases cls <;> cases cls' <;> first | rfl | simp [cooldownKey, Class.toText] at hlist
  subst hcls
  refine ⟨?_, rfl⟩
  have hip : ip.toList = ip'.toList := by simpa [cooldownKey] using hlist
  exact String.toList_injective hip

end RanHoneypot.Alert
