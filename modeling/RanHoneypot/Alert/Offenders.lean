import RanHoneypot.Data.IndexedList
import RanHoneypot.Net.Netip
import RanHoneypot.Alert.Class

/-!
# The offender table

The table of `offenders.go` behind the repeat cooldown and the shun window. Entries live in an
`IndexedList` ordered by their last alert, and a separate set of pointers holds the entries with an
open shun window. Every operation takes the clock reading it makes as an argument and returns the
shun summaries it collects; the source writes them to the log after it has released the lock.

Go iterates over the set of open windows in an unspecified order. Here it is iterated in the order
in which the windows were opened, which decides nothing but the order of the summaries.
-/

namespace RanHoneypot.Alert

/-- Seven days: the silence after which a source is forgotten. -/
def defaultOffenderReset : ℤ := 7 * 24 * 3600 * 1000000000

/-- Bound of the protocol list of one shun summary. -/
def maxShunProtocols : ℕ := 8

/-- How many of the oldest entries are inspected for one without an open window. -/
def evictScan : ℕ := 64

/-- The default cap of the tracking maps. -/
def defaultMaxTracked : ℤ := 20000

def maxInt64 : ℤ := 2 ^ 63 - 1

structure OffenderConfig where
  shun : Bool
  repeatAfter : ℤ
  repeatCooldown : ℤ
  maxEntries : ℤ
  reset : ℤ

structure Offender where
  ip : String
  counts : Fin 3 → ℤ := fun _ ↦ 0
  last : ℕ := 0
  shunStart : ℕ := 0
  shunUntil : ℕ := 0
  winID : ℕ := 0
  suppressed : ℤ := 0
  protos : List String := []
  active : Bool := false

/-- One pending "shun summary" line. -/
structure ShunSummary where
  ip : String
  count : ℤ
  protos : List String
  seconds : ℤ
deriving DecidableEq

/-- `table` is the map and the FIFO list, `active` the set of open windows. `evicted` lists the
entries dropped because the table was full, which the source only counts. -/
structure OffenderTable where
  table : IndexedList String Offender
  active : List ℕ
  nextWin : ℕ
  shun : Bool
  repeatAfter : ℤ
  repeatCooldown : ℤ
  max : ℤ
  reset : ℤ
  evicted : List Offender

/-- What one accepted alert recorded, so that a failed push can undo it. -/
structure AcceptMark where
  key : String := ""
  idx : Fin 3 := Class.probe.index
  win : ℕ := 0
  ok : Bool := false
deriving DecidableEq

/-- Twice the repeat cooldown if that is longer than the default, without overflow. -/
def resetFor (cfg : OffenderConfig) : ℤ :=
  if cfg.reset ≤ 0 then
    if cfg.repeatCooldown > defaultOffenderReset / 2 then
      if cfg.repeatCooldown > maxInt64 / 2 then maxInt64 else 2 * cfg.repeatCooldown
    else defaultOffenderReset
  else cfg.reset

def newOffenderTable (cfg : OffenderConfig) : OffenderTable where
  table := .empty
  active := []
  nextWin := 0
  shun := cfg.shun
  repeatAfter := if cfg.repeatAfter < 1 then 5 else cfg.repeatAfter
  repeatCooldown := cfg.repeatCooldown
  max := if cfg.maxEntries ≤ 0 then defaultMaxTracked else cfg.maxEntries
  reset := resetFor cfg
  evicted := []

/-- The table key of an address text; unparsable and zoned addresses have none. -/
def normalizeIP (net : Netip) (ip : String) : Option String :=
  match net.parseAddr ip with
  | none => none
  | some addr => if addr.zone ≠ "" then none else some (net.string addr.unmap)

namespace Offender

variable (e : Offender) (now : ℕ)

/-- The summary of the window of `e` when it is closed at `now`. -/
def summary : ShunSummary where
  ip := e.ip
  count := e.suppressed
  protos := e.protos.mergeSort fun a b ↦ decide (a ≤ b)
  seconds := (since (if now < e.shunUntil then now else e.shunUntil) e.shunStart).tdiv 1000000000

def closeWindow : Offender :=
  { e with suppressed := 0, protos := [], shunStart := 0, shunUntil := 0, active := false }

/-- Counting one accepted alert. -/
def record (idx : Fin 3) (now : ℕ) : Offender :=
  { e with counts := Function.update e.counts idx (e.counts idx + 1), last := now }

def extendWindow (end' winID : ℕ) : Offender :=
  { e with shunUntil := end', winID := winID }

def openWindow (end' winID : ℕ) : Offender :=
  { e with winID := winID, shunStart := now, shunUntil := end', active := true }

/-- Counting one refused connection. -/
def suppress (protocol : String) : Offender :=
  { e with
    suppressed := e.suppressed + 1
    protos := if protocol ∉ e.protos ∧ e.protos.length < maxShunProtocols
      then e.protos ++ [protocol] else e.protos }

/-- Taking one accepted alert back. -/
def discount (idx : Fin 3) : Offender :=
  { e with counts :=
      if 0 < e.counts idx then Function.update e.counts idx (e.counts idx - 1) else e.counts }

theorem counts_discount {e : Offender} {idx : Fin 3} (hpos : 0 < e.counts idx) :
    (e.discount idx).counts = Function.update e.counts idx (e.counts idx - 1) :=
  if_pos hpos

/-- The window of `e` is open and has not reached its end. -/
def shunnedAt : Bool := e.active && decide (now < e.shunUntil)

end Offender

namespace OffenderTable

variable (net : Netip) (o : OffenderTable) (id : ℕ) (ip : String) (now : ℕ)

/-- Silent for the reset period and without a shun window left. -/
def expired (e : Offender) (now : ℕ) : Bool :=
  decide (o.reset ≤ since now e.last) && !decide (now < e.shunUntil)

def update (f : Offender → Offender) : OffenderTable :=
  { o with table := o.table.modify id f }

/-- Closes the window of the entry at `id`, with a summary if connections were suppressed. -/
def endWindow : OffenderTable × List ShunSummary :=
  match o.table.deref id with
  | none => (o, [])
  | some e =>
    ({ o.update id Offender.closeWindow with active := o.active.filter fun other ↦ other ≠ id },
      if 0 < e.suppressed then [e.summary now] else [])

/-- Drops the entry at `id`, writing a pending summary first. -/
def remove (o : OffenderTable) (id now : ℕ) : OffenderTable × List ShunSummary :=
  match o.table.deref id with
  | none => (o, [])
  | some e =>
    let (closed, sums) := if e.active then o.endWindow id now else (o, [])
    ({ closed with table := closed.table.remove e.ip id }, sums)

/-- The loop of `sweepFront`, with the length of the list as a bound on its rounds. -/
def sweepFrontLoop (now : ℕ) : ℕ → OffenderTable → OffenderTable × List ShunSummary
  | 0, o => (o, [])
  | rounds + 1, o =>
    match o.table.front? with
    | none => (o, [])
    | some node =>
      if o.expired node.val now then
        let (smaller, sums) := o.remove node.id now
        let (swept, rest) := sweepFrontLoop now rounds smaller
        (swept, sums ++ rest)
      else (o, [])

/-- Removes silent entries from the front, up to the first live one. -/
def sweepFront : OffenderTable × List ShunSummary :=
  sweepFrontLoop now o.table.nodes.length o

/-- The entry that a full table gives up: the oldest without an open window among the first
`evictScan` ones, else the oldest. -/
def victim (front : Node Offender) : Node Offender :=
  if o.active.length < o.table.len then
    ((o.table.nodes.take evictScan).find? fun node ↦ !node.val.active).getD front
  else front

/-- Frees one slot: first silent entries, then a victim. -/
def makeRoom : OffenderTable × List ShunSummary :=
  let (swept, sums) := o.sweepFront now
  if (swept.table.len : ℤ) < swept.max then (swept, sums)
  else
    match swept.table.front? with
    | none => (swept, sums)
    | some front =>
      let out := swept.victim front
      let (freed, rest) := { swept with evicted := swept.evicted ++ [out.val] }.remove out.id now
      (freed, sums ++ rest)

/-- The entry an accepted alert is recorded in: the entry of the source unless that is expired,
else a new one. Returns the pointer of the entry. -/
def entryFor (key : String) (now : ℕ) : OffenderTable × ℕ × List ShunSummary :=
  let (fresh, sums) :=
    match o.table.node? key with
    | none => (o, [])
    | some node => if o.expired node.val now then o.remove node.id now else (o, [])
  match fresh.table.node? key with
  | some node => ({ fresh with table := fresh.table.moveToBack node.id }, node.id, sums)
  | none =>
    let (room, rest) :=
      if fresh.max ≤ (fresh.table.len : ℤ) then fresh.makeRoom now else (fresh, [])
    ({ room with table := room.table.pushBack key { ip := key } }, room.table.fresh, sums ++ rest)

/-- Opens or extends the window of the entry at `id`. Returns the id of a window it opened. -/
def shunEntry (window : ℤ) (now : ℕ) : OffenderTable × ℕ × List ShunSummary :=
  let end' := advance now window
  match o.table.deref id with
  | none => (o, 0, [])
  | some e =>
    if e.active && decide (now < e.shunUntil) then
      -- An extension gets a new id, so reverting the alert that opened the window no longer
      -- closes it.
      if e.shunUntil < end' then
        ({ o.update id (·.extendWindow end' (o.nextWin + 1)) with nextWin := o.nextWin + 1 }, 0, [])
      else (o, 0, [])
    else
      let (ended, sums) := if e.active then o.endWindow id now else (o, [])
      ({ ended.update id (·.openWindow now end' (ended.nextWin + 1)) with
          nextWin := ended.nextWin + 1, active := ended.active ++ [id] },
        ended.nextWin + 1, sums)

/-- The body of `accepted`. Returns the id of the window the alert opened, or 0. -/
def acceptLocked (key : String) (idx : Fin 3) (cls : Class) (window : ℤ) (now : ℕ) :
    OffenderTable × ℕ × List ShunSummary :=
  let (found, id, sums) := o.entryFor key now
  let recorded := found.update id (·.record idx now)
  if !o.shun || cls == .probe || decide (window ≤ 0) then (recorded, 0, sums)
  else
    let (shunned, win, rest) := recorded.shunEntry id window now
    (shunned, win, sums ++ rest)

/-- Records an alert that passed the cooldown with the window that was applied to it. -/
def accepted (cls : Class) (window : ℤ) (now : ℕ) : AcceptMark × OffenderTable × List ShunSummary :=
  match normalizeIP net ip with
  | none => ({}, o, [])
  | some key =>
    let (after, win, sums) := o.acceptLocked key cls.index cls window now
    ({ key := key, idx := cls.index, win := win, ok := true }, after, sums)

/-- Closes the window that the alert of `m` opened, if it is still running unchanged. -/
def revertWindow (m : AcceptMark) (now : ℕ) : OffenderTable × List ShunSummary :=
  match o.table.deref id with
  | none => (o, [])
  | some e => if m.win ≠ 0 ∧ e.active ∧ e.winID = m.win then o.endWindow id now else (o, [])

/-- Drops the entry at `id` if nothing is left in it. -/
def dropEmpty : OffenderTable × List ShunSummary :=
  match o.table.deref id with
  | none => (o, [])
  | some e => if e.active = false ∧ ∀ i, e.counts i = 0 then o.remove id now else (o, [])

/-- Undoes `accepted` for an alert whose push failed. -/
def revert (m : AcceptMark) (now : ℕ) : OffenderTable × List ShunSummary :=
  if !m.ok then (o, [])
  else
    match o.table.node? m.key with
    | none => (o, [])
    | some node =>
      let (ended, sums) := (o.update node.id (·.discount m.idx)).revertWindow node.id m now
      let (dropped, rest) := ended.dropEmpty node.id now
      (dropped, sums ++ rest)

/-- Whether new connections from `ip` are refused. An ended window is closed here. -/
def shunned : Bool × OffenderTable × List ShunSummary :=
  if !o.shun || o.active.length == 0 then (false, o, [])
  else
    match normalizeIP net ip with
    | none => (false, o, [])
    | some key =>
      match o.table.node? key with
      | none => (false, o, [])
      | some node =>
        if !node.val.active then (false, o, [])
        else if now < node.val.shunUntil then (true, o, [])
        else (false, o.endWindow node.id now)

/-- Counts one refused connection. -/
def rejected (protocol : String) : OffenderTable :=
  match normalizeIP net ip with
  | none => o
  | some key =>
    match o.table.node? key with
    | none => o
    | some node => if !node.val.active then o else o.update node.id (·.suppress protocol)

/-- One round of the loop of `sweep`: close the window at `id` if it has reached its end. -/
def closeEnded (acc : OffenderTable × List ShunSummary) (id : ℕ) :
    OffenderTable × List ShunSummary :=
  match acc.1.table.deref id with
  | none => acc
  | some e =>
    if now < e.shunUntil then acc
    else
      let (ended, sums) := acc.1.endWindow id now
      (ended, acc.2 ++ sums)

/-- Closes ended shun windows and removes silent entries. -/
def sweep : OffenderTable × List ShunSummary :=
  let (closed, sums) := o.active.foldl (closeEnded now) (o, [])
  let (swept, rest) := closed.sweepFront now
  (swept, sums ++ rest)

/-- Writes the summary of the window at `id` and resets its counters, keeping it open. -/
def endWindowKeep : OffenderTable × List ShunSummary :=
  match o.table.deref id with
  | none => (o, [])
  | some e =>
    let (ended, sums) := o.endWindow id now
    ({ ended.update id fun e' ↦
          { e' with shunStart := now, shunUntil := e.shunUntil, active := true } with
        active := ended.active ++ [id] }, sums)

def flushWindow (acc : OffenderTable × List ShunSummary) (id : ℕ) :
    OffenderTable × List ShunSummary :=
  match acc.1.table.deref id with
  | none => acc
  | some e =>
    if 0 < e.suppressed then
      let (kept, sums) := acc.1.endWindowKeep id now
      (kept, acc.2 ++ sums)
    else acc

/-- Writes the summary of every open window at shutdown; the windows stay open. -/
def flush : OffenderTable × List ShunSummary :=
  o.active.foldl (flushWindow now) (o, [])

end OffenderTable

/-- The cooldown that applies to the next accepted alert for `ip` and `cls`: `base` until the
repeat threshold is reached, counting that alert. A missing table keeps `base`. -/
def windowFor (net : Netip) (offenders : Option OffenderTable) (ip : String) (cls : Class)
    (base : ℤ) (now : ℕ) : ℤ :=
  match offenders with
  | none => base
  | some o =>
    if base ≤ 0 ∨ o.repeatCooldown ≤ 0 then base
    else
      match normalizeIP net ip with
      | none => base
      | some key =>
        let count := match o.table.get? key with
          | none => 0
          | some e => if o.expired e now then 0 else e.counts cls.index
        if o.repeatAfter ≤ count + 1 then o.repeatCooldown else base

end RanHoneypot.Alert
