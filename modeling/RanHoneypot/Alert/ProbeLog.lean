import RanHoneypot.Data.IndexedList
import RanHoneypot.Data.GoTime
import RanHoneypot.Net.Netip

/-!
# The probe log

The `probeLog` of `sensor.go` collects the probe sessions of a source over a window and writes one
summary line for them. Entries are pushed once and never moved, so the list is ordered by the start
of the windows. A full log writes its oldest entry out early.
-/

namespace RanHoneypot.Alert

structure ProbeEntry where
  ip : String
  start : ℕ
  sessions : ℕ := 0
  protos : AList (fun _ : String ↦ ℕ) := ∅

/-- One "probe summary" line. -/
structure ProbeSummary where
  ip : String
  windowSeconds : ℤ
  sessions : ℕ
  protos : AList (fun _ : String ↦ ℕ)

/-- `table` is the map `entries` and the list `order`, `summaries` holds the lines written so far and
`suppressed` the metric of recorded sessions. -/
structure ProbeLog where
  table : IndexedList String ProbeEntry
  window : ℤ
  maxEntries : ℤ
  closed : Bool
  suppressed : ℕ
  summaries : List ProbeSummary

def newProbeLog (window maxEntries : ℤ) : ProbeLog where
  table := .empty
  window := window
  maxEntries := maxEntries
  closed := false
  suppressed := 0
  summaries := []

namespace ProbeEntry

/-- Counting one session. -/
def count (e : ProbeEntry) (protocol : String) : ProbeEntry :=
  { e with
    sessions := e.sessions + 1
    protos := e.protos.insert protocol ((e.protos.lookup protocol).getD 0 + 1) }

def summary (e : ProbeEntry) (window : ℤ) (now : ℕ) : ProbeSummary where
  ip := e.ip
  windowSeconds := (min (since now e.start) window).tdiv 1000000000
  sessions := e.sessions
  protos := e.protos

end ProbeEntry

/-- The normalized key of a source text. A text that does not parse is its own key. -/
def probeKey (net : Netip) (rawIP : String) : String :=
  match net.parseAddr rawIP with
  | none => rawIP
  | some addr => net.string addr.unmap

namespace ProbeLog

variable (p : ProbeLog) (now : ℕ)

/-- Writes the summary line of an entry and removes it. -/
def emit (node : Node ProbeEntry) (now : ℕ) : ProbeLog :=
  { p with
    table := p.table.remove node.val.ip node.id
    summaries := p.summaries ++ [node.val.summary p.window now] }

/-- The window of the entry has passed. -/
def due (e : ProbeEntry) : Bool := !decide (since now e.start < p.window)

/-- A full log writes its oldest entry out. -/
def makeRoom : ProbeLog :=
  if p.maxEntries ≤ (p.table.len : ℤ) then
    match p.table.front? with
    | none => p
    | some front => p.emit front now
  else p

/-- A new entry for `ip`, and its pointer. -/
def newEntry (ip : String) (now : ℕ) : ProbeLog × ℕ :=
  let room := p.makeRoom now
  ({ room with table := room.table.pushBack ip { ip := ip, start := now } }, room.table.fresh)

/-- The entry a session of `ip` is counted in: the one of its running window, else a new one. -/
def entryFor (ip : String) (now : ℕ) : ProbeLog × ℕ :=
  match p.table.node? ip with
  | none => p.newEntry ip now
  | some node => if p.due now node.val then (p.emit node now).newEntry ip now else (p, node.id)

/-- Adds one probe session. A closed log refuses it, and the caller logs the session itself. -/
def record (net : Netip) (p : ProbeLog) (rawIP protocol : String) (now : ℕ) : Bool × ProbeLog :=
  if p.closed then (false, p)
  else
    let (found, id) := p.entryFor (probeKey net rawIP) now
    (true,
      { found with
        table := found.table.modify id (·.count protocol)
        suppressed := found.suppressed + 1 })

/-- Writes entries from the front as long as `ready` holds of them. -/
def flushLoop (ready : ProbeEntry → Bool) (now : ℕ) : ℕ → ProbeLog → ProbeLog
  | 0, p => p
  | rounds + 1, p =>
    match p.table.front? with
    | none => p
    | some node => if ready node.val then flushLoop ready now rounds (p.emit node now) else p

/-- Writes summaries for every entry whose window has elapsed. -/
def flushDue : ProbeLog :=
  flushLoop (p.due now) now p.table.nodes.length p

/-- The first half of `closeAndFlush`: no more records. -/
def close : ProbeLog := { p with closed := true }

/-- Writes summaries for every pending entry. -/
def flushAll : ProbeLog :=
  flushLoop (fun _ ↦ true) now p.table.nodes.length p

end ProbeLog

end RanHoneypot.Alert
