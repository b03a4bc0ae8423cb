import RanHoneypot.Data.BoundedTable
import RanHoneypot.Data.RecentMap

/-!
# The scan tracker

The tracker of `scan.go` detects sources that touch several distinct protocols or destination ports
in a short time. Each source has one entry with the last touch of every protocol and port, and the
entries are kept in the order of their last touch. The port set of an entry is capped.
-/

namespace RanHoneypot.Alert

def scanProtocols : ℤ := 3

/-- Ten minutes. -/
def scanWindow : ℤ := 600 * 1000000000

def scanPorts : ℤ := 5

/-- Bound of the port set of one entry. -/
def maxScanPorts : ℕ := 16

structure ScanEntry where
  ip : String
  last : ℕ := 0
  touched : RecentMap String := ∅
  ports : RecentMap ℤ := ∅

/-- `table` is the map `entries` and the list `order`. `evicted` lists the entries dropped because
the map was full, which the source only counts. -/
structure ScanTracker where
  table : IndexedList String ScanEntry
  window : ℤ
  threshold : ℤ
  portLimit : ℤ
  maxEntries : ℤ
  evicted : List ScanEntry

def newScanTracker (window threshold maxEntries : ℤ) : ScanTracker where
  table := .empty
  window := window
  threshold := threshold
  portLimit := scanPorts
  maxEntries := maxEntries
  evicted := []

namespace ScanEntry

variable (e : ScanEntry) (window : ℤ)

/-- The ports that are still inside the window. -/
def livePorts (now : ℕ) : RecentMap ℤ := e.ports.expire window now

/-- Whether there is room for the port in the set of live ports. -/
def accepts (port : ℤ) (now : ℕ) : Bool :=
  decide (0 < port) &&
    (decide (port ∈ e.livePorts window now) || decide ((e.livePorts window now).size < maxScanPorts))

/-- Records one touch. Expired protocols and ports are deleted; the new port is added after that, if
there is room for it. -/
def touch (protocol : String) (port : ℤ) (now : ℕ) : ScanEntry :=
  { e with
    last := now
    touched := (e.touched.touch protocol now).expire window now
    ports := if e.accepts window port now then (e.livePorts window now).touch port now
      else e.livePorts window now }

end ScanEntry

namespace ScanTracker

variable (s : ScanTracker) (now : ℕ)

/-- The entry has not been touched within the window. -/
def stale (e : ScanEntry) : Bool := !decide (since now e.last < s.window)

def sweepFront : ScanTracker :=
  { s with table := (s.table.sweepFront ScanEntry.ip (s.stale now)).1 }

def makeRoom : ScanTracker :=
  let (table, out) := s.table.makeRoom ScanEntry.ip (s.stale now) s.maxEntries
  { s with table := table, evicted := s.evicted ++ out.toList }

/-- The tracker with an entry for `ip`, and the pointer of that entry. -/
def entryFor (ip : String) (now : ℕ) : ScanTracker × ℕ :=
  match s.table.node? ip with
  | some node => (s, node.id)
  | none =>
    let room := if s.maxEntries ≤ (s.table.len : ℤ) then s.makeRoom now else s
    ({ room with table := room.table.pushBack ip { ip := ip } }, room.table.fresh)

/-- Whether the entry makes its source a scanner. -/
def verdict (e : ScanEntry) : Bool :=
  decide (s.threshold ≤ (e.touched.size : ℤ)) || decide (s.portLimit ≤ (e.ports.size : ℤ))

/-- Records that `ip` used `protocol` on `port` and reports whether `ip` is currently a scanner. A
port that is not positive is unknown and not counted. -/
def touchPort (ip protocol : String) (port : ℤ) (now : ℕ) : Bool × ScanTracker :=
  let (found, id) := s.entryFor ip now
  let table := (found.table.modify id (·.touch s.window protocol port now)).moveToBack id
  let answer := match table.deref id with
    | none => false
    | some e => s.verdict e
  (answer, { found with table := table })

def cleanup : ScanTracker := s.sweepFront now

end ScanTracker

end RanHoneypot.Alert
