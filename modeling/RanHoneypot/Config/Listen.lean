import Mathlib.Data.List.AList
import RanHoneypot.Config.Banner

/-!
# The listen addresses of the traps

The part of `Load` that decides where the traps listen (`config.go`): the list of enabled traps, their
address lists and banner services, and `checkListenConflicts`. What `Load` checks besides concerns no
listener; those checks are parameters, collected in `Checks`, and each can only reject an environment.
-/

namespace RanHoneypot.Config

open GoText Utf8

/-- The default address lists. -/
def defaultPorts : List (Text × Text) :=
  [("ssh", ":2222"), ("http", ":8081"), ("https", ":8443"), ("mysql", ":3307"), ("ftp", ":21"),
   ("telnet", ":23,:2323"), ("smtp", ":25"), ("dns", ":53"), ("pop3", ":110"), ("imap", ":143"),
   ("ldap", ":389"), ("smb", ":445"), ("modbus", ":502"), ("socks5", ":1080"), ("mssql", ":1433"),
   ("oracle", ":1521"), ("mqtt", ":1883"), ("rdp", ":3389"), ("postgres", ":5432"),
   ("sip", ":5060"), ("vnc", ":5900"), ("redis", ":6379"), ("irc", ":6667"),
   ("httpproxy", ":8080"), ("elasticsearch", ":9200"), ("ntp", ":123"), ("snmp", ":161"),
   ("memcached", ":11211"), ("adb", ":5555"), ("minecraft", ":25565"), ("docker", ":2375"),
   ("kubernetes", ":6443"), ("mongodb", ":27017"), ("mcp", ":8000"), ("s7comm", ":102"),
   ("enip", ":44818"), ("pjl", ":9100"), ("ipp", ":631")].map
    fun entry ↦ (ofText entry.1, ofText entry.2)

/-- The traps without a default, with the variable that they require. -/
def addresslessTraps : List (Text × Text) :=
  [("catchall", "RAN_CATCHALL_ADDR"), ("banner", "RAN_BANNER_SERVICES")].map
    fun entry ↦ (ofText entry.1, ofText entry.2)

def udpTraps : List Text := ["dns", "snmp", "sip", "ntp"].map ofText

def validTraps : List Text := defaultPorts.map Prod.fst ++ addresslessTraps.map Prod.fst

def bannerTrap : Text := ofText "banner"

/-- The value of a key in a table. -/
def tableLookup (table : List (Text × Text)) (key : Text) : Option Text :=
  (table.find? fun entry ↦ entry.1 = key).map Prod.snd

inductive Transport where
  | tcp
  | udp
deriving DecidableEq

def transportOf (trap : Text) : Transport := if udpTraps.contains trap then .udp else .tcp

/-- The errors of `ValidateAddrList`, with the variable and the part they name. -/
inductive AddrListError where
  | invalidAddr (variableName part : Text) (fault : AddrFault)
  | invalidPort (variableName part : Text)
  | noAddr (variableName : Text)
deriving DecidableEq

inductive LoadError where
  /-- The error of a check that concerns no listener. -/
  | other (message : Text)
  | unknownTrap (name : Text)
  | noTrap
  | addrList (error : AddrListError)
  | banner (error : BannerError)
  | addrRequired (variableName trap : Text)
  | bothListen (prev trap : Text) (transport : Transport) (port : Text)
deriving DecidableEq

/-- The fields of a configuration that decide where the traps listen. -/
structure ListenConfig where
  traps : List Text
  addrs : AList fun _ : Text ↦ Text
  bannerServices : List BannerService

/-- The checks of `Load` that concern no listener: the settings read before the list of traps, the
fixtures of the HTTP traps, and what is read behind the addresses. Each gives its error, if any. -/
structure Checks where
  settings : (Text → Text) → Option Text
  fixtures : (Text → Text) → List Text → Option Text
  overrides : (Text → Text) → List Text → Option Text

/-! ## Address lists -/

/-- The loop of `ValidateAddrList` over the parts, with the number of addresses found. -/
def validateParts (variableName : Text) : List Text → ℕ → Except AddrListError Unit
  | [], n => if n = 0 then .error (.noAddr variableName) else .ok ()
  | raw :: rest, n =>
    let part := trimSpace raw
    if part = [] then validateParts variableName rest n
    else
      match splitHostPort part with
      | .error fault => .error (.invalidAddr variableName part fault)
      | .ok (_, port) =>
        match atoi port with
        | none => .error (.invalidPort variableName part)
        | some p =>
          if p < 1 ∨ 65535 < p then .error (.invalidPort variableName part)
          else validateParts variableName rest (n + 1)

def validateAddrList (variableName raw : Text) : Except AddrListError Unit :=
  validateParts variableName (raw.splitOn (ch ',')) 0

/-- The parts of a list that are not blank. -/
def addrParts (raw : Text) : List Text :=
  ((raw.splitOn (ch ',')).map trimSpace).filter (· ≠ [])

namespace ListenConfig

variable (c : ListenConfig) (name : Text)

def trapAddr : Text :=
  match c.addrs.lookup name with
  | some addr => addr
  | none => (tableLookup defaultPorts name).getD []

def trapAddrs : List Text :=
  if c.trapAddr name = [] then [] else addrParts (c.trapAddr name)

/-! ## Conflicts -/

/-- The key under which a listener is claimed. -/
def claimKey (trap host port : Text) : Text :=
  ofText (if transportOf trap = .udp then "UDP " else "TCP ") ++ joinHostPort host port

/-- Claims an address for a trap, unless another trap has it. -/
def claim (owner : AList fun _ : Text ↦ Text) (trap host port : Text) :
    Except LoadError (AList fun _ : Text ↦ Text) :=
  match owner.lookup (claimKey trap host port) with
  | some prev =>
    if prev ≠ trap then .error (.bothListen prev trap (transportOf trap) port)
    else .ok (owner.insert (claimKey trap host port) trap)
  | none => .ok (owner.insert (claimKey trap host port) trap)

/-- The hosts and ports that the check claims for an enabled trap. A part that does not split is
skipped. -/
def claimed : List (Text × Text) :=
  if name = bannerTrap then c.bannerServices.map fun service ↦ ([], itoa service.port)
  else (addrParts ((c.addrs.lookup name).getD [])).filterMap fun part ↦ (splitHostPort part).toOption

def claimAll : List (Text × Text × Text) → (AList fun _ : Text ↦ Text) →
    Except LoadError (AList fun _ : Text ↦ Text)
  | [], owner => .ok owner
  | (trap, host, port) :: rest, owner =>
    match claim owner trap host port with
    | .error error => .error error
    | .ok owner => claimAll rest owner

def claims : List (Text × Text × Text) :=
  c.traps.flatMap fun name ↦ (c.claimed name).map fun addr ↦ (name, addr)

def checkListenConflicts : Except LoadError Unit :=
  match claimAll c.claims ∅ with
  | .error error => .error error
  | .ok _ => .ok ()

end ListenConfig

/-! ## Load -/

def parseTraps : List Text → List Text → Except LoadError (List Text)
  | [], traps => .ok traps
  | raw :: rest, traps =>
    let name := trimSpace raw
    if name = [] then parseTraps rest traps
    else if !validTraps.contains name then .error (.unknownTrap name)
    else parseTraps rest (traps ++ [name])

/-- The trap list of `RAN_TRAPS`; it must not be empty. -/
def loadTraps (getenv : Text → Text) : Except LoadError (List Text) :=
  let trapList := trimSpace (getenv (ofText "RAN_TRAPS"))
  match if trapList ≠ [] then parseTraps (trapList.splitOn (ch ',')) [] else .ok [] with
  | .error error => .error error
  | .ok traps => if traps = [] then .error .noTrap else .ok traps

def addrVariable (name : Text) : Text := ofText "RAN_" ++ toUpper name ++ ofText "_ADDR"

/-- The address list or the banner services of one trap. -/
def loadAddr (getenv : Text → Text) (c : ListenConfig) (name : Text) : Except LoadError ListenConfig :=
  if name = bannerTrap then
    match parseBannerServices (ofText "RAN_BANNER_SERVICES") (getenv (ofText "RAN_BANNER_SERVICES")) with
    | .error error => .error (.banner error)
    | .ok services => .ok { c with bannerServices := services }
  else if getenv (addrVariable name) ≠ [] then
    match validateAddrList (addrVariable name) (getenv (addrVariable name)) with
    | .error error => .error (.addrList error)
    | .ok _ => .ok { c with addrs := c.addrs.insert name (getenv (addrVariable name)) }
  else
    match tableLookup addresslessTraps name with
    | some required => .error (.addrRequired required name)
    | none => .ok { c with addrs := c.addrs.insert name ((tableLookup defaultPorts name).getD []) }

def loadAddrs (getenv : Text → Text) : List Text → ListenConfig → Except LoadError ListenConfig
  | [], c => .ok c
  | name :: rest, c =>
    match loadAddr getenv c name with
    | .error error => .error error
    | .ok c => loadAddrs getenv rest c

def check (error : Option Text) : Except LoadError Unit :=
  match error with
  | some message => .error (.other message)
  | none => .ok ()

def load (checks : Checks) (getenv : Text → Text) : Except LoadError ListenConfig := do
  check (checks.settings getenv)
  let traps ← loadTraps getenv
  check (checks.fixtures getenv traps)
  let c ← loadAddrs getenv traps { traps := traps, addrs := ∅, bannerServices := [] }
  c.checkListenConflicts
  check (checks.overrides getenv traps)
  .ok c

/-! ## Listeners -/

/-- A listener of an enabled trap: the address that the trap binds. -/
structure Listener where
  trap : Text
  addr : Text
deriving DecidableEq

namespace ListenConfig

/-- The listeners of all enabled traps, one for each entry of an address list or banner service. -/
def listeners (c : ListenConfig) : List Listener :=
  c.traps.flatMap fun name ↦
    (if name = bannerTrap then
      c.bannerServices.map fun service ↦ joinHostPort [] (itoa service.port)
    else c.trapAddrs name).map (Listener.mk name)

end ListenConfig

namespace Listener

def transport (l : Listener) : Transport := transportOf l.trap

/-- The host and the port as written. -/
def written (l : Listener) : Option (Text × Text) := (splitHostPort l.addr).toOption

/-- The host as written and the number of the port. -/
def socket (l : Listener) : Option (Text × ℤ) :=
  l.written.bind fun addr ↦ (atoi addr.2).map fun port ↦ (addr.1, port)

end Listener

end RanHoneypot.Config
