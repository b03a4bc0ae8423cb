import RanHoneypot.Builder.State

/-!
# The register of settings

The register is generated from the settings and traps of the sensor. What the builder relies on is that
variables and traps are named as the sensor names them; a register with this property is *checked*, and
the generated one is.
-/

namespace RanHoneypot.Builder

open Js List

def isLowerAlnum (u : UInt16) : Bool :=
  (97 ≤ u.toNat && u.toNat ≤ 122) || (48 ≤ u.toNat && u.toNat ≤ 57)

def isUpperAlnum (u : UInt16) : Bool :=
  (65 ≤ u.toNat && u.toNat ≤ 90) || (48 ≤ u.toNat && u.toNat ≤ 57) || u.toNat == 95

/-- The expression `^[a-z0-9]{1,32}$`. -/
def isTrapName (s : JsText) : Bool := 1 ≤ s.length && s.length ≤ 32 && s.all isLowerAlnum

/-- The expression `^RAN_[A-Z0-9_]{1,80}$`. -/
def isVariable (s : JsText) : Bool :=
  (js "RAN_").isPrefixOf s && 1 ≤ (s.drop 4).length && (s.drop 4).length ≤ 80 &&
    (s.drop 4).all isUpperAlnum

def boolOn : List JsText := [js "on", js "true", js "yes", js "1"]

def boolOff : List JsText := [js "off", js "false", js "no", js "0"]

def SettingDef.wellNamed (s : SettingDef) : Bool :=
  if s.family.isEmpty then isVariable s.name
  else s.traps.all fun trap ↦ isTrapName trap && isVariable (familyKey CaseMapping.ascii trap s.family)

/-- A register whose traps and variables are named as the sensor names them. -/
structure CheckedRegister extends Register where
  traps_le : traps.length ≤ 400
  trap_names : traps.all (fun t ↦ isTrapName t.name && !(boolOn ++ boolOff).contains t.name) = true
  setting_names : settings.all SettingDef.wellNamed = true
  has_proxy : settings.any (fun s ↦ s.family.isEmpty && s.name == ranProxyProtocol) = true

theorem ascii_of_isTrapName {s : JsText} (hs : isTrapName s = true) : ∀ u ∈ s, u.toNat < 128 := by
  intro u hu
  simp only [isTrapName, Bool.and_eq_true, all_eq_true] at hs
  have halnum := hs.2 u hu
  simp only [isLowerAlnum, Bool.or_eq_true, Bool.and_eq_true, decide_eq_true_eq] at halnum
  omega

/-- Every case mapping gives the same names. -/
theorem familyKey_eq (cm : CaseMapping) {trap : JsText} (htrap : isTrapName trap = true)
    (family : JsText) : familyKey cm trap family = familyKey CaseMapping.ascii trap family := by
  rw [familyKey, cm.upper_ascii _ (ascii_of_isTrapName htrap)]
  rfl

namespace CheckedRegister

variable {cm : CaseMapping} {reg : CheckedRegister} {key name : JsText}

theorem isVariable_of_known (hkey : (resolveSetting cm reg.toRegister key).isSome = true) :
    isVariable key = true := by
  have hnames := all_eq_true.mp reg.setting_names
  unfold resolveSetting at hkey
  split at hkey
  · next found hfound =>
    have hmatch := find?_some hfound
    have hnamed := hnames found (mem_of_find?_eq_some hfound)
    rw [Bool.and_eq_true, beq_iff_eq] at hmatch
    rw [SettingDef.wellNamed, if_pos hmatch.1, hmatch.2] at hnamed
    exact hnamed
  · rw [findSome?_isSome_iff] at hkey
    rcases hkey with ⟨found, hmem, hsome⟩
    have hnamed := hnames found hmem
    split at hsome
    · cases hsome
    · next hfamily =>
      rw [SettingDef.wellNamed, if_neg hfamily] at hnamed
      rw [Option.isSome_map, find?_isSome] at hsome
      rcases hsome with ⟨trap, htrap, heq⟩
      have hboth := all_eq_true.mp hnamed trap htrap
      rw [Bool.and_eq_true] at hboth
      rw [← beq_iff_eq.mp heq, familyKey_eq cm hboth.1]
      exact hboth.2

/-- A known trap, its name, and that the name is no spelling of a Boolean. -/
theorem trap_named (hname : (findTrap reg.toRegister name).isSome = true) :
    isTrapName name = true ∧ name ∉ boolOn ++ boolOff ∧ name ∈ reg.traps.map TrapDef.name := by
  rw [findTrap, find?_isSome] at hname
  rcases hname with ⟨trap, htrap, heq⟩
  have hnamed := all_eq_true.mp reg.trap_names trap htrap
  rw [beq_iff_eq] at heq
  rw [heq, Bool.and_eq_true] at hnamed
  refine ⟨hnamed.1, fun hmem ↦ ?_, mem_map.mpr ⟨trap, htrap, heq⟩⟩
  rw [contains_iff_mem.mpr hmem] at hnamed
  exact Bool.false_ne_true hnamed.2

/-- There are no more distinct known traps than the register lists. -/
theorem length_le_of_known {names : List JsText} (hnodup : names.Nodup)
    (hknown : ∀ name ∈ names, (findTrap reg.toRegister name).isSome = true) : names.length ≤ 400 := by
  have hsub : names ⊆ reg.traps.map TrapDef.name := fun name hname ↦
    (trap_named (hknown name hname)).2.2
  calc names.length
      ≤ (reg.traps.map _).length := (subperm_of_subset hnodup hsub).length_le
    _ = reg.traps.length := length_map _
    _ ≤ 400 := reg.traps_le

theorem resolve_proxy : (resolveSetting cm reg.toRegister ranProxyProtocol).isSome = true := by
  have hsome : (reg.settings.find? fun s ↦ s.family.isEmpty && s.name == ranProxyProtocol).isSome := by
    rw [find?_isSome]
    exact any_eq_true.mp reg.has_proxy
  unfold resolveSetting
  split
  · rfl
  · next hnone =>
    rw [hnone] at hsome
    cases hsome

end CheckedRegister

/-! ## The generated register -/

/-- The traps with their default addresses. -/
def trapTable : List (String × String) :=
  [
    ("adb", ":5555"), ("banner", ""), ("catchall", ""), ("dns", ":53"), ("docker", ":2375"),
    ("elasticsearch", ":9200"), ("enip", ":44818"), ("ftp", ":21"), ("http", ":8081"),
    ("httpproxy", ":8080"), ("https", ":8443"), ("imap", ":143"), ("ipp", ":631"), ("irc", ":6667"),
    ("kubernetes", ":6443"), ("ldap", ":389"), ("mcp", ":8000"), ("memcached", ":11211"),
    ("minecraft", ":25565"), ("modbus", ":502"), ("mongodb", ":27017"), ("mqtt", ":1883"),
    ("mssql", ":1433"), ("mysql", ":3307"), ("ntp", ":123"), ("oracle", ":1521"), ("pjl", ":9100"),
    ("pop3", ":110"), ("postgres", ":5432"), ("rdp", ":3389"), ("redis", ":6379"),
    ("s7comm", ":102"), ("sip", ":5060"), ("smb", ":445"), ("smtp", ":25"), ("snmp", ":161"),
    ("socks5", ":1080"), ("ssh", ":2222"), ("telnet", ":23,:2323"), ("vnc", ":5900")
  ]

def trapNames : List String := trapTable.map Prod.fst

def single (name default : String) : SettingDef := ⟨js name, js default, [], []⟩

def perTrap (name default family : String) (traps : List String) : SettingDef :=
  ⟨js name, js default, js family, traps.map js⟩

def settingTable : List SettingDef :=
  [
    perTrap "RAN_<PROTO>_ADDR" "" "ADDR" (trapNames.filter (· != "banner")),
    single "RAN_BANNER_SERVICES" "",
    single "RAN_HTTPS_CERT_PATH" "/data/https_cert.pem",
    single "RAN_METRICS_ADDR" ":9550",
    single "RAN_SSH_HOST_KEY_PATH" "/data/ssh_host_key",
    single "RAN_TRAPS" "",
    single "RAN_ALERT_COOLDOWN" "1h",
    single "RAN_BAN_ON" "attack,scan",
    single "RAN_CROWDSEC" "off",
    single "RAN_CROWDSEC_BATCH_INTERVAL" "10s",
    single "RAN_CROWDSEC_BATCH_SIZE" "50",
    single "RAN_CROWDSEC_MACHINE_ID" "",
    single "RAN_CROWDSEC_MAX_TRACKED" "20000",
    single "RAN_CROWDSEC_PASSWORD" "",
    single "RAN_CROWDSEC_URL" "",
    single "RAN_REPEAT_AFTER" "5",
    single "RAN_REPEAT_COOLDOWN" "",
    single "RAN_SHUN" "off",
    single "RAN_FINGERPRINT" "seeded",
    single "RAN_FINGERPRINT_SEED_PATH" "/data/fingerprint_seed",
    single "RAN_HTTP_FIXTURES" "",
    single "RAN_IGNORE_IPS" "",
    perTrap "RAN_<PROTO>_AUTH_DELAY" "" "AUTH_DELAY" trapNames,
    perTrap "RAN_<PROTO>_MAX_AUTH_RETRIES" "" "MAX_AUTH_RETRIES" trapNames,
    perTrap "RAN_<PROTO>_SESSION_TIMEOUT" "" "SESSION_TIMEOUT" trapNames,
    single "RAN_AUTH_DELAY" "0s",
    single "RAN_MAX_AUTH_RETRIES" "3",
    single "RAN_MAX_PER_IP" "10",
    single "RAN_MAX_SESSIONS" "500",
    single "RAN_SESSION_TIMEOUT" "30s",
    single "RAN_LOG_FORMAT" "json",
    single "RAN_LOG_LEVEL" "info",
    single "RAN_LOG_PASSWORDS" "off",
    single "RAN_PROBE_SUMMARY_WINDOW" "60s",
    single "RAN_PROXY_PROTOCOL" "off",
    single "RAN_PROXY_TRUSTED" "",
    single "RAN_SSH_TARPIT" "off",
    single "RAN_SSH_TARPIT_DURATION" "30s",
    single "RAN_UDP_RATE_BURST" "40",
    single "RAN_UDP_RATE_GLOBAL" "2000",
    single "RAN_UDP_RATE_PER_SOURCE" "20"
  ]

def generatedRegister : CheckedRegister where
  settings := settingTable
  traps := trapTable.map fun t ↦ ⟨js t.1, js t.2⟩
  traps_le := by decide
  trap_names := by decide +kernel
  setting_names := by decide +kernel
  has_proxy := by decide +kernel

end RanHoneypot.Builder
