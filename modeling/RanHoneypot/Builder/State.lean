import RanHoneypot.Data.JsRecord

/-!
# The state of the config builder

The builder of the documentation site holds the enabled traps, the values that differ from their
default, and the traps behind a proxy. The register lists the settings and traps of the sensor. A
setting either has a name of its own or stands for one variable per trap.
-/

namespace RanHoneypot.Builder

open Js

/-- A setting of the register. The family is empty for a setting with a name of its own. -/
structure SettingDef where
  name : JsText
  default : JsText
  family : JsText
  traps : List JsText

structure TrapDef where
  name : JsText
  defaultAddr : JsText

structure Register where
  settings : List SettingDef
  traps : List TrapDef

structure BuilderState where
  traps : List JsText
  values : Record JsText
  proxied : List JsText
deriving DecidableEq

variable (cm : CaseMapping) (v : JsText) (reg : Register) (s : BuilderState) (name key : JsText)

def ranTraps : JsText := js "RAN_TRAPS"

def ranProxyProtocol : JsText := js "RAN_PROXY_PROTOCOL"

def ranCrowdsec : JsText := js "RAN_CROWDSEC"

def ranCrowdsecPassword : JsText := js "RAN_CROWDSEC_PASSWORD"

def secretKeys : List JsText := [ranCrowdsecPassword]

def defaultTraps : List JsText := [js "ssh", js "http"]

def defaultState : BuilderState := ⟨defaultTraps, Record.empty, []⟩

def findTrap : Option TrapDef :=
  reg.traps.find? fun t ↦ t.name == name

def familyKey (trap family : JsText) : JsText :=
  js "RAN_" ++ cm.upper trap ++ unit '_' :: family

/-- The setting behind a variable, and the trap it is for. -/
def resolveSetting : Option (SettingDef × Option JsText) :=
  match reg.settings.find? fun s ↦ s.family.isEmpty && s.name == key with
  | some exact => some (exact, none)
  | none =>
    reg.settings.findSome? fun s ↦
      if s.family.isEmpty then none
      else (s.traps.find? fun trap ↦ familyKey cm trap s.family == key).map fun trap ↦ (s, some trap)

def defaultOf : JsText :=
  match resolveSetting cm reg key with
  | none => []
  | some (s, none) => s.default
  | some (s, some trap) =>
    if s.family = js "ADDR" ∧ trap ≠ [] then ((findTrap reg trap).map TrapDef.defaultAddr).getD []
    else s.default

/-! ## Values -/

def isControl (u : UInt16) : Bool :=
  u.toNat ≤ 0x1F || (0x7F ≤ u.toNat && u.toNat ≤ 0x9F) || u.toNat == 0x2028 || u.toNat == 0x2029

/-- Runs of line breaks and other control characters become one space. -/
def sanitize : JsText := trim (replaceRuns isControl (unit ' ') v)

theorem sanitize_free : ∀ u ∈ sanitize v, isControl u = false := fun u hu ↦
  replaceRuns_free (by decide) v u (mem_of_mem_trim hu)

theorem sanitize_sanitize : sanitize (sanitize v) = sanitize v := by
  have hfree : replaceRuns isControl (unit ' ') (sanitize v) = sanitize v :=
    replaceRuns_of_free (sanitize_free v)
  calc sanitize (sanitize v)
      = trim (replaceRuns ..) := rfl
    _ = trim (sanitize v) := by rw [hfree]
    _ = sanitize v := trim_trim _

def setTrap (on : Bool) : BuilderState :=
  if s.traps.contains name then
    if on then s
    else { s with traps := s.traps.filter (· != name), proxied := s.proxied.filter (· != name) }
  else if on then { s with traps := s.traps ++ [name] } else s

def setProxied (on : Bool) : BuilderState :=
  if s.proxied.contains name then
    if on then s else { s with proxied := s.proxied.filter (· != name) }
  else if on then { s with proxied := s.proxied ++ [name] } else s

/-- Stores a value; an empty value and the default remove the entry. -/
def setValue (raw : JsText) : BuilderState :=
  if key = ranTraps ∨ secretKeys.contains key then s
  else if sanitize raw = [] ∨ sanitize raw = defaultOf cm reg key then
    { s with values := s.values.delete key }
  else { s with values := s.values.set key (sanitize raw) }

/-- The values without those under secret keys. -/
def withoutSecrets (values : Record JsText) : Record JsText :=
  secretKeys.foldl (fun values key ↦ values.delete key) values

theorem mem_withoutSecrets {values : Record JsText} {e : JsText × JsText} :
    e ∈ (withoutSecrets values).entries ↔ e.1 ∉ secretKeys ∧ e ∈ values.entries := by
  simp [withoutSecrets, secretKeys, Record.mem_entries_delete]

variable {cm : CaseMapping} {reg : Register} {s : BuilderState} {key raw value : JsText}

@[simp]
theorem setValue_traps : (setValue cm reg s key raw).traps = s.traps := by
  unfold setValue
  split_ifs <;> rfl

@[simp]
theorem setValue_proxied : (setValue cm reg s key raw).proxied = s.proxied := by
  unfold setValue
  split_ifs <;> rfl

/-- What `setValue` leaves under a known key. -/
structure Stored (cm : CaseMapping) (reg : Register) (key value : JsText) : Prop where
  known : (resolveSetting cm reg key).isSome = true
  ne_traps : key ≠ ranTraps
  not_secret : key ∉ secretKeys
  sanitized : sanitize value = value
  ne_nil : value ≠ []
  ne_default : value ≠ defaultOf cm reg key

theorem Stored.setValue_eq (h : Stored cm reg key value) :
    setValue cm reg s key value = { s with values := s.values.set key value } := by
  have hkey : ¬ (key = ranTraps ∨ secretKeys.contains key = true) := by
    rw [not_or]
    exact ⟨h.ne_traps, fun hmem ↦ h.not_secret (List.contains_iff_mem.mp hmem)⟩
  have hvalue : ¬ (sanitize value = [] ∨ sanitize value = defaultOf cm reg key) := by
    rw [h.sanitized, not_or]
    exact ⟨h.ne_nil, h.ne_default⟩
  rw [setValue, if_neg hkey, if_neg hvalue, h.sanitized]

/-- An entry after `setValue` was there before, or is stored by it. -/
theorem mem_setValue (hknown : (resolveSetting cm reg key).isSome = true) {e : JsText × JsText}
    (he : e ∈ (setValue cm reg s key raw).values.entries) :
    e ∈ s.values.entries ∨ (e.1 = key ∧ Stored cm reg e.1 e.2) := by
  unfold setValue at he
  split_ifs at he with hkey hvalue
  · exact .inl he
  · exact .inl (Record.mem_entries_delete.mp he).2
  · rcases Record.mem_entries_set.mp he with heq | hold
    · rw [not_or] at hkey hvalue
      refine .inr ⟨by rw [heq], ?_⟩
      rw [heq]
      exact ⟨hknown, hkey.1, fun hmem ↦ hkey.2 (List.contains_iff_mem.mpr hmem),
        sanitize_sanitize raw, hvalue.1, hvalue.2⟩
    · exact .inl hold.2

/-- Storing entries one after the other appends them. -/
theorem foldl_setValue {entries : List (JsText × JsText)} (hstored : ∀ e ∈ entries, Stored cm reg e.1 e.2) :
    entries.foldl (fun s e ↦ setValue cm reg s e.1 e.2) s =
      { s with values := s.values.setAll entries } := by
  induction entries generalizing s with
  | nil => rfl
  | cons e entries ih =>
    rw [List.foldl_cons, (hstored e List.mem_cons_self).setValue_eq,
      ih fun other hother ↦ hstored other (List.mem_cons_of_mem e hother)]
    rfl

end RanHoneypot.Builder
