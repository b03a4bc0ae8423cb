import RanHoneypot.Builder.Register
import RanHoneypot.Data.JsJson

/-!
# Env files

A state is exported as an env file with the variables that differ from their default, in the order of the
register. Secrets are replaced by a placeholder. The importer reads such a file back: it skips comments,
undoes the quoting, reports unknown variables and stores the rest the way the form does.
-/

namespace RanHoneypot.Builder

open Js

section Export

variable (cm : CaseMapping) (reg : Register)

variable (s : BuilderState)

/-- Variables that differ from the default, without secrets. -/
def effectiveEnv : Record JsText :=
  let env := withoutSecrets s.values
  let env := if s.traps.isEmpty then env else env.set ranTraps (join (unit ',') s.traps)
  if s.proxied.isEmpty then env else env.set ranProxyProtocol (join (unit ',') s.proxied)

def envGet (env : Record JsText) (key : JsText) : JsText := (env.get? key).getD (defaultOf cm reg key)

def offWords : List JsText := [js "", js "off", js "false", js "0", js "no"]

def isTruthy (v : JsText) : Bool := !offWords.contains (cm.lower (trim v))

def crowdsecOn (env : Record JsText) : Bool := isTruthy cm (envGet cm reg env ranCrowdsec)

def SettingDef.covers (s : SettingDef) (key : JsText) : Bool :=
  if s.family.isEmpty then s.name == key else s.traps.any fun trap ↦ familyKey cm trap s.family == key

def rank (key : JsText) : ℤ :=
  if key = ranTraps then -1
  else ((reg.settings.findIdx? fun s ↦ s.covers cm key).getD reg.settings.length : ℕ)

def compareKeys (a b : JsText) : ℤ :=
  if rank cm reg a - rank cm reg b ≠ 0 then rank cm reg a - rank cm reg b else compareText a b

def sortKeys (keys : List JsText) : List JsText := sortBy (compareKeys cm reg) keys

def passwordPlaceholder : JsText := js "CHANGE_ME"

def passwordNote : JsText :=
  js "RAN_CROWDSEC_PASSWORD is a placeholder (CHANGE_ME). Replace it with the machine password from \"cscli machines add\"; the builder never asks for it."

def passwordComment : JsText := js "Replace CHANGE_ME with the machine password (cscli machines add)."

structure Export where
  env : List (JsText × JsText)
  notes : List JsText

/-- The variables of an export before they are sorted. -/
def exportRecord : Record JsText :=
  let env := effectiveEnv s
  if crowdsecOn cm reg env then env.set ranCrowdsecPassword passwordPlaceholder else env

def exportEnv : Export where
  env := (sortKeys cm reg (exportRecord cm reg s).keys).map fun key ↦
    (key, ((exportRecord cm reg s).get? key).getD [])
  notes := if crowdsecOn cm reg (effectiveEnv s) then [passwordNote] else []

def apostrophe : UInt16 := 39

def isPlainUnit (u : UInt16) : Bool :=
  isLowerAlnum u || isUpperAlnum u || (js "@%+=:,./-").contains u

def isEscaped (u : UInt16) : Bool := u == backslash || u == quote || u == unit '$'

/-- Bare, in single quotes, or in double quotes with escapes. -/
def envQuote (v : JsText) : JsText :=
  if !v.isEmpty && v.all isPlainUnit then v
  else if !v.contains apostrophe then apostrophe :: (v ++ [apostrophe])
  else quote :: (v.flatMap (fun u ↦ if isEscaped u then [backslash, u] else [u]) ++ [quote])

def envQuoteNote : JsText :=
  js "Quoted values follow docker compose .env rules (env_file or --env-file of docker compose). \"docker run --env-file\" keeps the quotes literally: use the docker run output instead."

def comment (text : JsText) : JsText := js "# " ++ text

def envLines (e : JsText × JsText) : List JsText :=
  (if secretKeys.contains e.1 then [comment passwordComment] else []) ++
    [e.1 ++ unit '=' :: envQuote e.2]

structure Output where
  text : JsText
  notes : List JsText
deriving DecidableEq

def toEnvFile : Output :=
  let exported := exportEnv cm reg s
  let lines := exported.env.flatMap envLines
  let quoted := exported.env.any fun e ↦ envQuote e.2 != e.2
  let lines := if quoted then comment envQuoteNote :: lines else lines
  ⟨join (unit '\n') lines ++ (if lines.isEmpty then [] else [unit '\n']), exported.notes⟩

/-! ## Import -/

def splitList (v : JsText) : List JsText :=
  ((splitRuns (fun u ↦ u == unit ',' || isSpace u) v).map trim).filter (· != [])

def unescapeEnv : JsText → JsText
  | [] => []
  | [u] => [u]
  | u :: v :: rest =>
    if u = backslash ∧ isEscaped v then v :: unescapeEnv rest else u :: unescapeEnv (v :: rest)

/-- A value without the quotes around it. -/
def unquoteEnv (value : JsText) : JsText :=
  if 2 ≤ value.length ∧ (value.head? = some quote ∨ value.head? = some apostrophe) ∧
      value.getLast? = value.head? then
    let inner := (value.drop 1).dropLast
    if value.head? = some quote then unescapeEnv inner else inner
  else value

/-- What the lines of a file say. -/
structure EnvScan where
  raw : Record JsText
  unknown : List JsText
  ignored : List JsText

def importAssignment (scan : EnvScan) (key value : JsText) : EnvScan :=
  if secretKeys.contains key then { scan with ignored := scan.ignored ++ [key] }
  else if key = ranTraps ∨ (resolveSetting cm reg key).isSome then
    { scan with raw := scan.raw.set key value }
  else { scan with unknown := scan.unknown ++ [key] }

def importLine (scan : EnvScan) (line : JsText) : EnvScan :=
  let l := trim line
  if l.isEmpty ∨ l.head? = some (unit '#') then scan
  else
    let l := if (js "export ").isPrefixOf l then trim (l.drop 7) else l
    match l.findIdx? (· == unit '=') with
    | none | some 0 => { scan with unknown := scan.unknown ++ [l] }
    | some eq => importAssignment cm reg scan (trim (l.take eq)) (unquoteEnv (trim (l.drop (eq + 1))))

def importValue (e : JsText × JsText) : BuilderState :=
  if e.1 = ranTraps then s
  else if e.1 = ranProxyProtocol then
    let v := cm.lower (trim e.2)
    if boolOn.contains v ∨ boolOff.contains v ∨ v = [] then setValue cm reg s e.1 v
    else { s with proxied := ((v.splitOn (unit ',')).map trim).filter (· != []) }
  else setValue cm reg s e.1 e.2

structure ImportResult where
  state : BuilderState
  unknown : List JsText
  ignored : List JsText
deriving DecidableEq

def importEnv (text : JsText) : ImportResult :=
  let scan := (splitLines text).foldl (importLine cm reg) ⟨Record.empty, [], []⟩
  let traps := (splitList ((scan.raw.get? ranTraps).getD [])).map cm.lower
  ⟨scan.raw.entries.foldl (importValue cm reg) { defaultState with traps := traps }, scan.unknown,
    scan.ignored⟩

end Export

/-! ## Comparing states -/

def compareEntries (a b : JsText × JsText) : ℤ := if textLt a.1 b.1 then -1 else 1

def canon (s : BuilderState) : Json :=
  .obj [(js "traps", .arr ((sortBy compareText s.traps).map .str)),
    (js "proxied", .arr ((sortBy compareText s.proxied).map .str)),
    (js "values", .obj ((Record.empty.setAll (sortBy compareEntries s.values.entries)).entries.map
      fun e ↦ (e.1, .str e.2)))]

def sameState (a b : BuilderState) : Bool := stringify (canon a) == stringify (canon b)

theorem compareEntries_orders (values : Record JsText) :
    Orders compareEntries fun e ↦ e ∈ values.entries := by
  have hle : ∀ a b, compareEntries a b ≤ 0 ↔ textLt a.1 b.1 = true := by
    intro a b
    unfold compareEntries
    split <;> simp_all
  refine ⟨fun a b c ↦ ?_, fun a b ha hb hne ↦ ?_, fun a b _ _ ↦ ?_⟩ <;> simp only [hle]
  · exact textLt_trans
  · refine textLt_total fun hkey ↦ hne ?_
    have hvalue : values.get? a.1 = some a.2 := Record.get?_eq_some_iff.mpr ha
    rw [hkey, Record.get?_eq_some_iff.mpr hb] at hvalue
    exact Prod.ext hkey (Option.some.inj hvalue).symm
  · intro hab hba
    exact absurd (textLt_trans hab hba) (by simp [textLt_irrefl])

/-- The order of the entries does not matter. -/
theorem sameState_of_get? {a b : BuilderState} (htraps : a.traps = b.traps)
    (hproxied : a.proxied = b.proxied) (hvalues : ∀ key, a.values.get? key = b.values.get? key) :
    sameState a b = true := by
  have hsorted : sortBy compareEntries a.values.entries = sortBy compareEntries b.values.entries :=
    (compareEntries_orders _).sortBy_congr (fun _ he ↦ he) a.values.nodup.of_map
      (Record.entries_perm hvalues)
  rw [sameState, canon, htraps, hproxied, hsorted]
  exact beq_self_eq_true _

/-! ## The order of the variables -/

theorem compareKeys_orders (cm : CaseMapping) (reg : Register) :
    Orders (compareKeys cm reg) fun _ ↦ True := by
  have htext : ∀ a b, compareText a b ≤ 0 ↔ a = b ∨ textLt a b = true := by
    intro a b
    unfold compareText
    split
    · next hlt => simp [hlt]
    · next hlt =>
      split
      · next hgt =>
        have hne : a ≠ b := fun heq ↦ by simp [heq, textLt_irrefl] at hgt
        simp [hlt, hne]
      · next hgt =>
        have heq : a = b := by
          by_contra hne
          rcases textLt_total hne with h | h
          · exact hlt h
          · exact hgt h
        simp [heq]
  have hle : ∀ a b, compareKeys cm reg a b ≤ 0 ↔
      rank cm reg a < rank cm reg b ∨
        (rank cm reg a = rank cm reg b ∧ (a = b ∨ textLt a b = true)) := by
    intro a b
    unfold compareKeys
    split
    · next hne =>
      constructor
      · intro h
        exact .inl (by omega)
      · intro h
        rcases h with h | h
        · omega
        · omega
    · next heq =>
      rw [htext]
      constructor
      · intro h
        exact .inr ⟨by omega, h⟩
      · intro h
        rcases h with h | h
        · omega
        · exact h.2
  refine ⟨fun a b c ↦ ?_, fun a b _ _ hne ↦ ?_, fun a b _ _ ↦ ?_⟩ <;> simp only [hle]
  · intro hab hbc
    rcases hab with hab | ⟨hab, htab⟩
    · rcases hbc with hbc | ⟨hbc, -⟩
      · exact .inl (hab.trans hbc)
      · exact .inl (hbc ▸ hab)
    · rcases hbc with hbc | ⟨hbc, htbc⟩
      · exact .inl (hab ▸ hbc)
      · refine .inr ⟨hab.trans hbc, ?_⟩
        rcases htab with rfl | htab
        · exact htbc
        · rcases htbc with rfl | htbc
          · exact .inr htab
          · exact .inr (textLt_trans htab htbc)
  · rcases lt_trichotomy (rank cm reg a) (rank cm reg b) with h | h | h
    · exact .inl (.inl h)
    · rcases textLt_total hne with ht | ht
      · exact .inl (.inr ⟨h, .inr ht⟩)
      · exact .inr (.inr ⟨h.symm, .inr ht⟩)
    · exact .inr (.inl h)
  · intro hab hba
    rcases hab with hab | ⟨hab, htab⟩
    · rcases hba with hba | ⟨hba, -⟩ <;> omega
    · rcases hba with hba | ⟨-, htba⟩
      · omega
      · rcases htab with heq | htab
        · exact heq
        · rcases htba with heq | htba
          · exact heq.symm
          · exact absurd (textLt_trans htab htba) (by simp [textLt_irrefl])

theorem sortKeys_congr (cm : CaseMapping) (reg : Register) {keys keys' : List JsText}
    (hnodup : keys.Nodup) (hperm : keys.Perm keys') : sortKeys cm reg keys = sortKeys cm reg keys' :=
  (compareKeys_orders cm reg).sortBy_congr (fun _ _ ↦ trivial) hnodup hperm

end RanHoneypot.Builder
