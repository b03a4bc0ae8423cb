import RanHoneypot.Data.GoText

/-!
# The banner services

`ParseBannerServices` of `banner.go` reads the services of the banner trap from a list of entries
`port=name:banner`. A banner may contain escapes, among them an escaped comma, so the list is cut at the
commas that no backslash stands before.
-/

namespace RanHoneypot.Config

open GoText

variable {service : BannerService} {services : List BannerService}

def maxBannerServices : ℕ := 10
def maxBannerBytes : ℕ := 256
def maxBannerNameLen : ℕ := 32

structure BannerService where
  port : ℕ
  name : Text
  banner : Text
deriving DecidableEq

/-- What is wrong with an entry. -/
inductive EntryError where
  | noEquals
  | noPort
  | invalidPort (port : Text)
  | noColon
  | noName
  | longName
  | invalidName
  | loneBackslash
  | unknownEscape (byte : UInt8)
  | emptyBanner
  | longBanner (length : ℕ)
deriving DecidableEq

/-- The errors of `ParseBannerServices`, with the variable and the entry they name. -/
inductive BannerError where
  | tooMany (variableName entry : Text)
  | invalidEntry (variableName entry : Text) (error : EntryError)
  | portUsedTwice (variableName entry : Text) (port : ℕ)
  | noEntry (variableName : Text)
deriving DecidableEq

/-- Splits on commas that are not escaped. `entry` is the part read since the last one. -/
def splitBannerEntries (entry : Text) : Text → List Text
  | [] => [entry]
  | c :: rest =>
    if c = ch '\\' then
      match rest with
      | [] => [entry ++ [c]]
      | escaped :: rest => splitBannerEntries (entry ++ [c, escaped]) rest
    else if c = ch ',' then entry :: splitBannerEntries [] rest
    else splitBannerEntries (entry ++ [c]) rest

/-- The byte that an escape stands for. -/
def unescape (byte : UInt8) : Option UInt8 :=
  if byte = ch 'r' then some 0x0D
  else if byte = ch 'n' then some 0x0A
  else if byte = ch 't' then some 0x09
  else if byte = ch '\\' then some (ch '\\')
  else if byte = ch ',' then some (ch ',')
  else none

def decodeBanner (out : Text) : Text → Except EntryError Text
  | [] => .ok out
  | c :: rest =>
    if c ≠ ch '\\' then decodeBanner (out ++ [c]) rest
    else
      match rest with
      | [] => .error .loneBackslash
      | escaped :: rest =>
        match unescape escaped with
        | none => .error (.unknownEscape escaped)
        | some byte => decodeBanner (out ++ [byte]) rest

def isNameByte (c : UInt8) : Bool :=
  (ch 'a' ≤ c && c ≤ ch 'z') || (ch '0' ≤ c && c ≤ ch '9') || c == ch '_' || c == ch '-'

def validBannerName (name : Text) : Except EntryError Unit :=
  if name = [] then .error .noName
  else if maxBannerNameLen < name.length then .error .longName
  else if !name.all isNameByte then .error .invalidName
  else .ok ()

/-- A port from 1 to 65535 without a sign. -/
def bannerPort (text : Text) : Except EntryError ℕ :=
  if text = [] then .error .noPort
  else
    match atoi text with
    | none => .error (.invalidPort text)
    | some port =>
      if port < 1 ∨ 65535 < port ∨ ch '+' ∈ text ∨ ch '-' ∈ text then .error (.invalidPort text)
      else .ok port.toNat

/-- The part of an entry behind its port. -/
def parseBannerRest (port : ℕ) (rest : Text) : Except EntryError BannerService :=
  match cut (ch ':') rest with
  | none => .error .noColon
  | some (nameText, bannerText) =>
    match validBannerName (trimSpace nameText), decodeBanner [] bannerText with
    | .error error, _ => .error error
    | .ok _, .error error => .error error
    | .ok _, .ok banner =>
      if banner = [] then .error .emptyBanner
      else if maxBannerBytes < banner.length then .error (.longBanner banner.length)
      else .ok ⟨port, trimSpace nameText, banner⟩

def parseBannerEntry (entry : Text) : Except EntryError BannerService :=
  match cut (ch '=') entry with
  | none => .error .noEquals
  | some (portText, rest) =>
    match bannerPort (trimSpace portText) with
    | .error error => .error error
    | .ok port => parseBannerRest port rest

/-- The loop over the entries. The ports in `seen` are those of the services in `out`. -/
def parseBannerEntries (variableName : Text) :
    List Text → List BannerService → Except BannerError (List BannerService)
  | [], out => if out = [] then .error (.noEntry variableName) else .ok out
  | raw :: rest, out =>
    let entry := raw.dropWhile fun c ↦ c = ch ' ' ∨ c = ch '\t'
    if trimSpace entry = [] then parseBannerEntries variableName rest out
    else if maxBannerServices ≤ out.length then .error (.tooMany variableName entry)
    else
      match parseBannerEntry entry with
      | .error error => .error (.invalidEntry variableName entry error)
      | .ok service =>
        if service.port ∈ out.map BannerService.port then
          .error (.portUsedTwice variableName entry service.port)
        else parseBannerEntries variableName rest (out ++ [service])

def parseBannerServices (variableName raw : Text) : Except BannerError (List BannerService) :=
  parseBannerEntries variableName (splitBannerEntries [] raw) []

/-! ## The ports of the services -/

theorem bannerPort_spec {text : Text} {port : ℕ} (hport : bannerPort text = .ok port) :
    1 ≤ port ∧ port ≤ 65535 := by
  unfold bannerPort at hport
  split at hport
  · cases hport
  · split at hport
    · cases hport
    · next value _ =>
      split at hport
      · cases hport
      · next hrange =>
        rw [Except.ok.injEq] at hport
        omega

theorem parseBannerRest_port {port : ℕ} {rest : Text}
    (hrest : parseBannerRest port rest = .ok service) : service.port = port := by
  unfold parseBannerRest at hrest
  split at hrest
  · cases hrest
  · split at hrest
    · cases hrest
    · cases hrest
    · split at hrest
      · cases hrest
      · split at hrest
        · cases hrest
        · rw [← Except.ok.inj hrest]

theorem parseBannerEntry_port {entry : Text} (hentry : parseBannerEntry entry = .ok service) :
    1 ≤ service.port ∧ service.port ≤ 65535 := by
  unfold parseBannerEntry at hentry
  split at hentry
  · cases hentry
  · split at hentry
    · cases hentry
    · next port hport =>
      rw [parseBannerRest_port hentry]
      exact bannerPort_spec hport

/-- What the loop keeps: the ports differ and are in range. -/
structure PortsDistinct (services : List BannerService) : Prop where
  range : ∀ service ∈ services, 1 ≤ service.port ∧ service.port ≤ 65535
  nodup : (services.map BannerService.port).Nodup

theorem PortsDistinct.concat (h : PortsDistinct services)
    (hrange : 1 ≤ service.port ∧ service.port ≤ 65535)
    (hnew : service.port ∉ services.map BannerService.port) :
    PortsDistinct (services ++ [service]) where
  range := by
    intro other hother
    rcases List.mem_append.mp hother with hold | hlast
    · exact h.range _ hold
    · rw [List.mem_singleton.mp hlast]
      exact hrange
  nodup := by
    rw [List.map_append, List.nodup_append]
    refine ⟨h.nodup, List.pairwise_singleton _ _, ?_⟩
    intro port hport last hlast heq
    exact hnew (List.mem_singleton.mp hlast ▸ heq ▸ hport)

theorem parseBannerEntries_distinct {variableName : Text} {entries : List Text}
    {out : List BannerService} (hout : PortsDistinct out)
    (hparse : parseBannerEntries variableName entries out = .ok services) :
    PortsDistinct services := by
  induction entries generalizing out with
  | nil =>
    unfold parseBannerEntries at hparse
    split at hparse
    · cases hparse
    · rw [← Except.ok.inj hparse]
      exact hout
  | cons raw rest ih =>
    simp only [parseBannerEntries] at hparse
    split at hparse
    · exact ih hout hparse
    · split at hparse
      · cases hparse
      · split at hparse
        · cases hparse
        · next service hentry =>
          split at hparse
          · cases hparse
          · next hnew => exact ih (hout.concat (parseBannerEntry_port hentry) hnew) hparse

theorem parseBannerServices_distinct {variableName raw : Text}
    (hparse : parseBannerServices variableName raw = .ok services) : PortsDistinct services :=
  parseBannerEntries_distinct ⟨by simp, by simp⟩ hparse

end RanHoneypot.Config
