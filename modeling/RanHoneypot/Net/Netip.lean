import Mathlib.Data.Nat.Digits.Defs
import Mathlib.Tactic.IntervalCases

/-!
# Addresses and prefixes of `net/netip`

Addresses are 32-bit or 128-bit words, the latter with an optional zone. Unmapping, zones and
prefix membership are defined on the words. Parsing and printing of texts stay parameters, collected
in `Netip`; the behaviour that the sensor relies on is stated as `RoundTrip` and `ReadsMapped`.
-/

namespace RanHoneypot

inductive Addr where
  | v4 (bits : BitVec 32)
  | v6 (bits : BitVec 128) (zone : String)
deriving DecidableEq

namespace Addr

def zone : Addr → String
  | v4 _ => ""
  | v6 _ zone => zone

/-- `WithZone("")`. -/
def dropZone : Addr → Addr
  | v4 bits => v4 bits
  | v6 bits _ => v6 bits ""

/-- IPv4-mapped IPv6 addresses become IPv4 addresses (losing their zone), others stay. -/
def unmap : Addr → Addr
  | v4 bits => v4 bits
  | v6 bits zone =>
    if bits.extractLsb' 32 96 = 0xffff#96 then v4 (bits.extractLsb' 0 32) else v6 bits zone

/-- The address `::ffff:a.b.c.d` of an IPv4 address. -/
def mapped (bits : BitVec 32) : Addr := v6 (0xffff#96 ++ bits) ""

@[simp] theorem zone_mapped (bits : BitVec 32) : (mapped bits).zone = "" := rfl

@[simp] theorem unmap_mapped (bits : BitVec 32) : (mapped bits).unmap = v4 bits := by
  have hhigh : (0xffff#96 ++ bits).extractLsb' 32 96 = 0xffff#96 :=
    BitVec.extractLsb'_append_eq_left
  have hlow : (0xffff#96 ++ bits).extractLsb' 0 32 = bits := BitVec.extractLsb'_append_eq_right
  simp [mapped, unmap, hhigh, hlow]

theorem unmap_unmap (addr : Addr) : addr.unmap.unmap = addr.unmap := by
  cases addr with
  | v4 bits => rfl
  | v6 bits zone =>
    by_cases hmapped : bits.extractLsb' 32 96 = 0xffff#96 <;> simp [unmap, hmapped]

theorem zone_unmap {addr : Addr} (hzone : addr.zone = "") : addr.unmap.zone = "" := by
  cases addr with
  | v4 bits => rfl
  | v6 bits zone =>
    by_cases hmapped : bits.extractLsb' 32 96 = 0xffff#96
    · simp [unmap, hmapped, Addr.zone]
    · simpa [unmap, hmapped] using hzone

theorem dropZone_of_zone {addr : Addr} (hzone : addr.zone = "") : addr.dropZone = addr := by
  cases addr with
  | v4 bits => rfl
  | v6 bits zone => simp_all [dropZone, Addr.zone]

end Addr

structure Prefix where
  addr : Addr
  bits : ℕ
deriving DecidableEq

namespace Prefix

/-- The IPv4 prefix `a.b.c.d/bits`. -/
def ofOctets (a b c d bits : ℕ) : Prefix where
  addr := .v4 (BitVec.ofNat 32 (((a * 256 + b) * 256 + c) * 256 + d))
  bits := bits

/-- The IPv6 prefix with these leading 16-bit groups, the others being zero. -/
def ofGroups (groups : List ℕ) (bits : ℕ) : Prefix where
  addr := .v6 (BitVec.ofNat 128
    (groups.foldl (fun acc group ↦ acc * 65536 + group) 0 * 65536 ^ (8 - groups.length))) ""
  bits := bits

/-- Zoned addresses and addresses of the other family are in no prefix. -/
def contains (range : Prefix) (ip : Addr) : Bool :=
  match range.addr, ip with
  | .v4 base, .v4 bits => range.bits ≤ 32 && (base ^^^ bits) >>> (32 - range.bits) == 0
  | .v6 base _, .v6 bits zone =>
    zone == "" && range.bits ≤ 128 && (base ^^^ bits) >>> (128 - range.bits) == 0
  | _, _ => false

end Prefix

/-- The two functions of the package that read and write address texts. -/
structure Netip where
  parseAddr : String → Option Addr
  string : Addr → String

namespace Netip

/-- The two functions restricted to the texts of a table. -/
def ofTable (texts : List (String × Addr)) : Netip where
  parseAddr text := (texts.find? fun entry ↦ entry.1 == text).map Prod.snd
  string addr := ((texts.find? fun entry ↦ entry.2 == addr).map Prod.fst).getD ""

/-- Parsing a printed address without a zone gives the address back. -/
def RoundTrip (net : Netip) : Prop :=
  ∀ addr : Addr, addr.zone = "" → net.parseAddr (net.string addr) = some addr

/-- The `::ffff:` form of an IPv4 text is read as the mapped address. -/
def ReadsMapped (net : Netip) : Prop :=
  ∀ text bits, net.parseAddr text = some (.v4 bits) →
    net.parseAddr ("::ffff:" ++ text) = some (Addr.mapped bits)

theorem RoundTrip.string_inj {net : Netip} (hnet : net.RoundTrip) {left right : Addr}
    (hleft : left.zone = "") (hright : right.zone = "")
    (heq : net.string left = net.string right) : left = right := by
  have hparse := hnet left hleft
  rw [heq, hnet right hright] at hparse
  exact (Option.some.inj hparse).symm

/-! ## A printing in binary digits

Both assumptions hold of the functions that write an address as its family and its bits, so they are
consistent. The real formats differ from it in nothing the sensor depends on. -/

/-- The bits of a word, the lowest first. -/
def bitText {w : ℕ} (bits : BitVec w) : List Char :=
  (Nat.digits 2 bits.toNat).map fun digit ↦ if digit = 1 then '1' else '0'

def ofBitText (w : ℕ) (text : List Char) : BitVec w :=
  BitVec.ofNat w (Nat.ofDigits 2 (text.map fun c ↦ if c = '1' then 1 else 0))

theorem ofBitText_bitText {w : ℕ} (bits : BitVec w) : ofBitText w (bitText bits) = bits := by
  have hread : ((Nat.digits 2 bits.toNat).map fun digit ↦ if digit = 1 then '1' else '0').map
      (fun c ↦ if c = '1' then 1 else 0) = Nat.digits 2 bits.toNat := by
    rw [List.map_map, List.map_congr_left, List.map_id]
    intro digit hdigit
    have hlt : digit < 2 := Nat.digits_lt_base (by omega) hdigit
    interval_cases digit <;> rfl
  rw [ofBitText, bitText, hread, Nat.ofDigits_digits, BitVec.ofNat_toNat, BitVec.setWidth_eq]

def binary : Netip where
  parseAddr text :=
    match text.toList with
    | '4' :: rest => some (.v4 (ofBitText 32 rest))
    | '6' :: rest => some (.v6 (ofBitText 128 rest) "")
    | ':' :: ':' :: 'f' :: 'f' :: 'f' :: 'f' :: ':' :: '4' :: rest =>
      some (Addr.mapped (ofBitText 32 rest))
    | _ => none
  string addr :=
    match addr with
    | .v4 bits => String.ofList ('4' :: bitText bits)
    | .v6 bits _ => String.ofList ('6' :: bitText bits)

theorem binary_roundTrip : binary.RoundTrip := by
  intro addr hzone
  cases addr with
  | v4 bits => simp [binary, ofBitText_bitText]
  | v6 bits zone =>
    have hempty : zone = "" := hzone
    simp [binary, ofBitText_bitText, hempty]

theorem binary_readsMapped : binary.ReadsMapped := by
  intro text bits hparse
  have htext : ∃ rest, text.toList = '4' :: rest ∧ ofBitText 32 rest = bits := by
    simp only [binary] at hparse
    split at hparse
    · next rest hlist =>
      simp only [Option.some.injEq, Addr.v4.injEq] at hparse
      exact ⟨rest, hlist, hparse⟩
    all_goals simp [Addr.mapped] at hparse
  rcases htext with ⟨rest, hlist, hbits⟩
  simp [binary, hlist, hbits]

end Netip

end RanHoneypot
