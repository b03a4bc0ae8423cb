import RanHoneypot.Data.Digest
import RanHoneypot.Data.InPlaceSort
import RanHoneypot.Trap.TlsHello

/-!
# Fingerprints of a ClientHello

JA3 and JA4 condense what a client offers into a short text, so that the same client can be recognised.
Clients put random values, called GREASE, between the real ones, and some shuffle their ciphers and
extensions. Both fingerprints ignore GREASE. JA3 keeps the order of the lists; JA4 sorts the ciphers and the
extensions, so it ignores their order too.
-/

namespace RanHoneypot.Trap.Tls

open GoText Digest

variable (digests : Digests) {h k : ClientHello}

def isGREASE (v : UInt16) : Bool := v &&& 0x0f0f == 0x0a0a && v >>> 8 == v &&& 0xff

/-- The values of a list that count. -/
def genuine (vals : List UInt16) : List UInt16 := vals.filter fun v ↦ !isGREASE v

def joinU16 (vals : List UInt16) (f : UInt16 → Text) : Text := join [ch '-'] ((genuine vals).map f)

def dec (v : UInt16) : Text := itoa v.toNat

def ja3 (h : ClientHello) : Text :=
  let s := join [ch ',']
    [dec h.version, joinU16 h.ciphers dec, joinU16 h.extensions dec, joinU16 h.curves dec,
      join [ch '-'] (h.points.map fun p ↦ itoa p.toNat)]
  hexEncode (digests.md5 s).toList

def hex4 (v : UInt16) : Text :=
  [Digest.hexDigit (v.toNat / 4096), Digest.hexDigit (v.toNat / 256 % 16), Digest.hexDigit (v.toNat / 16 % 16),
    Digest.hexDigit (v.toNat % 16)]

/-- The highest value of `supported_versions`, or 0. -/
def bestVersion (versions : List UInt16) : UInt16 :=
  versions.foldl (fun best sv ↦ if isGREASE sv = false ∧ sv > best then sv else best) 0

def ja4Version (h : ClientHello) : Text :=
  let best := bestVersion h.versions
  let v := if best ≠ 0 then best else h.version
  if v = 0x0304 then Utf8.ofText "13"
  else if v = 0x0303 then Utf8.ofText "12"
  else if v = 0x0302 then Utf8.ofText "11"
  else if v = 0x0301 then Utf8.ofText "10"
  else if v = 0x0300 then Utf8.ofText "s3"
  else if v = 0x0002 then Utf8.ofText "s2"
  else Utf8.ofText "00"

def isAlnum (b : UInt8) : Bool :=
  ch '0' ≤ b && b ≤ ch '9' || ch 'a' ≤ b && b ≤ ch 'z' || ch 'A' ≤ b && b ≤ ch 'Z'

def ja4ALPN (alpn : List Text) : Text :=
  match alpn with
  | [] => Utf8.ofText "00"
  | p :: _ =>
    match p.head?, p.getLast? with
    | some first, some last =>
      if isAlnum first && isAlnum last then [first, last]
      else [Digest.hexDigit (first.toNat / 16), Digest.hexDigit (last.toNat % 16)]
    | _, _ => Utf8.ofText "00"

def count2 (n : ℕ) : Text :=
  let n := if 99 < n then 99 else n
  [UInt8.ofNat (48 + n / 10), UInt8.ofNat (48 + n % 10)]

def sortU16 (v : List UInt16) : List UInt16 := InPlaceSort.sort (· > ·) v

def hex12 (s : Text) : Text :=
  if s = [] then Utf8.ofText "000000000000" else (hexEncode (digests.sha256 s).toList).take 12

def ja4 (h : ClientHello) : Text :=
  let ciphers := genuine h.ciphers
  let exts := genuine h.extensions
  let hashed := exts.filter fun e ↦ e ≠ 0 ∧ e ≠ 16
  let sni := if h.hasSNI then ch 'd' else ch 'i'
  let cs := (sortU16 ciphers).map hex4
  let es := (sortU16 hashed).map hex4
  let sa := (genuine h.sigAlgs).map hex4
  let extPart := join [ch ','] es
  let extPart := if 0 < sa.length then extPart ++ (ch '_' :: join [ch ','] sa) else extPart
  let extPart := if es.length = 0 then [] else extPart
  ch 't' :: (ja4Version h ++ sni :: (count2 ciphers.length ++ count2 exts.length ++ ja4ALPN h.alpn ++
    ch '_' :: (hex12 digests (join [ch ','] cs) ++ ch '_' :: hex12 digests extPart)))

/-! ## What the fingerprints depend on -/

theorem genuine_insert {v : UInt16} (hv : isGREASE v = true) (front back : List UInt16) :
    genuine (front ++ v :: back) = genuine (front ++ back) := by
  rw [genuine, genuine, List.filter_append, List.filter_append, List.filter_cons_of_neg (by simp [hv])]

theorem bestVersion_genuine (versions : List UInt16) :
    bestVersion versions = bestVersion (genuine versions) := by
  rw [bestVersion, bestVersion, genuine, List.foldl_filter]
  congr 1
  funext best sv
  cases isGREASE sv <;> simp

theorem sortU16_eq_of_perm {v w : List UInt16} (hperm : v.Perm w) : sortU16 v = sortU16 w := by
  have hle : ∀ a b : UInt16, a ≤ b ↔ ¬ a > b := fun a b ↦ UInt16.not_lt.symm
  exact InPlaceSort.sort_eq_of_perm hle hperm

/-- Two hellos with the same real values, ciphers and extensions up to their order. -/
structure Alike (h k : ClientHello) : Prop where
  version : h.version = k.version
  ciphers : (genuine h.ciphers).Perm (genuine k.ciphers)
  extensions : (genuine h.extensions).Perm (genuine k.extensions)
  sigAlgs : genuine h.sigAlgs = genuine k.sigAlgs
  versions : genuine h.versions = genuine k.versions
  alpn : h.alpn = k.alpn
  hasSNI : h.hasSNI = k.hasSNI

theorem Alike.refl (h : ClientHello) : Alike h h :=
  ⟨rfl, List.Perm.refl _, List.Perm.refl _, rfl, rfl, rfl, rfl⟩

theorem Alike.ja4Version_eq (halike : Alike h k) : ja4Version h = ja4Version k := by
  have hbest : bestVersion h.versions = bestVersion k.versions := by
    rw [bestVersion_genuine, halike.versions, ← bestVersion_genuine]
  simp only [ja4Version, hbest, halike.version]

theorem Alike.ja4_eq (halike : Alike h k) : ja4 digests h = ja4 digests k := by
  have hciphers := sortU16_eq_of_perm halike.ciphers
  have hhashed := sortU16_eq_of_perm (halike.extensions.filter fun e ↦ decide (e ≠ 0 ∧ e ≠ 16))
  simp only [ja4, hciphers, hhashed, halike.ciphers.length_eq, halike.extensions.length_eq,
    halike.sigAlgs, halike.alpn, halike.hasSNI, halike.ja4Version_eq]

/-! ## GREASE -/

/-- One GREASE value more in one of the lists. -/
inductive GreaseStep : ClientHello → ClientHello → Prop
  | cipher {h : ClientHello} {v : UInt16} {front back : List UInt16} (hv : isGREASE v = true)
      (hlist : h.ciphers = front ++ back) : GreaseStep h { h with ciphers := front ++ v :: back }
  | extension {h : ClientHello} {v : UInt16} {front back : List UInt16} (hv : isGREASE v = true)
      (hlist : h.extensions = front ++ back) : GreaseStep h { h with extensions := front ++ v :: back }
  | group {h : ClientHello} {v : UInt16} {front back : List UInt16} (hv : isGREASE v = true)
      (hlist : h.curves = front ++ back) : GreaseStep h { h with curves := front ++ v :: back }
  | sigAlg {h : ClientHello} {v : UInt16} {front back : List UInt16} (hv : isGREASE v = true)
      (hlist : h.sigAlgs = front ++ back) : GreaseStep h { h with sigAlgs := front ++ v :: back }
  | version {h : ClientHello} {v : UInt16} {front back : List UInt16} (hv : isGREASE v = true)
      (hlist : h.versions = front ++ back) : GreaseStep h { h with versions := front ++ v :: back }

theorem GreaseStep.alike (hstep : GreaseStep h k) : Alike h k := by
  cases hstep with
  | cipher hv hlist =>
    refine { Alike.refl h with ciphers := ?_ }
    rw [hlist, genuine_insert hv]
  | extension hv hlist =>
    refine { Alike.refl h with extensions := ?_ }
    rw [hlist, genuine_insert hv]
  | group hv hlist => exact { Alike.refl h with }
  | sigAlg hv hlist =>
    refine { Alike.refl h with sigAlgs := ?_ }
    rw [hlist, genuine_insert hv]
  | version hv hlist =>
    refine { Alike.refl h with versions := ?_ }
    rw [hlist, genuine_insert hv]

theorem GreaseStep.ja3_eq (hstep : GreaseStep h k) : ja3 digests h = ja3 digests k := by
  cases hstep with
  | cipher hv hlist => simp only [ja3, joinU16, hlist, genuine_insert hv]
  | extension hv hlist => simp only [ja3, joinU16, hlist, genuine_insert hv]
  | group hv hlist => simp only [ja3, joinU16, hlist, genuine_insert hv]
  | sigAlg | version => rfl

/-- Any number of GREASE values, put in or taken out anywhere. -/
theorem fingerprints_of_grease (hgrease : Relation.EqvGen GreaseStep h k) :
    ja3 digests h = ja3 digests k ∧ ja4 digests h = ja4 digests k := by
  induction hgrease with
  | rel h k hstep => exact ⟨hstep.ja3_eq _, hstep.alike.ja4_eq _⟩
  | refl h => exact ⟨rfl, rfl⟩
  | symm h k _ ih => exact ⟨ih.1.symm, ih.2.symm⟩
  | trans h k l _ _ ihk ihl => exact ⟨ihk.1.trans ihl.1, ihk.2.trans ihl.2⟩

/-- GREASE values, put in or taken out anywhere, change neither fingerprint; the order of the ciphers and of
the extensions does not change JA4. -/
theorem fingerprints_stable (digests : Digests) (h : ClientHello) :
    (∀ k, Relation.EqvGen GreaseStep h k →
      ja3 digests k = ja3 digests h ∧ ja4 digests k = ja4 digests h) ∧
    ∀ ciphers extensions, ciphers.Perm h.ciphers → extensions.Perm h.extensions →
      ja4 digests { h with ciphers := ciphers, extensions := extensions } = ja4 digests h := by
  constructor
  · intro k hgrease
    have hsame := fingerprints_of_grease digests hgrease
    exact ⟨hsame.1.symm, hsame.2.symm⟩
  · intro ciphers extensions hciphers hextensions
    have halike : Alike { h with ciphers := ciphers, extensions := extensions } h :=
      { Alike.refl h with ciphers := hciphers.filter _, extensions := hextensions.filter _ }
    exact halike.ja4_eq _

end RanHoneypot.Trap.Tls
