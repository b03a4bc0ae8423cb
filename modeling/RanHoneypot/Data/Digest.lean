import RanHoneypot.Data.GoText

/-!
# Digests

Fingerprints of clients are digests in hexadecimal form. Nothing that is shown about the fingerprints
depends on how a digest is computed, so the hash functions are parameters.
-/

namespace RanHoneypot.Digest

open GoText

structure Digests where
  md5 : Text → Vector UInt8 16
  sha256 : Text → Vector UInt8 32

/-- Hash functions for runs on fixed inputs. -/
def Digests.constant : Digests := ⟨fun _ ↦ Vector.replicate 16 0, fun _ ↦ Vector.replicate 32 0⟩

/-- The digits in the source are `0123456789abcdef`. -/
def hexDigit (n : ℕ) : UInt8 := UInt8.ofNat (if n < 10 then 48 + n else 87 + n)

/-- `hex.EncodeToString`. -/
def hexEncode (bytes : Text) : Text :=
  bytes.flatMap fun b ↦ [hexDigit (b.toNat / 16), hexDigit (b.toNat % 16)]

end RanHoneypot.Digest
