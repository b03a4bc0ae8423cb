import RanHoneypot.Data.ByteNumbers
import RanHoneypot.Data.GoText
import RanHoneypot.Data.Utf16

/-!
# LOGIN7 packets of the MSSQL trap

The body of a LOGIN7 packet starts with 36 bytes of fixed fields. Then come pairs of two byte numbers,
low byte first: where a text starts in the body, and how many UTF-16 units it has. The first three pairs
are for the host name, the user name and the password; the bytes of the password are scrambled.
-/

namespace RanHoneypot.Trap.Mssql

open GoText ByteNumbers Utf8 Utf16 List

/-! ## The parser -/

variable {text : List ℕ}

variable (body : Text) (b : UInt8) (pos : ℕ)

/-- `binary.LittleEndian.Uint16(body[pos : pos+2])` -/
def uint16LE : ℕ := leValue ((body.drop pos).take 2)

def utf16LEToString (data : Text) : Text :=
  let data := if data.length % 2 ≠ 0 then data.take (data.length - 1) else data
  (decode (unitsLE data)).flatMap encodeRune

def unscramble : UInt8 :=
  let b := b ^^^ 0xA5
  (b <<< 4) ||| (b >>> 4)

def decodeTDSPassword (data : Text) : Text := utf16LEToString (data.map unscramble)

def parseTDSLogin7 : Text × Text :=
  if body.length < 64 then ([], [])
  else
    let usernameOffset := uint16LE body 56
    let usernameLength := uint16LE body 58
    let passwordOffset := uint16LE body 60
    let passwordLength := uint16LE body 62
    if body.length < usernameOffset + usernameLength * 2 then ([], [])
    else
      let username := utf16LEToString ((body.drop usernameOffset).take (usernameLength * 2))
      if body.length < passwordOffset + passwordLength * 2 then (username, [])
      else (username, decodeTDSPassword ((body.drop passwordOffset).take (passwordLength * 2)))

/-! ## The format -/

/-- The text that the pair at `pos` points to ends inside the body. -/
def Inside : Prop :=
  uint16LE body pos + uint16LE body (pos + 2) * 2 ≤ body.length

instance (body : Text) (pos : ℕ) : Decidable (Inside body pos) := Nat.decLe _ _

/-- The bytes that the pair at `pos` points to. -/
def located : Text :=
  (body.drop (uint16LE body pos)).take (uint16LE body (pos + 2) * 2)

/-- How a sender scrambles a byte of the password. -/
def scramble : UInt8 := ((b <<< 4) ||| (b >>> 4)) ^^^ 0xA5

/-- A LOGIN7 body for a user name and a password, both given by their scalar values. -/
structure Login7 (body : Text) (user password : List ℕ) : Prop where
  pairs : 48 ≤ body.length
  hostInside : Inside body 36
  userInside : Inside body 40
  passwordInside : Inside body 44
  userScalars : ∀ r ∈ user, IsScalar r
  passwordScalars : ∀ r ∈ password, IsScalar r
  userData : located body 40 = encodeLE user
  passwordData : located body 44 = (encodeLE password).map scramble

/-- A text of scalar values as a Go string. -/
def goString (text : List ℕ) : Text := text.flatMap encodeRune

/-! ## Texts -/

theorem unscramble_scramble : unscramble (scramble b) = b := by
  exact forall_byte (P := fun b ↦ unscramble (scramble b) = b) (by decide +kernel) b

theorem utf16LEToString_encodeLE (htext : ∀ r ∈ text, IsScalar r) :
    utf16LEToString (encodeLE text) = goString text := by
  have heven : ¬ (encodeLE text).length % 2 ≠ 0 := not_not.mpr (even_length_unitBytes _)
  rw [utf16LEToString, if_neg heven, encodeLE, unitsLE_unitBytes, decode_utf16 htext, goString]

theorem decodeTDSPassword_scrambled (htext : ∀ r ∈ text, IsScalar r) :
    decodeTDSPassword ((encodeLE text).map scramble) = goString text := by
  have hbytes : ((encodeLE text).map scramble).map unscramble = encodeLE text := by
    rw [map_map]
    conv_rhs => rw [← map_id (encodeLE _)]
    exact map_congr_left fun b _ ↦ unscramble_scramble b
  rw [decodeTDSPassword, hbytes, utf16LEToString_encodeLE htext]

/-- The pair at `pos` points to this text, once its bytes are unmasked. -/
def TextAt (unmask : UInt8 → UInt8) (text : List ℕ) : Prop :=
  Inside body pos ∧ decode (unitsLE ((located body pos).map unmask)) = text

theorem goString_inj {other : List ℕ} (htext : ∀ r ∈ text, IsScalar r)
    (hother : ∀ r ∈ other, IsScalar r) (hsame : goString text = goString other) : text = other := by
  have hrunes : ∀ {scalars : List ℕ}, (∀ r ∈ scalars, IsScalar r) →
      (runes (goString scalars)).map Prod.fst = scalars := by
    intro scalars hscalars
    rw [goString, runes_flatMap_encodeRune hscalars, map_map]
    exact map_id _
  calc
    text = (runes (goString _)).map Prod.fst := (hrunes htext).symm
    _ = (runes (goString _)).map Prod.fst := by rw [hsame]
    _ = other := hrunes hother

theorem goString_eq_nil_iff : [] = goString text ↔ text = [] := by
  cases text with
  | nil => exact iff_of_true rfl rfl
  | cons r rest =>
    have hne : goString (r :: rest) ≠ [] := by
      exact append_ne_nil_of_left_ne_nil (encodeRune_ne_nil r) _
    exact iff_of_false (fun h ↦ hne h.symm) (cons_ne_nil _ _)

/-- The parser finds a text at a pair exactly if the format does. -/
theorem utf16LEToString_located_iff {body : Text} {pos : ℕ} (hinside : Inside body pos)
    (unmask : UInt8 → UInt8) (htext : ∀ r ∈ text, IsScalar r) :
    utf16LEToString ((located body pos).map unmask) = goString text ↔ TextAt body pos unmask text := by
  have hlength : (located body pos).length = uint16LE body (pos + 2) * 2 := by
    unfold Inside at hinside
    rw [located, length_take, length_drop]
    omega
  have heven : ¬ ((located body pos).map unmask).length % 2 ≠ 0 := by
    rw [length_map]
    omega
  rw [utf16LEToString, if_neg heven]
  constructor
  · intro hsame
    exact ⟨hinside, goString_inj (isScalar_decode _) htext hsame⟩
  · intro htextAt
    rw [htextAt.2, goString]

/-! ## Captured credentials -/

/-- The readers of the parser decode the user name and the password where the format puts them. The
parser returns them exactly if the pairs at 56 and 60, which the format has for other fields, point to the
same texts, or if what is empty anyway is dropped because a pair is missing or points out of the body. -/
theorem login7_captured_iff {body : Text} {user password : List ℕ} (h : Login7 body user password) :
    (utf16LEToString (located body 40), decodeTDSPassword (located body 44)) =
        (goString user, goString password) ∧
      (parseTDSLogin7 body = (goString user, goString password) ↔
        (user = [] ∧ password = [] ∧ (body.length < 64 ∨ ¬ Inside body 56)) ∨
          (64 ≤ body.length ∧ TextAt body 56 id user ∧
            (TextAt body 60 unscramble password ∨ (password = [] ∧ ¬ Inside body 60)))) := by
  constructor
  · rw [h.userData, h.passwordData, utf16LEToString_encodeLE h.userScalars,
      decodeTDSPassword_scrambled h.passwordScalars]
  · rw [parseTDSLogin7]
    by_cases hshort : body.length < 64
    · rw [if_pos hshort, Prod.mk.injEq, goString_eq_nil_iff, goString_eq_nil_iff]
      constructor
      · intro hempty
        exact .inl ⟨hempty.1, hempty.2, .inl hshort⟩
      · intro hcond
        rcases hcond with hempty | hlong
        · exact ⟨hempty.1, hempty.2.1⟩
        · exact absurd hlong.1 (by omega)
    rw [if_neg hshort]
    by_cases huser : Inside body 56
    · have huserIn : ¬ body.length < uint16LE body 56 + uint16LE body 58 * 2 := not_lt.mpr huser
      have huserText := utf16LEToString_located_iff huser id h.userScalars
      rw [map_id] at huserText
      simp only [if_neg huserIn]
      by_cases hpassword : Inside body 60
      · have hpasswordIn : ¬ body.length < uint16LE body 60 + uint16LE body 62 * 2 :=
          not_lt.mpr hpassword
        have hpasswordText := utf16LEToString_located_iff hpassword unscramble h.passwordScalars
        rw [if_neg hpasswordIn, Prod.mk.injEq]
        change utf16LEToString (located body 56) = _ ∧
          utf16LEToString ((located body 60).map unscramble) = _ ↔ _
        rw [huserText, hpasswordText]
        simp [huser, hpassword, not_lt.mp hshort]
      · have hpasswordOut : body.length < uint16LE body 60 + uint16LE body 62 * 2 :=
          not_le.mp hpassword
        have hnone : ¬ TextAt body 60 unscramble password := fun htextAt ↦ hpassword htextAt.1
        rw [if_pos hpasswordOut, Prod.mk.injEq, goString_eq_nil_iff]
        change utf16LEToString (located body 56) = _ ∧ _ ↔ _
        rw [huserText]
        simp [huser, hpassword, hnone, not_lt.mp hshort]
    · have huserOut : body.length < uint16LE body 56 + uint16LE body 58 * 2 := not_le.mp huser
      have hnone : ¬ TextAt body 56 id user := fun htextAt ↦ huser htextAt.1
      simp only [if_pos huserOut]
      rw [Prod.mk.injEq, goString_eq_nil_iff, goString_eq_nil_iff]
      simp [huser, hnone]

/-- A body whose fields for the user name and the password stand twice. -/
def doubledBody : Text :=
  List.replicate 36 0 ++
    [64, 0, 0, 0, 64, 0, 2, 0, 68, 0, 2, 0, 64, 0, 0, 0, 64, 0, 0, 0, 64, 0, 2, 0, 68, 0, 2, 0] ++
    (encodeLE [0x73, 0x61] ++ (encodeLE [0x70, 0x77]).map scramble)

theorem login7_captured_doubled :
    parseTDSLogin7 doubledBody = (goString [0x73, 0x61], goString [0x70, 0x77]) :=
  (login7_captured_iff (⟨by decide, by decide, by decide, by decide, by decide, by decide, by decide,
    by decide⟩ : Login7 doubledBody [0x73, 0x61] [0x70, 0x77])).2.mpr
    (.inr ⟨by decide, ⟨by decide, by decide⟩, .inl ⟨by decide, by decide⟩⟩)

/-- The body that a client sends for the user `sa` with the password `pw`: nine pairs, the client id,
three more pairs and four bytes in front of the texts. -/
def loginBody : Text :=
  [102, 0, 0, 0] ++ List.replicate 32 0 ++
    [94, 0, 0, 0, 94, 0, 2, 0, 98, 0, 2, 0, 102, 0, 0, 0, 102, 0, 0, 0, 102, 0, 0, 0, 102, 0, 0, 0,
      102, 0, 0, 0, 102, 0, 0, 0] ++
    List.replicate 6 0 ++ [102, 0, 0, 0, 102, 0, 0, 0, 102, 0, 0, 0] ++ List.replicate 4 0 ++
    (encodeLE [0x73, 0x61] ++ (encodeLE [0x70, 0x77]).map scramble)

theorem login_not_captured :
    Login7 loginBody [0x73, 0x61] [0x70, 0x77] ∧ parseTDSLogin7 loginBody = ([], []) :=
  ⟨⟨by decide, by decide, by decide, by decide, by decide, by decide, by decide, by decide⟩,
    by decide⟩

end RanHoneypot.Trap.Mssql
