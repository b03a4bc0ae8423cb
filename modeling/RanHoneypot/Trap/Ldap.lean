import RanHoneypot.Trap.Ber

/-!
# The LDAP trap

A session is a loop that reads one message after the other from the connection. A bind request carries the
version of the protocol, the name and, for simple authentication, the password. The trap records both and
answers that they are invalid.
-/

namespace RanHoneypot.Trap.Ldap

open GoText ByteNumbers List Utf8

/-! ## The session -/

inductive LdapEvent where
  | authAttempt (username password : Text)
  | response (bytes : Text)
deriving DecidableEq

inductive LdapOutcome where
  | unset
  | error
  | timeout
deriving DecidableEq

variable (w : IntWidth) {s rest : Text}

variable (msgID : ℤ) (ending : LdapOutcome)

def berBuildBindResponse (resultCode : ℤ) (matchedDN diagnostic : Text) : Text :=
  let bindResp := berSequence 0x61
    [berInteger 0x0a resultCode, berOctetString 0x04 matchedDN, berOctetString 0x04 diagnostic]
  berSequence 0x30 [berInteger 0x02 msgID, bindResp]

def berBuildSearchDone (resultCode : ℤ) : Text :=
  let searchDone := berSequence 0x65
    [berInteger 0x0a resultCode, berOctetString 0x04 [], berOctetString 0x04 []]
  berSequence 0x30 [berInteger 0x02 msgID, searchDone]

/-- The password of a simple bind; everything else counts as an empty password. -/
def bindPassword (rest : Text) : Text :=
  if 0 < rest.length ∧ rest.headD 0 &&& 0xc0 = 0x80 then
    match berReadTLV w rest with
    | .ok (_, pwBytes) => pwBytes
    | .error _ => []
  else []

def handleBind (data : Text) : List LdapEvent :=
  match berReadInteger data with
  | .error _ => []
  | .ok (_, rest) =>
    match berReadOctetString rest with
    | .error _ => []
    | .ok (name, rest) =>
      [.authAttempt name (bindPassword w rest),
        .response (berBuildBindResponse msgID 49 [] (ofText "Invalid credentials"))]

def handleSearch : List LdapEvent := [.response (berBuildSearchDone msgID 50)]

/-- How a round of the loop ends. -/
inductive LdapRound where
  | leave (outcome : LdapOutcome)
  | next (events : List LdapEvent) (rest : Text)
deriving DecidableEq

/-- `setOutcome`, where `ending` tells how the connection stops delivering bytes. -/
def setOutcome : BerError → LdapOutcome
  | .eof | .unexpectedEOF => ending
  | _ => .error

def round (s : Text) : LdapRound :=
  match berReadElement w s with
  | .error e => .leave (setOutcome ending e)
  | .ok ((tag, msgBytes), s) =>
    if tag ≠ 0x30 then .leave .error
    else
      match berReadInteger msgBytes with
      | .error _ => .leave .error
      | .ok (msgID, rest) =>
        if rest.length = 0 then .leave .error
        else
          let opTag := rest.headD 0
          match berReadTLV w rest with
          | .error _ => .leave .error
          | .ok (_, opValue) =>
            if opTag &&& 0x1f = 0 then .next (handleBind w msgID opValue) s
            else if opTag &&& 0x1f = 2 then .leave .unset
            else if opTag &&& 0x1f = 3 then .next (handleSearch msgID) s
            else .leave .unset

/-- The loop, with a bound on its rounds. -/
def rounds (w : IntWidth) (ending : LdapOutcome) : ℕ → Text → List LdapEvent × LdapOutcome
  | 0, _ => ([], ending)
  | fuel + 1, s =>
    match round w ending s with
    | .leave outcome => ([], outcome)
    | .next events rest =>
      let later := rounds w ending fuel rest
      (events ++ later.1, later.2)

/-- A session on a connection that delivers `s`. Every round takes a byte off it. -/
def handle (s : Text) : List LdapEvent × LdapOutcome :=
  rounds w ending (s.length + 1) s

/-! ## Rounds -/

theorem readFull_length {n : ℕ} {front : Text} (hread : readFull n s = .ok (front, rest)) :
    n + rest.length = s.length := by
  unfold readFull at hread
  split at hread
  · next hn =>
    rw [Except.ok.injEq, Prod.mk.injEq] at hread
    rw [← hread.2, length_drop]
    omega
  · split at hread <;> cases hread

theorem berReadLength_length {w : IntWidth} {length : ℕ}
    (hread : berReadLength w s = .ok (length, rest)) : rest.length < s.length := by
  cases s with
  | nil => cases hread
  | cons b tail =>
    rw [berReadLength_cons] at hread
    split at hread
    · rw [Except.ok.injEq, Prod.mk.injEq] at hread
      rw [← hread.2]
      exact Nat.lt_succ_self _
    · split at hread
      · cases hread
      · split at hread
        · cases hread
        · next buf s hfull =>
          have hlength := readFull_length hfull
          rw [length_cons]
          split at hread
          · cases hread
          · split at hread
            · cases hread
            · rw [Except.ok.injEq, Prod.mk.injEq] at hread
              rw [← hread.2]
              omega

theorem berReadElement_length {w : IntWidth} {element : UInt8 × Text}
    (hread : berReadElement w s = .ok (element, rest)) : rest.length < s.length := by
  unfold berReadElement at hread
  split at hread
  · cases hread
  · next tag behind htag =>
    have hfirst := readFull_length htag
    split at hread
    · cases hread
    · next length later hlength =>
      have hsecond := berReadLength_length hlength
      split at hread
      · cases hread
      · next value last hvalue =>
        have hthird := readFull_length hvalue
        rw [Except.ok.injEq, Prod.mk.injEq] at hread
        rw [← hread.2]
        omega

theorem round_length {w : IntWidth} {ending : LdapOutcome} {events : List LdapEvent}
    (hround : round w ending s = .next events rest) : rest.length < s.length := by
  unfold round at hround
  split at hround
  · cases hround
  · next tag msgBytes later helement =>
    have hlater := berReadElement_length helement
    split at hround
    · cases hround
    · split at hround
      · cases hround
      · simp only at hround
        split at hround
        · cases hround
        · split at hround
          · cases hround
          · split at hround
            · cases hround
              exact hlater
            · split at hround
              · cases hround
              · split at hround
                · cases hround
                  exact hlater
                · cases hround

/-- More rounds than bytes change nothing. -/
theorem rounds_enough (fuel other : ℕ) (s : Text) (hfuel : s.length < fuel)
    (hother : s.length < other) : rounds w ending fuel s = rounds w ending other s := by
  induction fuel generalizing other s with
  | zero => exact absurd hfuel (Nat.not_lt_zero _)
  | succ fuel ih =>
    cases other with
    | zero => exact absurd hother (Nat.not_lt_zero _)
    | succ other =>
      rw [rounds, rounds]
      cases hround : round w ending s with
      | leave outcome => rfl
      | next events rest =>
        have hlength := round_length hround
        simp only [ih other rest (by omega) (by omega)]

/-- A session goes on behind a message that was handled. -/
theorem handle_next {w : IntWidth} {ending : LdapOutcome} {events : List LdapEvent}
    (hround : round w ending s = .next events rest) :
    handle w ending s = (events ++ (handle w ending rest).1, (handle w ending rest).2) := by
  have hlength := round_length hround
  rw [handle, rounds, handle]
  simp only [hround, rounds_enough w _ _ (rest.length + 1) _ hlength (by omega)]

/-! ## Bind requests -/

/-- A bind request with simple authentication. -/
def bindRequest (version : ℤ) (name password : Text) : Text :=
  berSequence 0x30
    [berInteger 0x02 msgID,
      berSequence 0x60
        [berInteger 0x02 version, berOctetString 0x04 name, berOctetString 0x80 password]]

/-- The answer to every bind request. -/
def invalidCredentials : Text :=
  berBuildBindResponse msgID 49 [] (ofText "Invalid credentials")

theorem round_bindRequest {msgID : ℤ} (hmsgID : IsInt64 msgID) (version : ℤ)
    (name password rest : Text)
    (hsize : (bindRequest msgID version name password).length ≤ maxBERLen) :
    round w ending (bindRequest msgID version name password ++ rest) =
      .next (handleBind w msgID
        (berInteger 0x02 version ++ (berOctetString 0x04 name ++ berOctetString 0x80 password))) rest := by
  have hlimit : maxBERLen < 2 ^ 31 := by decide
  have hfields : [berInteger 0x02 version, berOctetString 0x04 name,
      berOctetString 0x80 password].flatten =
        berInteger 0x02 version ++ (berOctetString 0x04 name ++ berOctetString 0x80 password) := by
    simp
  rw [bindRequest, berSequence, berSequence, hfields] at hsize ⊢
  generalize berInteger 0x02 version ++ (berOctetString 0x04 name ++ berOctetString 0x80 password) =
    fields at hsize ⊢
  have hflat : ∀ operation : Text, [berInteger 0x02 msgID, operation].flatten =
      berInteger 0x02 msgID ++ operation := fun operation ↦ by
    rw [flatten_cons, flatten_cons, flatten_nil, append_nil]
  rw [hflat] at hsize ⊢
  simp only [length_cons, length_append] at hsize
  have hoperation := berReadTLV_element w 0x60 (by omega : fields.length < 2 ^ 31) []
  rw [append_nil] at hoperation
  have hbody : (berInteger 0x02 msgID ++ 0x60 :: (berLength fields.length ++ fields)).length ≤
      maxBERLen := by
    rw [length_append, length_cons, length_append]
    omega
  rw [round, berReadElement_element w 0x30 hbody rest]
  simp only [berReadInteger_berInteger hmsgID, hoperation]
  exact if_pos (show (0x60 : UInt8) &&& 0x1f = 0 by decide)

/-- A bind request with a version is captured as far as the name is read. -/
theorem handleBind_of_name {version : ℤ} (hversion : IsInt64 version) {fields name : Text}
    (hname : berReadOctetString fields = .ok (name, rest)) :
    handleBind w msgID (berInteger 0x02 version ++ fields) =
      [.authAttempt name (bindPassword w rest), .response (invalidCredentials msgID)] := by
  rw [handleBind, berReadInteger_berInteger hversion]
  simp only [hname]
  rfl

theorem bindPassword_simple {password : Text} (hpassword : password.length < 2 ^ 31) :
    bindPassword w (berOctetString 0x80 password) = password := by
  have htlv := berReadTLV_element w 0x80 hpassword []
  rw [append_nil] at htlv
  rw [bindPassword, berOctetString, if_pos ⟨Nat.succ_pos _, (by decide : (0x80 : UInt8) &&& 0xc0 = 0x80)⟩]
  simp only [htlv]

/-! ## Names as octet strings -/

/-- The name is taken from the byte behind the tag on, with that byte as its length. -/
theorem berReadOctetString_cons (first : UInt8) (behind : Text) (hlength : first.toNat ≤ behind.length) :
    berReadOctetString (0x04 :: first :: behind) =
      .ok (behind.take first.toNat, behind.drop first.toNat) := by
  rw [berReadOctetString, if_neg (by simp)]
  simp only [getD_cons_succ, getD_cons_zero, drop_succ_cons, drop_zero,
    length_cons]
  rw [if_neg (by omega), show 2 + first.toNat = first.toNat + 1 + 1 by omega, drop_succ_cons,
    drop_succ_cons]

theorem berReadOctetString_short {value : Text} (hvalue : value.length < 0x80) (rest : Text) :
    berReadOctetString (berOctetString 0x04 value ++ rest) = .ok (value, rest) := by
  have hbyte : (UInt8.ofNat _).toNat = value.length := toNat_ofNat_byte (by omega)
  rw [berOctetString, berLength, if_pos hvalue, cons_append, append_assoc,
    singleton_append, berReadOctetString_cons _ _ (by rw [length_append]; omega), hbyte,
    take_left, drop_left]

/-- The long form counts at least one octet. -/
theorem berLength_count {length : ℕ} (hlow : 0x80 ≤ length) :
    ∃ first octets, berLength length = first :: octets ∧ 1 ≤ octets.length ∧
      first.toNat = 0x80 + octets.length := by
  have hfacts := dropZeros_facts 3 (bigEndian 4 length)
  have hlength : (bigEndian 4 length).length = 4 := by simp [bigEndian]
  have hbyte : ∀ n < 5, (UInt8.ofNat (0x80 ||| n)).toNat = 0x80 + n := by decide
  exact ⟨_, _, by rw [berLength, if_neg (by omega)], by omega, hbyte _ (by omega)⟩

/-- The name is read back exactly if its length takes the short form. -/
theorem berReadOctetString_undo_iff (value rest : Text) :
    berReadOctetString (berOctetString 0x04 value ++ rest) = .ok (value, rest) ↔ value.length < 0x80 := by
  constructor
  · intro hread
    by_contra hlong
    rcases berLength_count (not_lt.mp hlong) with ⟨first, octets, hform, hpos, hfirst⟩
    -- what is read is too short by the octets of the length
    rw [berOctetString, hform, cons_append, cons_append, cons_append, append_assoc,
      berReadOctetString_cons _ _ (by simp only [length_append]; omega), Except.ok.injEq,
      Prod.mk.injEq] at hread
    have hsplit := take_append_drop first.toNat (octets ++ (value ++ rest))
    rw [hread.1, hread.2] at hsplit
    have hlength := congrArg List.length hsplit
    simp only [length_append] at hlength
    omega
  · intro hshort
    exact berReadOctetString_short hshort _

/-- A list that its first element shifts onto itself holds nothing else. -/
theorem eq_replicate_of_shift {α : Type*} (a : α) (count : ℕ) (l : List α)
    (hshift : l = a :: l.take count) : l = List.replicate (count + 1) a := by
  induction count generalizing l with
  | zero => rwa [take_zero] at hshift
  | succ count ih =>
    have htail : l.take (count + 1) = a :: (l.take (count + 1)).take count := by
      conv_lhs => rw [hshift, take_succ_cons]
    rw [hshift, ih _ htail]
    rfl

/-- A byte of the name in front of the password hides it. -/
theorem bindPassword_stray (password : Text) :
    bindPassword w (0x81 :: berOctetString 0x80 password) = [] := by
  rw [bindPassword, if_pos ⟨Nat.succ_pos _, (by decide : (0x81 : UInt8) &&& 0xc0 = 0x80)⟩, berOctetString,
    berReadTLV_indefinite]

/-- What a name in long form is captured as. The only name that is read as itself consists of its own
length marker, and the password is lost behind it. -/
theorem long_name_captured {name : Text} (hlong : 0x80 ≤ name.length) (hsize : name.length < 65536)
    (password : Text) :
    ∃ taken rest,
      berReadOctetString (berOctetString 0x04 name ++ berOctetString 0x80 password) = .ok (taken, rest) ∧
      ((taken = name ∧ bindPassword w rest = password) ↔
        name = List.replicate 129 0x81 ∧ password = []) := by
  rw [berOctetString, berLength_short_forms hsize, if_neg (by omega)]
  split
  · have hread := berReadOctetString_cons 0x81
      (UInt8.ofNat name.length :: (name ++ berOctetString 0x80 password))
      (by rw [length_cons, length_append]; exact Nat.succ_le_succ (by omega))
    have hmark : (0x81 : UInt8).toNat = 128 + 1 := rfl
    rw [hmark, take_succ_cons, take_append_of_le_length hlong] at hread
    refine ⟨_, _, hread, ?_⟩
    constructor
    · intro hcaptured
      have hreplicate := eq_replicate_of_shift _ 128 name hcaptured.1.symm
      have hlength : name.length = 129 := by
        rw [hreplicate, length_replicate]
      have hbyte : UInt8.ofNat 129 = 0x81 := by decide
      rw [hlength] at hreplicate
      have hpassword := hcaptured.2
      rw [hreplicate] at hpassword
      exact ⟨hreplicate, hpassword.symm.trans (bindPassword_stray w _)⟩
    · intro hname
      rw [hname.1, hname.2]
      refine ⟨?_, bindPassword_stray w []⟩
      rfl
  · next hsmall =>
    have hread := berReadOctetString_cons 0x82
      (UInt8.ofNat (name.length / 256) :: UInt8.ofNat name.length ::
        (name ++ berOctetString 0x80 password))
      (by
        rw [length_cons, length_cons, length_append]
        exact Nat.succ_le_succ (Nat.succ_le_succ (by omega)))
    have hmark : (0x82 : UInt8).toNat = 128 + 1 + 1 := rfl
    rw [hmark, take_succ_cons, take_succ_cons] at hread
    refine ⟨_, _, hread, ?_⟩
    -- the lengths tell that neither side holds
    constructor
    · intro hcaptured
      have hlength := congrArg List.length hcaptured.1
      rw [length_cons, length_cons, length_take] at hlength
      omega
    · intro hname
      rw [hname.1, length_replicate] at hsmall
      omega

/-- A bind request is captured with its name and password unless the name takes the long form of a
length, and an octet string is read back exactly if it does not. -/
theorem bind_captured_iff (w : IntWidth) (ending : LdapOutcome) {msgID version : ℤ}
    (hmsgID : IsInt64 msgID) (hversion : IsInt64 version) (name password rest : Text)
    (hsize : (bindRequest msgID version name password).length ≤ 64 * 1024) (value behind : Text) :
    (handle w ending (bindRequest msgID version name password ++ rest) =
        (.authAttempt name password :: .response (invalidCredentials msgID) ::
          (handle w ending rest).1, (handle w ending rest).2) ↔
      name.length < 128 ∨ (name = List.replicate 129 0x81 ∧ password = [])) ∧
    (berReadOctetString (berOctetString 0x04 value ++ behind) = .ok (value, behind) ↔
      value.length < 128) := by
  refine ⟨?_, berReadOctetString_undo_iff ..⟩
  have hlengths : name.length < 65536 ∧ password.length < 65536 := by
    simp only [bindRequest, berSequence, berOctetString, flatten_cons, flatten_nil,
      length_cons, length_append] at hsize
    omega
  rw [handle_next (round_bindRequest w _ hmsgID _ _ _ _ hsize)]
  by_cases hshort : name.length < 128
  · rw [handleBind_of_name w msgID hversion (berReadOctetString_short hshort _),
      bindPassword_simple w (by omega)]
    exact iff_of_true rfl (.inl hshort)
  · rcases long_name_captured w (not_lt.mp hshort) hlengths.1 password with
      ⟨taken, behind, hread, hcaptured⟩
    rw [handleBind_of_name w msgID hversion hread]
    simp [hcaptured, hshort]

/-- The first request of a client that then hangs up, and the name on its own. -/
theorem bind_captured_root :
    handle .bits32 .error (bindRequest 1 3 (ofText "cn=root") (ofText "pw") ++ []) =
        (.authAttempt (ofText "cn=root") (ofText "pw") :: .response (invalidCredentials 1) ::
          (handle .bits32 .error []).1, (handle .bits32 .error []).2) ∧
      berReadOctetString (berOctetString 0x04 (ofText "cn=root") ++ []) =
        .ok (ofText "cn=root", []) := by
  have hresult := bind_captured_iff .bits32 .error (show IsInt64 1 by unfold IsInt64; omega)
    (show IsInt64 3 by unfold IsInt64; omega) (ofText "cn=root") (ofText "pw") []
    (by decide +kernel) (ofText "cn=root") []
  exact ⟨hresult.1.mpr (.inl (by decide)), hresult.2.mpr (by decide)⟩

/-- A name of 200 bytes is recorded as its length octet and its first 128 bytes, and the password is
lost. -/
theorem long_name_misread :
    (bindRequest 1 3 (List.replicate 200 (ch 'a')) (ofText "pw")).length ≤ 64 * 1024 ∧
      (handle .bits64 .error (bindRequest 1 3 (List.replicate 200 (ch 'a')) (ofText "pw"))).1 =
        [.authAttempt (0xc8 :: List.replicate 128 (ch 'a')) [], .response (invalidCredentials 1)] ∧
      berReadOctetString (berOctetString 0x04 (List.replicate 200 (ch 'a'))) =
        .ok (0xc8 :: List.replicate 128 (ch 'a'), List.replicate 72 (ch 'a')) := by
  decide +kernel

end RanHoneypot.Trap.Ldap
