import RanHoneypot.Data.GoReplacer

/-!
# User names in SASL payloads

A client that authenticates sends a payload: with PLAIN the identity it wants to act as, its user name and
its password, separated by NUL bytes; with SCRAM the first message of that exchange, whose attributes are
separated by commas. The trap wants the user name only, and only from the first kilobyte. The password of
a PLAIN payload must leave no trace in what it takes, wherever the cut falls.
-/

namespace RanHoneypot.Trap.Mongo

open GoText List Utf8

def maxMongoSASLPayload : ℕ := 1024

/-- The texts that the replacer of the trap takes back. -/
def scramPairs : List (Text × Text) :=
  [(ofText "=2C", ofText ","), (ofText "=3D", ofText "=")]

/-- The user name in the part of a payload that is looked at. -/
def saslUser (payload : Text) : Text :=
  if 0 ∈ payload then
    match payload.splitOn 0 with
    | [_, user, _] => user
    | _ => []
  else
    match (payload.splitOn (ch ',')).find? (ofText "n=").isPrefixOf with
    | some f => GoReplacer.replace scramPairs (f.drop 2)
    | none => []

def mongoSASLUser (payload : Text) : Text := saslUser (payload.take maxMongoSASLPayload)

/-! ## Payloads -/

def plainPayload (authzid authcid passwd : Text) : Text := authzid ++ 0 :: (authcid ++ 0 :: passwd)

/-- The flag for channel binding at the beginning of a SCRAM message. -/
inductive ChannelBinding where
  | n
  | y
  | p (name : Text)

def ChannelBinding.encode : ChannelBinding → Text
  | n => ofText "n"
  | y => ofText "y"
  | p name => ofText "p=" ++ name

/-- The codes of comma and equals sign. -/
def scramCode (b : UInt8) : Text :=
  if b = ch ',' then ofText "=2C" else if b = ch '=' then ofText "=3D" else [b]

def scramName (name : Text) : Text := name.flatMap scramCode

/-- What may stand in an attribute. -/
def Clean (part : Text) : Prop := 0 ∉ part ∧ ch ',' ∉ part

instance (part : Text) : Decidable (Clean part) := inferInstanceAs (Decidable (_ ∧ _))

/-- A client-first message without its user name. Names are written with their codes; the other parts are
clean as they are. -/
structure ClientFirst where
  binding : ChannelBinding
  authzid : Option Text
  reserved : Option Text
  nonce : Text
  extensions : List Text
  authzid_nul : ∀ name ∈ authzid, 0 ∉ name
  clean : ∀ part ∈ binding.encode :: nonce :: (reserved.toList ++ extensions), Clean part

namespace ClientFirst

/-- The attributes before the user name: the binding, the identity to act as, and a reserved one. -/
def before (m : ClientFirst) : List Text :=
  [m.binding.encode, (m.authzid.map fun name ↦ ofText "a=" ++ scramName name).getD []] ++
    m.reserved.toList.map (ofText "m=" ++ ·)

def fields (m : ClientFirst) (user : Text) : List Text :=
  m.before ++ (ofText "n=" ++ scramName user) :: (ofText "r=" ++ m.nonce) :: m.extensions

def encode (m : ClientFirst) (user : Text) : Text := [ch ','].intercalate (m.fields user)

end ClientFirst

/-! ## PLAIN -/

section

variable {authzid authcid passwd : Text} (hauthzid : 0 ∉ authzid) (hauthcid : 0 ∉ authcid)
  (hpasswd : 0 ∉ passwd)

include hauthzid hauthcid hpasswd

theorem saslUser_plain : saslUser (plainPayload authzid authcid passwd) = authcid := by
  have hparts : ∀ part ∈ [authzid, authcid, passwd], 0 ∉ part := by
    simp [hauthzid, hauthcid, hpasswd]
  have hform : plainPayload authzid authcid passwd = [0].intercalate [authzid, authcid, passwd] := by
    simp [plainPayload]
  have hsplit : (plainPayload authzid authcid passwd).splitOn 0 = [authzid, authcid, passwd] := by
    rw [hform]
    exact splitOn_intercalate 0 hparts (cons_ne_nil _ _)
  rw [saslUser, if_pos (by simp [plainPayload]), hsplit]

/-- The user name is taken if its end is seen. Otherwise what is seen ends before the password. -/
theorem mongoSASLUser_plain :
    mongoSASLUser (plainPayload authzid authcid passwd) =
      if (authzid ++ 0 :: authcid).length < maxMongoSASLPayload then authcid
      else saslUser ((authzid ++ 0 :: authcid).take maxMongoSASLPayload) := by
  have hform : plainPayload authzid authcid passwd = (authzid ++ 0 :: authcid) ++ 0 :: passwd := by
    rw [plainPayload, append_assoc, cons_append]
  unfold mongoSASLUser
  split
  · next hshort =>
    rcases Nat.exists_eq_add_of_lt hshort with ⟨left, hleft⟩
    have hcut : (plainPayload authzid authcid passwd).take maxMongoSASLPayload =
        plainPayload authzid authcid (passwd.take left) := by
      rw [hform, hleft, Nat.add_assoc, take_length_add_append, take_succ_cons, plainPayload,
        append_assoc, cons_append]
    rw [hcut]
    exact saslUser_plain hauthzid hauthcid fun hmem ↦ hpasswd (mem_of_mem_take hmem)
  · next hlong =>
    rw [hform, take_append_of_le_length (not_lt.mp hlong)]

end

/-! ## SCRAM -/

theorem undoes_scramCode : GoReplacer.Undoes scramPairs scramCode := by
  intro b rest
  by_cases hcomma : b = ch ','
  · refine .inr ⟨?_, ?_⟩
    · rw [scramCode, if_pos hcomma]
      decide
    · rw [hcomma]
      rfl
  · by_cases hequals : b = ch '='
    · refine .inr ⟨?_, ?_⟩
      · rw [scramCode, if_neg hcomma, if_pos hequals]
        decide
      · rw [hequals]
        rfl
    · refine .inl ⟨by rw [scramCode, if_neg hcomma, if_neg hequals], ?_⟩
      have hfirst : (ch '=' == b) = false := beq_false_of_ne (Ne.symm hequals)
      have hpair : ∀ tail : Text, (ch '=' :: tail).isPrefixOf (b :: rest) = false := by
        intro tail
        rw [isPrefixOf_cons_cons, hfirst, Bool.false_and]
      have hcommaCode : (ofText "=2C").isPrefixOf (b :: rest) = false := hpair _
      have hequalsCode : (ofText "=3D").isPrefixOf (b :: rest) = false := hpair _
      simp [scramPairs, hcommaCode, hequalsCode]

theorem Clean.append {front part : Text} (hfront : Clean front) (hpart : Clean part) :
    Clean (front ++ part) := by
  unfold Clean at *
  simp only [mem_append, not_or]
  exact ⟨⟨hfront.1, hpart.1⟩, hfront.2, hpart.2⟩

theorem clean_scramName {name : Text} (hname : 0 ∉ name) : Clean (scramName name) := by
  have hcodes : Clean (ofText "=2C") ∧ Clean (ofText "=3D") := by decide
  have hcode : ∀ b ∈ name, Clean (scramCode b) := by
    intro b hb
    unfold scramCode
    split
    · exact hcodes.1
    · next hcomma =>
      split
      · exact hcodes.2
      · unfold Clean
        simp only [mem_singleton]
        exact ⟨fun hzero ↦ hname (hzero ▸ hb), Ne.symm hcomma⟩
  constructor
  · intro hmem
    rcases mem_flatMap.mp hmem with ⟨b, hb, hin⟩
    exact (hcode b hb).1 hin
  · intro hmem
    rcases mem_flatMap.mp hmem with ⟨b, hb, hin⟩
    exact (hcode b hb).2 hin

namespace ClientFirst

theorem clean_before (m : ClientFirst) : ∀ field ∈ m.before, Clean field := by
  have hclean := m.clean
  simp only [forall_mem_cons, forall_mem_append] at hclean
  intro field hfield
  simp only [before, cons_append, nil_append, mem_cons, mem_map] at hfield
  rcases hfield with hfield | hfield | ⟨text, htext, hfield⟩
  · rw [hfield]
    exact hclean.1
  · rw [hfield]
    cases hauthzid : m.authzid with
    | none => exact ⟨not_mem_nil, not_mem_nil⟩
    | some name =>
      have hname : 0 ∉ name := m.authzid_nul name (by rw [hauthzid]; rfl)
      exact (show Clean (ofText _) by decide).append (clean_scramName hname)
  · rw [← hfield]
    exact (show Clean (ofText _) by decide).append (hclean.2.2.1 _ htext)

theorem clean_fields (m : ClientFirst) {user : Text} (huser : 0 ∉ user) :
    ∀ field ∈ m.fields user, Clean field := by
  have hclean := m.clean
  simp only [forall_mem_cons, forall_mem_append] at hclean
  rw [fields, forall_mem_append, forall_mem_cons, forall_mem_cons]
  exact ⟨m.clean_before, (show Clean (ofText _) by decide).append (clean_scramName huser),
    (show Clean (ofText _) by decide).append hclean.2.1, hclean.2.2.2⟩

/-- The attribute with the user name is the first one with its tag. -/
theorem find?_fields (m : ClientFirst) (user : Text) :
    (m.fields user).find? (ofText "n=").isPrefixOf = some (ofText "n=" ++ scramName user) := by
  have hbefore : ∀ field ∈ m.before, ¬ (ofText "n=").isPrefixOf field = true := by
    intro field hfield
    simp only [before, cons_append, nil_append, mem_cons, mem_map] at hfield
    rcases hfield with hfield | hfield | ⟨text, _, hfield⟩
    · rw [hfield]
      cases m.binding <;> exact Bool.false_ne_true
    · rw [hfield]
      cases m.authzid <;> exact Bool.false_ne_true
    · rw [← hfield]
      exact Bool.false_ne_true
  rw [fields, find?_append, find?_eq_none.mpr hbefore, Option.none_or]
  rfl

end ClientFirst

theorem mongoSASLUser_scram (m : ClientFirst) {user : Text} (huser : 0 ∉ user)
    (hlength : (m.encode user).length ≤ maxMongoSASLPayload) : mongoSASLUser (m.encode user) = user := by
  have hclean := m.clean_fields huser
  have hsplit : (m.encode _).splitOn (ch ',') = m.fields user :=
    splitOn_intercalate (ch ',') (fun field hfield ↦ (hclean field hfield).2)
      (by rw [ClientFirst.fields]; simp)
  have hname : (ofText "n=" ++ scramName user).drop 2 = scramName user := rfl
  have hnul : 0 ∉ m.encode user :=
    notMem_join (by decide) fun field hfield ↦ (hclean field hfield).1
  rw [mongoSASLUser, take_of_length_le hlength, saslUser, if_neg hnul, hsplit, m.find?_fields]
  exact GoReplacer.replace_flatMap undoes_scramCode _

/-- The password of a PLAIN payload does not matter, and the user name of a SCRAM message comes out as the
client put it in. -/
theorem sasl_user_extraction (authzid authcid passwd other : Text) (m : ClientFirst) (user : Text)
    (hauthzid : 0 ∉ authzid) (hauthcid : 0 ∉ authcid) (hpasswd : 0 ∉ passwd) (hother : 0 ∉ other)
    (huser : 0 ∉ user) (hlength : (m.encode user).length ≤ maxMongoSASLPayload) :
    mongoSASLUser (plainPayload authzid authcid passwd) =
        mongoSASLUser (plainPayload authzid authcid other) ∧
      mongoSASLUser (m.encode user) = user := by
  constructor
  · rw [mongoSASLUser_plain hauthzid hauthcid hpasswd, mongoSASLUser_plain hauthzid hauthcid hother]
  · exact mongoSASLUser_scram m huser hlength

/-- A message without channel binding, for the user `a=b,c`. -/
theorem sasl_user_extraction_escaped :
    mongoSASLUser (plainPayload [] (ofText "root") (ofText "toor")) =
        mongoSASLUser (plainPayload [] (ofText "root") []) ∧
      mongoSASLUser (ofText "n,,n=a=3Db=2Cc,r=fyko") = ofText "a=b,c" :=
  sasl_user_extraction [] (ofText _) (ofText _) []
    ⟨.n, none, none, ofText "fyko", [], fun _ h ↦ absurd h (by simp), by decide⟩
    (ofText "a=b,c") (by decide) (by decide) (by decide) (by decide) (by decide) (by decide)

/-- A NUL in the user name turns the message into one that looks like PLAIN and is not understood. -/
theorem nul_user_lost :
    ClientFirst.encode
        ⟨.n, none, none, ofText "fyko", [], fun _ h ↦ absurd h (by simp), by decide⟩ [97, 0, 98] =
          ofText "n,,n=a" ++ 0 :: ofText "b,r=fyko" ∧
      mongoSASLUser (ofText "n,,n=a" ++ 0 :: ofText "b,r=fyko") = [] := by
  decide

end RanHoneypot.Trap.Mongo
