import RanHoneypot.Data.GoSlice

/-!
# Handshake responses of MySQL clients

A client answers the greeting with its capability flags, 28 bytes of fixed fields, the user name, the
authentication data, and, depending on the flags, a database name and the name of the plugin that made the
authentication data. The flags also say how the authentication data is written: behind a length-encoded
number, behind one length byte, or with a NUL at its end. Two functions of the trap walk over this packet:
`parseHandshakeResponse` takes the user name and the authentication data, and `mysqlClientPluginName`
skips them to find the plugin name.
-/

namespace RanHoneypot.Trap.Mysql

open GoText ByteNumbers List

/-! ## Flags -/

variable (data : Text) (caps pos : ℕ)

def clientConnectWithDB : ℕ := 0x8

def clientSecureConnection : ℕ := 0x8000

def clientPluginAuth : ℕ := 0x00080000

def clientPluginAuthLenenc : ℕ := 0x00200000

/-- `binary.LittleEndian.Uint32(data[:4])` -/
def capabilities : ℕ := leValue (data.take 4)

/-! ## The walks of the trap -/

/-- A text without one NUL at its end. -/
def stripNul (s : Text) : Text := if s.getLast? = some 0 then s.dropLast else s

def parseHandshakeResponse : Text × Text :=
  if data.length < 32 then ([], [])
  else
    let username := (data.drop 32).takeWhile (· ≠ 0)
    let pos := 32 + username.length + 1
    if data.length ≤ pos then (username, [])
    else
      let authLen := (data.getD pos 0).toNat
      if data.length < pos + 1 + authLen then (username, [])
      else (username, stripNul ((data.drop (pos + 1)).take authLen))

/-- The position of the first NUL at or behind a position. -/
def nul : Option ℕ :=
  if data.length < pos then none else ((data.drop pos).findIdx? (· = 0)).map (pos + ·)

/-- The position behind the authentication data, which starts at `pos`. -/
def skipAuth : Option ℕ :=
  if caps &&& clientPluginAuthLenenc ≠ 0 then
    if data.length ≤ pos ∨ 251 ≤ (data.getD pos 0).toNat then none
    else some (pos + 1 + (data.getD pos 0).toNat)
  else if caps &&& clientSecureConnection ≠ 0 then
    if data.length ≤ pos then none else some (pos + 1 + (data.getD pos 0).toNat)
  else (nul data pos).map (· + 1)

/-- The position behind the database name, if there is one. -/
def skipDatabase : Option ℕ :=
  if caps &&& clientConnectWithDB ≠ 0 then (nul data pos).map (· + 1) else some pos

def mysqlClientPluginName : Text :=
  if data.length < 33 then []
  else
    let caps := capabilities data
    if caps &&& clientPluginAuth = 0 then []
    else
      let found : Option ℕ := do
        let nameEnd ← nul data 32
        let authEnd ← skipAuth data caps (nameEnd + 1)
        skipDatabase data caps authEnd
      match found with
      | none => []
      | some pos =>
        if data.length ≤ pos then []
        else
          let e := (nul data pos).getD data.length
          if 64 < e - pos then [] else (data.drop pos).take (e - pos)

/-! ## The format -/

/-- A length-encoded number. -/
def lenenc (n : ℕ) : Text :=
  if n < 251 then [UInt8.ofNat n]
  else if n < 2 ^ 16 then 0xFC :: littleEndian 2 n
  else if n < 2 ^ 24 then 0xFD :: littleEndian 3 n
  else 0xFE :: littleEndian 8 n

/-- Which authentication data a client can send under its flags. -/
def AuthLegal (auth : Text) : Prop :=
  if caps &&& clientPluginAuthLenenc ≠ 0 then auth.length < 2 ^ 64
  else if caps &&& clientSecureConnection ≠ 0 then auth.length ≤ 255
  else 0 ∉ auth

instance (caps : ℕ) (auth : Text) : Decidable (AuthLegal caps auth) :=
  inferInstanceAs (Decidable (if caps &&& clientPluginAuthLenenc ≠ 0 then auth.length < 2 ^ 64
    else if caps &&& clientSecureConnection ≠ 0 then auth.length ≤ 255 else 0 ∉ auth))

/-- A handshake response; `rest` stands for the connection attributes. -/
structure HandshakeResponse where
  caps : ℕ
  caps_lt : caps < 2 ^ 32
  fixed : Text
  fixed_length : fixed.length = 28
  username : Text
  username_free : 0 ∉ username
  auth : Text
  auth_legal : AuthLegal caps auth
  database : Text
  database_free : 0 ∉ database
  plugin : Text
  plugin_free : 0 ∉ plugin
  rest : Text

namespace HandshakeResponse

variable (r : HandshakeResponse)

/-- The authentication data on the wire. -/
def authField : Text :=
  if r.caps &&& clientPluginAuthLenenc ≠ 0 then lenenc r.auth.length ++ r.auth
  else if r.caps &&& clientSecureConnection ≠ 0 then UInt8.ofNat r.auth.length :: r.auth
  else r.auth ++ [0]

def databaseField : Text :=
  if r.caps &&& clientConnectWithDB ≠ 0 then r.database ++ [0] else []

def pluginField : Text :=
  if r.caps &&& clientPluginAuth ≠ 0 then r.plugin ++ [0] else []

def encode : Text :=
  littleEndian 4 r.caps ++ r.fixed ++
    (r.username ++ 0 :: (r.authField ++ (r.databaseField ++ (r.pluginField ++ r.rest))))

/-- The capability flags and the fixed fields. -/
def head : Text := littleEndian 4 r.caps ++ r.fixed

theorem length_head : r.head.length = 32 := by
  rw [head, length_append, length_littleEndian, r.fixed_length]

theorem capabilities_encode : capabilities r.encode = r.caps := by
  have htake : r.encode.take 4 = littleEndian 4 r.caps := by
    exact take_left' (length_littleEndian 4 _)
  rw [capabilities, htake, leValue_littleEndian]
  exact Nat.mod_eq_of_lt r.caps_lt

end HandshakeResponse

/-! ## Positions -/

variable {auth : Text}

/-- What `parseHandshakeResponse` takes as the authentication data from the bytes behind the user name. -/
def authOf : Text → Text
  | [] => []
  | authLen :: behind =>
    if behind.length < authLen.toNat then [] else stripNul (behind.take authLen.toNat)

theorem takeWhile_free {s : Text} (hs : 0 ∉ s) (rest : Text) :
    (s ++ 0 :: rest).takeWhile (· ≠ 0) = s := by
  have hall : ∀ b ∈ s, decide (b ≠ 0) = true := fun b hb ↦
    decide_eq_true fun hzero ↦ hs (hzero ▸ hb)
  rw [takeWhile_append_of_pos hall, takeWhile_cons_of_neg (by simp), append_nil]

theorem parseHandshakeResponse_layout {head username : Text} (hhead : head.length = 32)
    (husername : 0 ∉ username) (tail : Text) :
    parseHandshakeResponse (head ++ (username ++ 0 :: tail)) = (username, authOf tail) := by
  have hlength : (head ++ (username ++ 0 :: tail)).length = 32 + username.length + 1 + tail.length := by
    simp only [length_append, length_cons]
    omega
  have hdrop : (head ++ (username ++ 0 :: tail)).drop 32 = username ++ 0 :: tail := by
    rw [← hhead, drop_left]
  have htail : ∀ i, (head ++ (username ++ 0 :: tail)).drop (32 + username.length + 1 + i) =
      tail.drop i := by
    intro i
    rw [Nat.add_assoc, Nat.add_assoc, ← drop_drop, hdrop, ← drop_drop, drop_left,
      Nat.add_comm, drop_succ_cons]
  have hget : ∀ i, (head ++ (username ++ 0 :: tail)).getD (32 + username.length + 1 + i) 0 =
      tail.getD i 0 := by
    intro i
    rw [getD_eq_getElem?_getD, getD_eq_getElem?_getD, ← getElem?_drop, htail 0, drop_zero]
  rw [parseHandshakeResponse, hlength, if_neg (by omega), hdrop, takeWhile_free husername]
  simp only [htail 1]
  have hfirst := hget 0
  rw [hfirst]
  cases tail with
  | nil => rw [if_pos (by simp), authOf]
  | cons authLen behind =>
    rw [length_cons, if_neg (by omega), getD_cons_zero, drop_succ_cons, drop_zero,
      authOf]
    by_cases hshort : behind.length < authLen.toNat
    · rw [if_pos (by omega), if_pos hshort]
    · rw [if_neg (by omega), if_neg hshort]

/-- The next NUL is the one that ends a field. -/
theorem nul_field (front : Text) {s : Text} (hs : 0 ∉ s) (rest : Text) :
    nul (front ++ (s ++ 0 :: rest)) front.length = some (front.length + s.length) := by
  have hindex := GoSlice.indexByte_front hs rest
  rw [GoSlice.indexByte] at hindex
  rw [nul, if_neg (by simp), drop_left, hindex]
  rfl

/-! ## Authentication data -/

theorem length_stripNul (s : Text) :
    (stripNul s).length ≤ s.length ∧ s.length ≤ (stripNul s).length + 1 := by
  unfold stripNul
  split
  · rw [length_dropLast]
    omega
  · omega

theorem stripNul_free {s : Text} (hs : 0 ∉ s) : stripNul s = s := by
  rw [stripNul, if_neg]
  intro hlast
  exact hs (mem_of_getLast? hlast)

/-- A length byte in front is all that the trap knows. -/
theorem authOf_prefixed (hauth : auth.length < 256) (more : Text) :
    authOf (UInt8.ofNat auth.length :: (auth ++ more)) = stripNul auth := by
  have hbyte : (UInt8.ofNat _).toNat = auth.length := toNat_ofNat_byte hauth
  rw [authOf, hbyte, if_neg (by simp), take_left]

theorem length_authOf_cons (authLen : UInt8) (behind : Text) :
    (authOf (authLen :: behind)).length ≤ authLen.toNat := by
  rw [authOf]
  split
  · exact Nat.zero_le _
  · have hstrip := (length_stripNul (behind.take authLen.toNat)).1
    have htake := length_take_le authLen.toNat behind
    omega

/-- The first byte of data that ends with a NUL is taken for its length. -/
theorem authOf_terminated_iff (hauth : 0 ∉ auth) (more : Text) :
    authOf (auth ++ 0 :: more) = stripNul auth ↔ auth = [] := by
  rw [stripNul_free hauth]
  cases auth with
  | nil => exact iff_of_true rfl rfl
  | cons authLen behind =>
    refine iff_of_false ?_ (cons_ne_nil _ _)
    rw [cons_append, authOf]
    by_cases hshort : (behind ++ 0 :: more).length < authLen.toNat
    · rw [if_pos hshort]
      exact fun h ↦ cons_ne_nil _ _ h.symm
    rw [if_neg hshort]
    intro htaken
    have hstrip := length_stripNul ((behind ++ 0 :: more).take authLen.toNat)
    have hlength := congrArg List.length htaken
    rw [length_cons] at hlength
    rw [length_append, length_cons] at hshort
    rw [length_take, length_append] at hstrip
    -- the NUL lies inside of what is taken, in front of its last byte or at its end
    have hmore : behind.length < authLen.toNat := by omega
    by_cases hnext : authLen.toNat = behind.length + 1
    · have htake : (behind ++ 0 :: more).take authLen.toNat = behind ++ [0] := by
        rw [hnext, take_length_add_append]
        rfl
      rw [htake, stripNul, if_pos (by simp), dropLast_concat] at hlength
      omega
    · have hzero : (0 : UInt8) ∈ stripNul ((behind ++ 0 :: more).take authLen.toNat) := by
        have htake : (behind ++ 0 :: more).take authLen.toNat =
            (behind ++ [0]) ++ more.take (authLen.toNat - (behind.length + 1)) := by
          rw [show authLen.toNat = behind.length + (authLen.toNat - (behind.length + 1) + 1) by omega,
            take_length_add_append, take_succ_cons, append_assoc]
          congr 3
          omega
        have hne : more.take (authLen.toNat - (behind.length + 1)) ≠ [] := by
          apply ne_nil_of_length_pos
          rw [length_take]
          omega
        rw [htake, stripNul]
        split
        · rw [dropLast_append_of_ne_nil hne]
          exact mem_append_left _ (by simp)
        · exact mem_append_left _ (by simp)
      rw [htaken] at hzero
      exact hauth hzero

/-- Two bytes in turn. -/
def alternating : ℕ → UInt8 → UInt8 → Text
  | 0, _, _ => []
  | count + 1, a, b => a :: alternating count b a

theorem eq_alternating {count : ℕ} {a b : UInt8} {l : Text} (hshift : l = a :: b :: l.take count) :
    l = alternating (count + 2) a b := by
  induction count using Nat.twoStepInduction generalizing l with
  | zero => rwa [take_zero] at hshift
  | one =>
    have hone : l.take 1 = [a] := by
      rw [hshift]
      rfl
    rw [hshift, hone]
    rfl
  | more count ih _ =>
    have htail : l.take (count + 2) = a :: b :: (l.take (count + 2)).take count := by
      conv_lhs => rw [hshift, take_succ_cons, take_succ_cons]
    rw [hshift, ih htail]
    rfl

/-- The same for a text that loses its last byte. -/
theorem dropLast_eq_alternating {count : ℕ} {a b : UInt8} {l : Text}
    (hshift : a :: b :: l.take count = l.dropLast) : l.dropLast = alternating (count + 2) a b := by
  have hlength := congrArg List.length hshift
  simp only [length_cons, length_take, length_dropLast] at hlength
  have hfront : l.dropLast.take count = l.take count := by
    rw [dropLast_eq_take, take_take, Nat.min_eq_left (by omega)]
  apply eq_alternating
  rw [hfront]
  exact hshift.symm

/-- The long forms of a length-encoded number start with a byte that is no length of theirs. -/
theorem lenenc_long {n : ℕ} (hn : 251 ≤ n) : ∃ first octets, lenenc n = first :: octets ∧
    first.toNat ≤ 254 := by
  rw [lenenc, if_neg (by omega)]
  split
  · exact ⟨_, _, rfl, by decide⟩
  · split
    · exact ⟨_, _, rfl, by decide⟩
    · exact ⟨_, _, rfl, by decide⟩

/-- The data that is taken from 252 bytes on, although its length takes three bytes. -/
theorem taken_alternating_iff (hlow : 251 ≤ auth.length) (hhigh : auth.length < 256) :
    stripNul (UInt8.ofNat auth.length :: 0 :: auth.take 250) = stripNul auth ↔
      auth = alternating 251 0xFB 0 ∨ auth = alternating 252 0xFC 0 := by
  constructor
  · intro htaken
    have hshorter : (UInt8.ofNat auth.length :: 0 :: auth.take 250).dropLast =
        UInt8.ofNat auth.length :: 0 :: auth.take 249 := by
      rw [dropLast_eq_take]
      simp only [length_cons, length_take, Nat.min_eq_left (show 250 ≤ auth.length by omega)]
      rw [take_succ_cons, take_succ_cons, take_take]
      rfl
    have hendsFC : (alternating 252 0xFC 0).getLast? = some 0 := by decide +kernel
    have hendsFD : (alternating 252 0xFD 0).getLast? = some 0 := by decide +kernel
    unfold stripNul at htaken
    split at htaken
    · rw [hshorter] at htaken
      split at htaken
      · next hlast =>
        -- both lose a NUL: 252 bytes
        have hlength := congrArg List.length htaken
        simp only [length_cons, length_take, length_dropLast] at hlength
        have hsize : auth.length = 252 := by omega
        have hauth : auth = auth.dropLast ++ [0] := (dropLast_append_getLast? 0 hlast).symm
        rw [hsize] at htaken
        rw [dropLast_eq_alternating htaken] at hauth
        exact .inr (hauth.trans (by decide +kernel))
      · have hlength := congrArg List.length htaken
        simp only [length_cons, length_take] at hlength
        have hsize : auth.length = 251 := by omega
        rw [hsize] at htaken
        exact .inl (eq_alternating htaken.symm)
    · next hkeep =>
      split at htaken
      · have hlength := congrArg List.length htaken
        simp only [length_cons, length_take, length_dropLast] at hlength
        have hsize : auth.length = 253 := by omega
        rw [htaken] at hkeep
        rw [dropLast_eq_alternating htaken] at hkeep
        exact absurd hendsFD hkeep
      · have hlength := congrArg List.length htaken
        simp only [length_cons, length_take] at hlength
        have hsize : auth.length = 252 := by omega
        rw [htaken] at hkeep
        rw [eq_alternating htaken.symm] at hkeep
        exact absurd hendsFC hkeep
  · intro hauth
    rcases hauth with hauth | hauth
    · rw [hauth]
      decide +kernel
    · rw [hauth]
      decide +kernel

/-- Length-encoded data that needs more than one length byte is captured only by accident. -/
theorem authOf_lenenc_iff (hauth : 251 ≤ auth.length) (more : Text) :
    authOf (lenenc auth.length ++ (auth ++ more)) = stripNul auth ↔
      auth = alternating 251 0xFB 0 ∨ auth = alternating 252 0xFC 0 := by
  by_cases hsmall : auth.length < 256
  · have hform : lenenc auth.length = [0xFC, UInt8.ofNat auth.length, 0] := by
      rw [lenenc, if_neg (by omega), if_pos (by omega), littleEndian, show auth.length / 256 = 0 by omega]
      rfl
    have hmark : (0xFC : UInt8).toNat = 250 + 1 + 1 := rfl
    rw [hform, ← taken_alternating_iff hauth hsmall, cons_append, cons_append,
      singleton_append, authOf, hmark, if_neg (by simp; omega), take_succ_cons,
      take_succ_cons, take_append_of_le_length (by omega)]
  · rcases lenenc_long hauth with ⟨first, octets, hform, hfirst⟩
    have hlength := length_authOf_cons first (octets ++ (auth ++ more))
    have hstrip := (length_stripNul auth).2
    refine iff_of_false ?_ ?_
    · intro htaken
      rw [hform, cons_append] at htaken
      rw [htaken] at hlength
      omega
    · intro hacc
      rcases hacc with hacc | hacc <;> exact hsmall (by rw [hacc]; decide +kernel)

/-! ## The two walks -/

theorem getD_front (front : Text) (b : UInt8) (rest : Text) : (front ++ b :: rest).getD front.length 0 = b := by
  rw [getD_eq_getElem?_getD, getElem?_append_right le_rfl, Nat.sub_self]
  rfl

namespace HandshakeResponse

variable (r : HandshakeResponse)

theorem skipAuth_authField (front rest : Text)
    (hshort : r.caps &&& clientPluginAuthLenenc = 0 ∨ r.auth.length < 251) :
    skipAuth (front ++ (r.authField ++ rest)) r.caps front.length =
      some (front.length + r.authField.length) := by
  have hlegal := r.auth_legal
  unfold AuthLegal at hlegal
  unfold skipAuth authField
  by_cases hlenenc : r.caps &&& clientPluginAuthLenenc ≠ 0
  · have hlt : r.auth.length < 251 := hshort.resolve_left hlenenc
    have hbyte : (UInt8.ofNat _).toNat = r.auth.length := toNat_ofNat_byte (by omega)
    rw [if_pos hlenenc, if_pos hlenenc, lenenc, if_pos hlt, singleton_append, cons_append,
      getD_front, if_neg (by simp; omega)]
    simp only [length_cons, Option.some.injEq]
    omega
  rw [if_neg hlenenc] at hlegal
  rw [if_neg hlenenc, if_neg hlenenc]
  by_cases hsecure : r.caps &&& clientSecureConnection ≠ 0
  · rw [if_pos hsecure] at hlegal
    have hbyte : (UInt8.ofNat _).toNat = r.auth.length := toNat_ofNat_byte (by omega)
    rw [if_pos hsecure, if_pos hsecure, cons_append, getD_front, if_neg (by simp)]
    simp only [length_cons, Option.some.injEq]
    omega
  · rw [if_neg hsecure] at hlegal
    rw [if_neg hsecure, if_neg hsecure, append_assoc, singleton_append, nul_field _ hlegal]
    simp [Nat.add_assoc]

theorem skipDatabase_databaseField (front rest : Text) :
    skipDatabase (front ++ (r.databaseField ++ rest)) r.caps front.length =
      some (front.length + r.databaseField.length) := by
  unfold skipDatabase databaseField
  split
  · rw [append_assoc, singleton_append, nul_field _ r.database_free]
    simp [Nat.add_assoc]
  · rfl

/-! ### The packet as it looks at each position of the walk -/

/-- The packet up to the authentication data. -/
def beforeAuth : Text := r.head ++ (r.username ++ [0])

def beforeDatabase : Text := r.beforeAuth ++ r.authField

def beforePlugin : Text := r.beforeDatabase ++ r.databaseField

theorem encode_beforeAuth :
    r.encode = r.beforeAuth ++ (r.authField ++ (r.databaseField ++ (r.pluginField ++ r.rest))) := by
  simp [encode, head, beforeAuth]

theorem encode_beforeDatabase :
    r.encode = r.beforeDatabase ++ (r.databaseField ++ (r.pluginField ++ r.rest)) := by
  rw [encode_beforeAuth, beforeDatabase, append_assoc]

theorem encode_beforePlugin : r.encode = r.beforePlugin ++ (r.pluginField ++ r.rest) := by
  rw [encode_beforeDatabase, beforePlugin, append_assoc]

theorem length_beforeAuth : r.beforeAuth.length = 32 + r.username.length + 1 := by
  simp [beforeAuth, r.length_head, Nat.add_assoc]

/-- The NUL behind the user name is the first one. -/
theorem nul_username : nul r.encode 32 = some (32 + r.username.length) := by
  have hfield := nul_field r.head r.username_free
    (r.authField ++ (r.databaseField ++ (r.pluginField ++ r.rest)))
  rw [r.length_head] at hfield
  exact hfield

theorem skipAuth_encode (hshort : r.caps &&& clientPluginAuthLenenc = 0 ∨ r.auth.length < 251) :
    skipAuth r.encode r.caps r.beforeAuth.length = some r.beforeDatabase.length := by
  rw [encode_beforeAuth, r.skipAuth_authField _ _ hshort, beforeDatabase, length_append]

theorem skipDatabase_encode :
    skipDatabase r.encode r.caps r.beforeDatabase.length = some r.beforePlugin.length := by
  rw [encode_beforeDatabase, r.skipDatabase_databaseField, beforePlugin, length_append]

/-- The plugin name is found behind authentication data of at most 250 bytes, in each of its forms. -/
theorem mysqlClientPluginName_encode (hplugin : r.caps &&& clientPluginAuth ≠ 0)
    (hname : r.plugin.length ≤ 64)
    (hshort : r.caps &&& clientPluginAuthLenenc = 0 ∨ r.auth.length < 251) :
    mysqlClientPluginName r.encode = r.plugin := by
  have hfield : r.pluginField ++ r.rest = r.plugin ++ 0 :: r.rest := by
    rw [pluginField, if_pos hplugin, append_assoc, singleton_append]
  have hend : nul r.encode r.beforePlugin.length = some (r.beforePlugin.length + r.plugin.length) := by
    rw [encode_beforePlugin, hfield]
    exact nul_field _ r.plugin_free _
  have hdrop : r.encode.drop r.beforePlugin.length = r.plugin ++ 0 :: r.rest := by
    rw [encode_beforePlugin, drop_left, hfield]
  have hlength : 32 + r.username.length + 1 ≤ r.encode.length := by
    rw [← length_beforeAuth, encode_beforeAuth, length_append]
    exact Nat.le_add_right ..
  have hrest : r.beforePlugin.length < r.encode.length := by
    rw [encode_beforePlugin, hfield, length_append, length_append, length_cons]
    omega
  rw [mysqlClientPluginName, if_neg (by omega)]
  simp only [capabilities_encode, if_neg hplugin, nul_username, ← length_beforeAuth,
    r.skipAuth_encode hshort, skipDatabase_encode, Option.bind_some, Option.bind_eq_bind, hend,
    Option.getD_some, hdrop, Nat.add_sub_cancel_left]
  rw [if_neg (by omega), if_neg (by omega), take_left]

/-- The user name and the authentication data are captured exactly if the data is written behind one
length byte, with the accidents that a long or a NUL-terminated form allows. The plugin name is found
behind every form of at most 250 bytes. -/
theorem handshake_captured_iff (r : HandshakeResponse) :
    (parseHandshakeResponse r.encode = (r.username, stripNul r.auth) ↔
      (r.caps &&& clientPluginAuthLenenc ≠ 0 ∧ (r.auth.length < 251 ∨
        r.auth = alternating 251 0xFB 0 ∨ r.auth = alternating 252 0xFC 0)) ∨
      (r.caps &&& clientPluginAuthLenenc = 0 ∧ (r.caps &&& clientSecureConnection ≠ 0 ∨ r.auth = []))) ∧
    (r.caps &&& clientPluginAuth ≠ 0 → r.plugin.length ≤ 64 →
      r.caps &&& clientPluginAuthLenenc = 0 ∨ r.auth.length < 251 →
      mysqlClientPluginName r.encode = r.plugin) := by
  refine ⟨?_, r.mysqlClientPluginName_encode⟩
  have hlayout := parseHandshakeResponse_layout r.length_head r.username_free
    (r.authField ++ (r.databaseField ++ (r.pluginField ++ r.rest)))
  have hlegal := r.auth_legal
  unfold AuthLegal at hlegal
  rw [show r.encode = r.head ++ (r.username ++ 0 :: (r.authField ++
    (r.databaseField ++ (r.pluginField ++ r.rest)))) from rfl, hlayout, Prod.mk.injEq, authField]
  by_cases hlenenc : r.caps &&& clientPluginAuthLenenc ≠ 0
  · rw [if_pos hlenenc]
    simp only [hlenenc, ne_eq, not_false_eq_true, true_and, false_and, or_false]
    by_cases hshort : r.auth.length < 251
    · rw [lenenc, if_pos hshort, singleton_append, cons_append, authOf_prefixed (by omega)]
      exact iff_of_true rfl (.inl hshort)
    · rw [append_assoc, authOf_lenenc_iff (not_lt.mp hshort)]
      simp [hshort]
  rw [if_neg hlenenc] at hlegal
  rw [if_neg hlenenc]
  rw [not_not] at hlenenc
  simp only [hlenenc, ne_eq, not_true_eq_false, true_and, false_and, false_or]
  by_cases hsecure : r.caps &&& clientSecureConnection ≠ 0
  · rw [if_pos hsecure] at hlegal
    rw [if_pos hsecure, cons_append, authOf_prefixed (by omega)]
    exact iff_of_true rfl (.inl hsecure)
  · rw [if_neg hsecure] at hlegal
    rw [if_neg hsecure, append_assoc, singleton_append, authOf_terminated_iff hlegal]
    simp [hsecure]

/-- A client with `CLIENT_PLUGIN_AUTH` and without `CLIENT_SECURE_CONNECTION`. -/
def terminated : HandshakeResponse where
  caps := 0x00080200
  caps_lt := by decide
  fixed := List.replicate 28 0
  fixed_length := rfl
  username := Utf8.ofText "root"
  username_free := by decide
  auth := Utf8.ofText "secret"
  auth_legal := by decide
  database := []
  database_free := by decide
  plugin := Utf8.ofText "mysql_clear_password"
  plugin_free := by decide
  rest := []

theorem terminated_password_lost :
    parseHandshakeResponse terminated.encode = (Utf8.ofText "root", []) ∧
      stripNul terminated.auth = Utf8.ofText "secret" ∧
      mysqlClientPluginName terminated.encode = Utf8.ofText "mysql_clear_password" := by
  decide +kernel

end HandshakeResponse

end RanHoneypot.Trap.Mysql
