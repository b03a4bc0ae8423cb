import RanHoneypot.Data.GoText

/-!
# CONNECT packets of MQTT

The MQTT trap of `mqtt.go` reads one packet and takes the client id, the user name and the password
from it. `parseMqttConnect` follows the positions that the code computes. Over it stands the format of
a CONNECT packet in the three versions of the protocol, which a packet is written in by its sender: the
protocol name and level, the flags, the keep alive time, the properties of version 5, and the payload
with the client id, the Will message, the user name and the password in this order.
-/

namespace RanHoneypot.Trap

open GoText Utf8 List

inductive MqttError where
  | connectTooShort
  | protocolNameLength
  | unknownProtocol (name : Text)
  | connectTruncated
  | missingPropertiesLength
  | malformedVarInt
  | stringLength
  | stringData
  | readingClientID (error : MqttError)
  | packetTooLarge (length : ℕ)
  | unexpectedEnd
deriving DecidableEq

/-- What the trap takes from a packet. -/
structure MqttConnect where
  clientID : Text
  username : Text
  password : Text
  protocolLevel : UInt8
deriving DecidableEq

variable (data : Text)

/-- The loop of `decodeMQTTVarIntFromBytes`, with a bound on its rounds. -/
def decodeVarIntLoop : ℕ → Text → ℕ → ℕ → ℕ → Except MqttError (ℕ × ℕ)
  | 0, _, _, _, _ => .error .malformedVarInt
  | _ + 1, [], _, _, _ => .error .malformedVarInt
  | rounds + 1, b :: rest, value, multiplier, i =>
    if b &&& 0x80 = 0 then .ok (value + (b &&& 0x7F).toNat * multiplier, i + 1)
    else
      decodeVarIntLoop rounds rest (value + (b &&& 0x7F).toNat * multiplier) (multiplier * 128) (i + 1)

/-- The number and how many bytes it takes. -/
def decodeMqttVarIntFromBytes : Except MqttError (ℕ × ℕ) := decodeVarIntLoop 4 data 0 1 0

def readMqttString (pos : ℕ) : Except MqttError (Text × ℕ) :=
  if data.length < pos + 2 then .error .stringLength
  else if data.length < pos + 2 + uint16 data pos then .error .stringData
  else .ok ((data.drop (pos + 2)).take (uint16 data pos), pos + 2 + uint16 data pos)

/-- A string that is only there if its flag is set. -/
def readFlagged (flag : Bool) (data : Text) (pos : ℕ) : Except MqttError (Text × ℕ) :=
  if flag then readMqttString data pos else .ok ([], pos)

/-- The payload from the client id on. A user name or password that cannot be read is empty. -/
def readCredentials (level flags : UInt8) (pos : ℕ) : Except MqttError MqttConnect :=
  match readMqttString data pos with
  | .error error => .error (.readingClientID error)
  | .ok (clientID, pos) =>
    match readFlagged (flags &&& 0x80 ≠ 0) data pos with
    | .error _ => .ok ⟨clientID, [], [], level⟩
    | .ok (username, pos) =>
      match readFlagged (flags &&& 0x40 ≠ 0) data pos with
      | .error _ => .ok ⟨clientID, username, [], level⟩
      | .ok (password, _) => .ok ⟨clientID, username, password, level⟩

/-- The position behind the properties, which only version 5 has. -/
def skipProperties (level : UInt8) (pos : ℕ) : Except MqttError ℕ :=
  if level = 5 then
    if data.length ≤ pos then .error .missingPropertiesLength
    else
      match decodeMqttVarIntFromBytes (data.drop pos) with
      | .error error => .error error
      | .ok (propsLen, n) => .ok (pos + (n + propsLen))
  else .ok pos

def parseMqttConnect : Except MqttError MqttConnect :=
  if data.length < 10 then .error .connectTooShort
  else
    let protoLen := uint16 data 0
    if data.length < 2 + protoLen then .error .protocolNameLength
    else
      let protoName := (data.drop 2).take protoLen
      if protoName ≠ ofText "MQTT" ∧ protoName ≠ ofText "MQIsdp" then
        .error (.unknownProtocol protoName)
      else if data.length < 2 + protoLen + 4 then .error .connectTruncated
      else
        let level := data.getD (2 + protoLen) 0
        let flags := data.getD (2 + protoLen + 1) 0
        match skipProperties data level (2 + protoLen + 4) with
        | .error error => .error error
        | .ok pos => readCredentials data level flags pos

/-- The type of the first packet of a stream and what follows its fixed header. -/
def readMqttPacket : Text → Except MqttError (UInt8 × Text)
  | [] => .error .unexpectedEnd
  | header :: rest =>
    match decodeMqttVarIntFromBytes rest with
    | .error error => .error error
    | .ok (length, n) =>
      if 2 ^ 20 < length then .error (.packetTooLarge length)
      else if rest.length < n + length then .error .unexpectedEnd
      else .ok (header >>> 4, (rest.drop n).take length)

/-- What the trap logs of a stream, if anything. -/
def mqttCapture (stream : Text) : Option MqttConnect :=
  match readMqttPacket stream with
  | .error _ => none
  | .ok (packetType, payload) => if packetType ≠ 1 then none else (parseMqttConnect payload).toOption

/-! ## The format -/

inductive MqttVersion where
  | v31
  | v311
  | v5
deriving DecidableEq

namespace MqttVersion

def protocolName : MqttVersion → Text
  | v31 => ofText "MQIsdp"
  | v311 => ofText "MQTT"
  | v5 => ofText "MQTT"

def level : MqttVersion → UInt8
  | v31 => 3
  | v311 => 4
  | v5 => 5

end MqttVersion

/-- A text or binary data with its length in front. -/
def mqttString (s : Text) : Text := putUint16 s.length ++ s

/-- A number of variable length, seven bits to a byte. -/
def mqttVarInt : ℕ → ℕ → Text
  | 0, _ => []
  | rounds + 1, n =>
    if n < 128 then [UInt8.ofNat n] else UInt8.ofNat (n % 128 + 128) :: mqttVarInt rounds (n / 128)

/-- Properties with their length in front. -/
def mqttProperties (properties : Text) : Text := mqttVarInt 4 properties.length ++ properties

structure Will where
  qos : Fin 3
  retain : Bool
  properties : Text
  topic : Text
  payload : Text
  properties_lt : properties.length < 128 ^ 4
  topic_lt : topic.length < 65536
  payload_lt : payload.length < 65536

/-- A well-formed CONNECT packet. Only version 5 allows a password without a user name. -/
structure ConnectPacket where
  version : MqttVersion
  cleanStart : Bool
  keepAlive : Fin 65536
  properties : Text
  clientID : Text
  will : Option Will
  username : Option Text
  password : Option Text
  properties_lt : properties.length < 128 ^ 4
  clientID_lt : clientID.length < 65536
  username_lt : ∀ text ∈ username, text.length < 65536
  password_lt : ∀ text ∈ password, text.length < 65536
  password_only : password.isSome → username.isNone → version = .v5

def connectFlags (username password retain will cleanStart : Bool) (qos : Fin 3) : UInt8 :=
  UInt8.ofNat (username.toNat * 128 + password.toNat * 64 + retain.toNat * 32 + qos.val * 8 +
    will.toNat * 4 + cleanStart.toNat * 2)

def Will.encode (will : Will) (version : MqttVersion) : Text :=
  (if version = .v5 then mqttProperties will.properties else []) ++
    mqttString will.topic ++ mqttString will.payload

namespace ConnectPacket

variable (p : ConnectPacket)

def flags : UInt8 :=
  connectFlags p.username.isSome p.password.isSome (p.will.any Will.retain) p.will.isSome p.cleanStart
    (p.will.elim ⟨0, by decide⟩ Will.qos)

/-- The parts of the payload behind the client id. -/
def payloadRest : Text :=
  p.will.elim [] (·.encode p.version) ++ p.username.elim [] mqttString ++
    p.password.elim [] mqttString

/-- The bytes behind the fixed header. -/
def encode : Text :=
  mqttString p.version.protocolName ++ [p.version.level, p.flags] ++ putUint16 p.keepAlive.val ++
    (if p.version = .v5 then mqttProperties p.properties else []) ++
    (mqttString p.clientID ++ p.payloadRest)

/-- The whole packet. -/
def wire : Text := 0x10 :: mqttVarInt 4 p.encode.length ++ p.encode

/-- What the packet says about its client. -/
def credentials : MqttConnect where
  clientID := p.clientID
  username := p.username.getD []
  password := p.password.getD []
  protocolLevel := p.version.level

end ConnectPacket

/-! ## Reading what was written -/

variable {data rest : Text} {pos : ℕ}

theorem length_of_drop (hdata : data.drop pos = rest) (hrest : rest ≠ []) :
    data.length = pos + rest.length := by
  have hlength := congrArg List.length hdata
  have hpos : 0 < rest.length := length_pos_of_ne_nil hrest
  rw [length_drop] at hlength
  omega

/-- A string is read back, and reading goes on behind it. -/
theorem readMqttString_of_drop {s : Text} (hs : s.length < 65536)
    (hdata : data.drop pos = mqttString s ++ rest) :
    readMqttString data pos = .ok (s, pos + (mqttString s).length) ∧
      data.drop (pos + (mqttString s).length) = rest := by
  have hsplit : data.drop pos = putUint16 s.length ++ (s ++ rest) := by
    rw [hdata, mqttString, append_assoc]
  have hvalue : uint16 data pos = s.length := uint16_of_drop hs hsplit
  have hlength := length_of_drop hdata (by simp [mqttString, putUint16])
  have hstring : (mqttString s).length = 2 + s.length := by
    simp [mqttString, putUint16]
    omega
  rw [length_append] at hlength
  have hbody : data.drop (pos + 2) = s ++ rest := by
    rw [← drop_drop, hdata]
    rfl
  refine ⟨?_, ?_⟩
  · rw [readMqttString, hvalue, if_neg (by omega), if_neg (by omega), hbody, take_left', hstring,
      Nat.add_assoc]
    rfl
  · rw [hstring, ← Nat.add_assoc, ← drop_drop, hbody, drop_left']
    rfl

theorem and_low_byte : ∀ n < 128, UInt8.ofNat n &&& 0x80 = 0 ∧ (UInt8.ofNat n &&& 0x7F).toNat = n := by
  decide +kernel

theorem and_high_byte : ∀ n < 128,
    UInt8.ofNat (n + 128) &&& 0x80 ≠ 0 ∧ (UInt8.ofNat (n + 128) &&& 0x7F).toNat = n := by
  decide +kernel

/-- The number is read back, digit by digit. -/
theorem decodeVarIntLoop_mqttVarInt (rounds n : ℕ) (hn : n < 128 ^ (rounds + 1)) (rest : Text)
    (value multiplier i : ℕ) :
    decodeVarIntLoop (rounds + 1) (mqttVarInt (rounds + 1) n ++ rest) value multiplier i =
      .ok (value + n * multiplier, i + (mqttVarInt (rounds + 1) n).length) := by
  induction rounds generalizing n value multiplier i with
  | zero =>
    have hsmall : n < 128 := by simpa using hn
    rcases and_low_byte n hsmall with ⟨hlast, hdigit⟩
    rw [mqttVarInt, if_pos hsmall, singleton_append, decodeVarIntLoop, if_pos hlast, hdigit,
      length_singleton]
  | succ rounds ih =>
    rw [mqttVarInt]
    split
    · next hsmall =>
      rcases and_low_byte n hsmall with ⟨hlast, hdigit⟩
      rw [singleton_append, decodeVarIntLoop, if_pos hlast, hdigit, length_singleton]
    · rcases and_high_byte (n % 128) (Nat.mod_lt n (by decide)) with ⟨hmore, hdigit⟩
      have hquot : n / 128 < 128 ^ (rounds + 1) := by
        exact Nat.div_lt_of_lt_mul (by rwa [Nat.mul_comm])
      have hsum : value + n % 128 * multiplier + n / 128 * (multiplier * 128) =
          value + n * multiplier := by
        calc value + n % 128 * multiplier + n / 128 * (multiplier * 128)
            = value + (128 * (n / 128) + n % 128) * multiplier := by ring
          _ = value + n * multiplier := by rw [Nat.div_add_mod]
      rw [cons_append, decodeVarIntLoop, if_neg hmore, hdigit, ih _ hquot, hsum,
        length_cons, Nat.add_assoc, Nat.add_comm 1]

theorem decodeMqttVarInt_append {n : ℕ} (hn : n < 128 ^ 4) (rest : Text) :
    decodeMqttVarIntFromBytes (mqttVarInt 4 n ++ rest) = .ok (n, (mqttVarInt 4 n).length) := by
  rw [decodeMqttVarIntFromBytes, decodeVarIntLoop_mqttVarInt 3 n hn, Nat.zero_add, Nat.mul_one,
    Nat.zero_add]

theorem mqttVarInt_ne_nil (n : ℕ) : mqttVarInt 4 n ≠ [] := by
  rw [mqttVarInt]
  split
  · simp
  · simp

/-- Reading goes on behind the properties. -/
theorem skipProperties_of_drop {properties : Text} {version : MqttVersion}
    (hlt : properties.length < 128 ^ 4)
    (hdata : data.drop pos = (if version = .v5 then mqttProperties properties else []) ++ rest) :
    ∃ pos', skipProperties data version.level pos = .ok pos' ∧ data.drop pos' = rest := by
  by_cases hversion : version = .v5
  · rw [if_pos hversion, mqttProperties, append_assoc] at hdata
    have hlength := length_of_drop hdata (by simp [mqttVarInt_ne_nil])
    have hpos : 0 < (mqttVarInt 4 properties.length).length :=
      length_pos_of_ne_nil (mqttVarInt_ne_nil _)
    rw [length_append] at hlength
    refine ⟨pos + ((mqttVarInt 4 properties.length).length + properties.length), ?_, ?_⟩
    · have hlevel : version.level = 5 := by rw [hversion, MqttVersion.level]
      rw [skipProperties, if_pos hlevel, if_neg (by omega), hdata, decodeMqttVarInt_append hlt]
    · rw [← drop_drop, hdata, ← append_assoc]
      simp
  · have hlevel : version.level ≠ 5 := by
      cases version with
      | v31 | v311 => decide
      | v5 => exact absurd rfl hversion
    rw [if_neg hversion] at hdata
    exact ⟨pos, by rw [skipProperties, if_neg hlevel], hdata⟩

/-! ## Flags -/

theorem connectFlags_username : ∀ (username password retain will cleanStart : Bool) (qos : Fin 3),
    decide (connectFlags username password retain will cleanStart qos &&& 0x80 ≠ 0) = username := by
  decide +kernel

theorem connectFlags_password : ∀ (username password retain will cleanStart : Bool) (qos : Fin 3),
    decide (connectFlags username password retain will cleanStart qos &&& 0x40 ≠ 0) = password := by
  decide +kernel

theorem readFlagged_of_drop {text : Option Text} (hlt : ∀ s ∈ text, s.length < 65536)
    (hdata : data.drop pos = text.elim [] mqttString ++ rest) :
    ∃ pos', readFlagged text.isSome data pos = .ok (text.getD [], pos') ∧ data.drop pos' = rest := by
  cases text with
  | none => exact ⟨pos, rfl, hdata⟩
  | some s =>
    rcases readMqttString_of_drop (hlt s rfl) hdata with ⟨hread, hrest⟩
    exact ⟨_, hread, hrest⟩

/-! ## Packets -/

namespace ConnectPacket

variable (p : ConnectPacket)

/-- Everything in front of the client id is read as it was written. -/
theorem parse_encode :
    ∃ pos, parseMqttConnect p.encode = readCredentials p.encode p.version.level p.flags pos ∧
      p.encode.drop pos = mqttString p.clientID ++ p.payloadRest := by
  generalize hrest : mqttString p.clientID ++ p.payloadRest = rest
  have hname : p.version.protocolName.length < 65536 := by
    cases p.version <;> decide
  have hnamed : p.version.protocolName.length = 4 ∨ p.version.protocolName.length = 6 := by
    cases p.version <;> decide
  have hknown : p.version.protocolName = ofText "MQTT" ∨ p.version.protocolName = ofText "MQIsdp" := by
    cases p.version <;> decide
  generalize hprops : (if p.version = .v5 then mqttProperties p.properties else []) = props
  have hencode : p.encode = putUint16 p.version.protocolName.length ++ (p.version.protocolName ++
      (p.version.level :: p.flags :: (putUint16 p.keepAlive.val ++ (props ++ rest)))) := by
    rw [encode, hprops, hrest, mqttString]
    simp
  have hlength : p.encode.length = 6 + p.version.protocolName.length + props.length + rest.length := by
    rw [hencode]
    simp only [putUint16, length_append, length_cons, length_nil]
    omega
  have hproto : uint16 p.encode 0 = p.version.protocolName.length :=
    uint16_of_drop hname (by rw [drop_zero, hencode])
  have hbody : p.encode.drop 2 = p.version.protocolName ++
      (p.version.level :: p.flags :: (putUint16 p.keepAlive.val ++ (props ++ rest))) := by
    rw [hencode]
    rfl
  have hfields : p.encode.drop (2 + p.version.protocolName.length) =
      p.version.level :: p.flags :: (putUint16 p.keepAlive.val ++ (props ++ rest)) := by
    rw [← drop_drop, hbody, drop_left]
  have hlevel : p.encode.getD (2 + p.version.protocolName.length) 0 = p.version.level := by
    rw [getD_eq_getElem?_getD, ← head?_drop, hfields]
    rfl
  have hflags : p.encode.getD (2 + p.version.protocolName.length + 1) 0 = p.flags := by
    rw [getD_eq_getElem?_getD, ← head?_drop, ← drop_drop, hfields]
    rfl
  have hprops' : p.encode.drop (2 + p.version.protocolName.length + 4) =
      (if p.version = .v5 then mqttProperties p.properties else []) ++ rest := by
    rw [← drop_drop, hfields, hprops]
    rfl
  rcases skipProperties_of_drop p.properties_lt hprops' with ⟨pos, hskip, hclient⟩
  refine ⟨pos, ?_, hclient⟩
  have hnot : ¬ (p.version.protocolName ≠ ofText "MQTT" ∧ p.version.protocolName ≠ ofText "MQIsdp") := by
    rcases hknown with h | h
    · exact fun hboth ↦ hboth.1 h
    · exact fun hboth ↦ hboth.2 h
  simp only [parseMqttConnect, hproto, hbody, take_left, hlevel, hflags]
  rw [if_neg (by omega), if_neg (by omega), if_neg hnot, if_neg (by omega), hskip]

/-- The packet is read as it was written if the credentials stand right behind the client id. -/
theorem parse_of_payloadRest (hrest : p.payloadRest =
      p.username.elim [] mqttString ++ (p.password.elim [] mqttString ++ rest)) :
    parseMqttConnect p.encode = .ok p.credentials := by
  rcases p.parse_encode with ⟨pos, hparse, hdata⟩
  rw [hrest] at hdata
  rcases readMqttString_of_drop p.clientID_lt hdata with ⟨hclient, hdata⟩
  rcases readFlagged_of_drop p.username_lt hdata with ⟨pos', huser, hdata⟩
  rcases readFlagged_of_drop p.password_lt hdata with ⟨pos'', hpass, _⟩
  have huserFlag : decide (p.flags &&& 0x80 ≠ 0) = p.username.isSome := connectFlags_username ..
  have hpassFlag : decide (p.flags &&& 0x40 ≠ 0) = p.password.isSome := connectFlags_password ..
  rw [hparse, readCredentials, hclient]
  simp only [huserFlag, hpassFlag, huser, hpass]
  rfl

theorem payloadRest_of_no_will (hwill : p.will = none) :
    p.payloadRest = p.username.elim [] mqttString ++ (p.password.elim [] mqttString ++ []) := by
  rw [payloadRest, hwill, Option.elim_none, nil_append, append_nil]

theorem payloadRest_of_no_credentials (huser : p.username = none) (hpass : p.password = none) :
    p.payloadRest = p.username.elim [] mqttString ++
      (p.password.elim [] mqttString ++ p.will.elim [] (·.encode p.version)) := by
  rw [payloadRest, huser, hpass, Option.elim_none, append_nil, append_nil, nil_append,
    nil_append]

/-- A packet of at most a megabyte is found in the stream of its connection. -/
theorem mqttCapture_wire (hsize : p.encode.length ≤ 2 ^ 20) (rest : Text) :
    mqttCapture (p.wire ++ rest) = (parseMqttConnect p.encode).toOption := by
  have hlt : p.encode.length < 128 ^ 4 := lt_of_le_of_lt hsize (by decide)
  have hstream : p.wire ++ rest = 0x10 :: (mqttVarInt 4 p.encode.length ++ (p.encode ++ rest)) := by
    rw [wire, cons_append, cons_append, append_assoc]
  have hread : readMqttPacket (p.wire ++ rest) = .ok (1, p.encode) := by
    rw [hstream, readMqttPacket, decodeMqttVarInt_append hlt]
    simp only
    rw [if_neg (by omega), if_neg (by simp), drop_left, take_left]
    rfl
  rw [mqttCapture, hread]
  rfl

/-- Which of its optional parts a packet has. -/
structure Shape where
  version : MqttVersion
  will : Bool
  username : Bool
  password : Bool
deriving DecidableEq

def shape : Shape :=
  ⟨p.version, p.will.isSome, p.username.isSome, p.password.isSome⟩

/-- A shape that a well-formed packet can have. -/
def Shape.Admissible (s : Shape) : Prop := s.password = true → s.username = false → s.version = .v5

/-- The packet of a shape whose texts are single letters. -/
def sample (s : Shape) : ConnectPacket where
  version := s.version
  cleanStart := true
  keepAlive := ⟨60, by decide⟩
  properties := []
  clientID := ofText "c"
  will :=
    if s.will then
      some ⟨⟨0, by decide⟩, false, [], ofText "t", ofText "m", by decide, by decide, by decide⟩
    else none
  username := if s.username then some (ofText "u") else none
  password := if s.password ∧ (s.username ∨ s.version = .v5) then some (ofText "p") else none
  properties_lt := by decide
  clientID_lt := by decide
  username_lt := by
    intro text htext
    split at htext
    · rw [← Option.some.inj htext]
      decide
    · exact absurd htext (by simp)
  password_lt := by
    intro text htext
    split at htext
    · rw [← Option.some.inj htext]
      decide
    · exact absurd htext (by simp)
  password_only := by
    intro hpass huser
    by_contra hversion
    have hnone : s.username = false := by simpa using huser
    simp [hnone, hversion] at hpass

theorem shape_sample {s : Shape} (hadmissible : s.Admissible) : (sample s).shape = s := by
  rcases s with ⟨version, will, username, password⟩
  cases will <;> cases username <;> cases password <;>
    simp_all [sample, shape, Shape.Admissible]

/-- Behind a Will the letters of a sample are taken for others. -/
theorem sample_misread {s : Shape} (hadmissible : s.Admissible) (hwill : s.will = true)
    (hsome : s.username = true ∨ s.password = true) :
    parseMqttConnect (sample s).encode ≠ .ok (sample s).credentials := by
  rcases s with ⟨version, will, username, password⟩
  simp only at hwill hsome
  rw [hwill]
  cases version <;> cases username <;> cases password <;>
    first
    | exact absurd hsome (by decide)
    | exact MqttVersion.noConfusion (hadmissible rfl rfl)
    | decide +kernel

/-- The client id, the user name and the password are taken from every well-formed packet of a shape
exactly if the shape has no Will message, or neither a user name nor a password. The Will stands between
the client id and the user name, and the parser does not skip it. -/
theorem connect_captured_iff (s : Shape) (hadmissible : s.Admissible) :
    (∀ p : ConnectPacket, p.shape = s → parseMqttConnect p.encode = .ok p.credentials) ↔
      s.will = false ∨ (s.username = false ∧ s.password = false) := by
  constructor
  · intro hall
    by_contra hnot
    rw [not_or, Bool.not_eq_false, not_and_or, Bool.not_eq_false, Bool.not_eq_false] at hnot
    exact sample_misread hadmissible hnot.1 hnot.2 (hall (sample s) (shape_sample hadmissible))
  · intro hshape p hp
    rw [← hp] at hshape
    rcases hshape with hwill | hnone
    · have hno : p.will = none := by simpa [shape] using hwill
      exact p.parse_of_payloadRest (p.payloadRest_of_no_will hno)
    · have huser : p.username = none := by simpa [shape] using hnone.1
      have hpass : p.password = none := by simpa [shape] using hnone.2
      exact p.parse_of_payloadRest (p.payloadRest_of_no_credentials huser hpass)

/-- A packet of version 3.1.1 with a user name and a password and without a Will. -/
theorem connect_captured_plain :
    (sample ⟨.v311, false, true, true⟩).shape = ⟨.v311, false, true, true⟩ ∧
      parseMqttConnect (sample ⟨.v311, false, true, true⟩).encode =
        .ok (sample ⟨.v311, false, true, true⟩).credentials :=
  ⟨rfl, (connect_captured_iff ⟨.v311, false, true, true⟩ (nofun)).mpr
    (.inl rfl) (sample ⟨.v311, false, true, true⟩) rfl⟩

theorem mqttCapture_wire_plain :
    mqttCapture ((sample ⟨.v311, false, true, true⟩).wire ++ [7]) =
      (parseMqttConnect (sample ⟨.v311, false, true, true⟩).encode).toOption :=
  mqttCapture_wire _ (by decide) [7]

/-- A client of version 3.1.1 with a Will: its topic and its message are taken for the user name and the
password. -/
theorem will_taken_for_credentials :
    parseMqttConnect (sample ⟨.v311, true, true, true⟩).encode =
        .ok ⟨ofText "c", ofText "t", ofText "m", 4⟩ ∧
      (sample ⟨.v311, true, true, true⟩).credentials = ⟨ofText "c", ofText "u", ofText "p", 4⟩ := by
  decide +kernel

end ConnectPacket

end RanHoneypot.Trap
