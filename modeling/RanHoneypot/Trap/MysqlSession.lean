import RanHoneypot.Trap.Mysql

/-!
# Sessions of the MySQL trap

The trap greets a client, takes the credentials of its handshake response and asks for further passwords
with an authentication switch. In the realistic mode a client with one of the usual plugins first sends a
scramble; then one switch round is spent on the clear text before the first attempt is recorded. A session
is a run against an environment that says what every read, write and sleep comes to. Its history lists the
packets of both sides and the recorded attempts, the newest event first.
-/

namespace RanHoneypot.Trap.Mysql

open GoText ByteNumbers Utf8

/-! ## Packets of the server -/

variable {env : Environment} {c : Conn} {seq : UInt8} {c' : Conn} {packet : Text}

variable {limit : ℕ} (s : Settings) (event : Event) {packets : ℕ}

variable (version : Text) (connID : ℕ) (challenge : Text)

def wrapMySQLPacket (seq : UInt8) (payload : Text) : Text :=
  UInt8.ofNat payload.length :: UInt8.ofNat (payload.length / 2 ^ 8) ::
    UInt8.ofNat (payload.length / 2 ^ 16) :: seq :: payload

/-- The sequence number in the header of a packet. -/
def packetSeq (packet : Text) : UInt8 := packet.getD 3 0

def buildErrPacket (seq : UInt8) (code : ℕ) (state msg : Text) : Text :=
  wrapMySQLPacket seq (0xFF :: (littleEndian 2 code ++ ch '#' :: (state ++ msg)))

def buildAuthSwitchRequest (seq : UInt8) : Text :=
  wrapMySQLPacket seq (0xFE :: (ofText "mysql_clear_password" ++ [0]))

/-- What differs between the greetings of the server generations. -/
structure MysqlGreetingStyle where
  capLow : ℕ
  capHigh : ℕ
  charset : UInt8
  plugin : Text

def mysqlStyleFor : MysqlGreetingStyle :=
  if (ofText "5.").isPrefixOf version then
    ⟨0xf7ff, 0x807f, 0x08, ofText "mysql_native_password"⟩
  else ⟨0xf7ff, 0xc3ff, 0xff, ofText "caching_sha2_password"⟩

/-- Both greetings have the same layout. -/
def greetingPayload (style : MysqlGreetingStyle) : Text :=
  10 :: (version ++ [0] ++ littleEndian 4 connID ++ challenge.take 8 ++ [0] ++ littleEndian 2 style.capLow ++
    [style.charset] ++ littleEndian 2 0x0002 ++ littleEndian 2 style.capHigh ++
    [UInt8.ofNat (challenge.length + 1)] ++ List.replicate 10 0 ++ challenge.drop 8 ++ [0] ++
    style.plugin ++ [0])

def buildGreeting : Text :=
  wrapMySQLPacket 0 (greetingPayload version connID challenge
    ⟨0x0001 ||| 0x0200 ||| 0x8000 ||| 0x0008, 0x0008, 0x21, ofText "mysql_clear_password"⟩)

def buildRealisticGreeting : Text :=
  wrapMySQLPacket 0 (greetingPayload version connID challenge (mysqlStyleFor version))

/-! ## Replies of the client -/

def isClearPasswordReply (reply : Text) : Bool := reply.getLast? = some 0

def mysqlClientPluginAuth (response : Text) : Bool :=
  4 ≤ response.length ∧ capabilities response &&& clientPluginAuth ≠ 0

def maxMySQLPassword : ℕ := 4096

def parseAuthSwitchReply (data : Text) : Text := (stripNul data).take maxMySQLPassword

/-- The plugins whose data is a scramble. -/
def isScramblePlugin (plugin : Text) : Bool :=
  plugin = ofText "mysql_native_password" ∨ plugin = ofText "caching_sha2_password" ∨
    plugin = ofText "sha256_password"

/-! ## The environment -/

inductive Failure where
  | timeout
  | other
deriving DecidableEq

/-- A packet that a client sends. -/
structure ClientPacket where
  seq : UInt8
  payload : Text

structure Settings where
  /-- `t.fp.Mode == fingerprint.ModeSeeded` -/
  realistic : Bool
  version : Text
  maxRetries : ℕ
  /-- `authDelay > 0` -/
  delayed : Bool

/-- What the reads, writes and sleeps of a session come to, each counted on its own. -/
structure Environment where
  challenge : Text
  connID : ℕ
  reads : ℕ → Except Failure ClientPacket
  writes : ℕ → Option Failure
  sleeps : ℕ → Bool

inductive Event where
  | wrote (packet : Text)
  | received (seq : UInt8) (payload : Text)
  | cred (username password : Text)
  | noPassword (username : Text)

inductive Outcome where
  | timeout
  | error

structure Conn where
  history : List Event
  reads : ℕ
  writes : ℕ
  sleeps : ℕ
  outcome : Option Outcome

def Event.isAttempt : Event → Bool
  | .cred _ _ | .noPassword _ => true
  | _ => false

def Event.isReceived : Event → Bool
  | .received _ _ => true
  | _ => false

/-- How many login attempts the session has recorded. -/
def attempts (history : List Event) : ℕ := history.countP Event.isAttempt

def receivedPackets (history : List Event) : ℕ := history.countP Event.isReceived

def Conn.start : Conn := ⟨[], 0, 0, 0, none⟩

def Conn.record (c : Conn) (event : Event) : Conn := { c with history := event :: c.history }

/-- `conn.Write` -/
def Conn.write (env : Environment) (c : Conn) (packet : Text) : Option Failure × Conn :=
  (env.writes c.writes, { c with history := .wrote packet :: c.history, writes := c.writes + 1 })

/-- `readMySQLPacket`, which refuses packets of more than a mebibyte. -/
def Conn.read (env : Environment) (c : Conn) : Except Failure Text × Conn :=
  match env.reads c.reads with
  | .error failure => (.error failure, { c with reads := c.reads + 1 })
  | .ok packet =>
    (if 2 ^ 20 < packet.payload.length then .error .other else .ok packet.payload,
      { c with history := .received packet.seq packet.payload :: c.history, reads := c.reads + 1 })

/-- `sess.authSleep`, which is only called with a delay. -/
def Conn.authSleep (env : Environment) (c : Conn) : Bool × Conn :=
  if s.delayed then (env.sleeps c.sleeps, { c with sleeps := c.sleeps + 1 }) else (true, c)

def Conn.setOutcome (c : Conn) : Failure → Conn
  | .timeout => { c with outcome := some .timeout }
  | .other => { c with outcome := some .error }

/-- A client that tried credentials and then disconnects is no error. -/
def Conn.setReadOutcome (c : Conn) (failure : Failure) : Conn :=
  if failure ≠ .timeout ∧ 0 < attempts c.history then c else c.setOutcome failure

/-! ## The session -/

def accessDenied (username : Text) : Text :=
  ofText "Access denied for user '" ++ username ++ ofText "'"

def errPacket (seq : UInt8) (username : Text) : Text :=
  buildErrPacket seq 1045 (ofText "28000") (accessDenied username)

/-- The retry loop from attempt number `attempt` on, with a bound on its rounds. `seq` is the sequence
number of the last packet received. -/
def retryLoop (s : Settings) (env : Environment) (username : Text) (canSwitch : Bool) :
    ℕ → ℕ → Text → UInt8 → Conn → Option Conn
  | 0, _, _, _, _ => none
  | rounds + 1, attempt, password, seq, c =>
    match (c.record (.cred username password)).authSleep s env with
    | (false, c) => some { c with outcome := some .timeout }
    | (true, c) =>
      if !canSwitch ∨ (s.maxRetries ≠ 0 ∧ s.maxRetries ≤ attempt + 1) then
        some (c.write env (errPacket (seq + 1) username)).2
      else
        match c.write env (buildAuthSwitchRequest (seq + 1)) with
        | (some failure, c) => some (c.setOutcome failure)
        | (none, c) =>
          match c.read env with
          | (.error failure, c) => some (c.setReadOutcome failure)
          | (.ok reply, c) =>
            -- a client that resends its password makes no new attempt
            if parseAuthSwitchReply reply = password then
              some (c.write env (errPacket (seq + 2 + 1) username)).2
            else retryLoop s env username canSwitch rounds (attempt + 1) (parseAuthSwitchReply reply) (seq + 2) c

/-- The switch round that asks a client for the clear text of its scramble. -/
def scrambleRound (env : Environment) (rounds : ℕ) (username : Text) (canSwitch : Bool) (c : Conn) :
    Option Conn :=
  match c.write env (buildAuthSwitchRequest (1 + 1)) with
  | (some failure, c) => some (c.setOutcome failure)
  | (none, c) =>
    match c.read env with
    | (.error failure, c) => some ((c.record (.noPassword username)).setReadOutcome failure)
    | (.ok reply, c) =>
      if isClearPasswordReply reply then
        retryLoop s env username canSwitch rounds 0 (parseAuthSwitchReply reply) (1 + 2) c
      else some ((c.record (.noPassword username)).write env (errPacket (1 + 2 + 1) username)).2

def greeting (env : Environment) : Text :=
  if s.realistic then
    -- mysqld never puts a NUL byte into the scramble
    buildRealisticGreeting s.version env.connID
      (env.challenge.map fun b ↦ if b = 0 then 1 + UInt8.ofNat (env.connID % 254) else b)
  else buildGreeting s.version env.connID env.challenge

/-- A session, whose retry loop gets at most `rounds` rounds. -/
def handle (env : Environment) (rounds : ℕ) : Option Conn :=
  match Conn.start.write env (greeting s env) with
  | (some failure, c) => some (c.setOutcome failure)
  | (none, c) =>
    match c.read env with
    | (.error failure, c) => some (c.setOutcome failure)
    | (.ok response, c) =>
      let username := (parseHandshakeResponse response).1
      let canSwitch := mysqlClientPluginAuth response
      if s.realistic && isScramblePlugin (mysqlClientPluginName response) then
        scrambleRound s env rounds username canSwitch c
      else retryLoop s env username canSwitch rounds 0 (parseHandshakeResponse response).2 1 c

/-! ## Sequence numbers -/

def lastWritten : List Event → Option UInt8
  | [] => none
  | .wrote packet :: _ => some (packetSeq packet)
  | _ :: before => lastWritten before

def lastReceived : List Event → Option UInt8
  | [] => none
  | .received seq _ :: _ => some seq
  | _ :: before => lastReceived before

/-- The client numbers each packet one higher than the last packet of the server. -/
def ClientNumbers : List Event → Prop
  | [] => True
  | .received seq _ :: before => lastWritten before = some (seq - 1) ∧ ClientNumbers before
  | _ :: before => ClientNumbers before

/-- The server numbers each packet one higher than the last packet of the client, and its first one with
zero. -/
def ServerNumbers : List Event → Prop
  | [] => True
  | .wrote packet :: before =>
    packetSeq packet = (match lastReceived before with | some seq => seq + 1 | none => 0) ∧
      ServerNumbers before
  | _ :: before => ServerNumbers before

/-- After a packet of the client that should carry the number `seq`. -/
structure After (seq : UInt8) (history : List Event) : Prop where
  server : ClientNumbers history → ServerNumbers history
  last : ClientNumbers history → lastReceived history = some seq

section

variable {history : List Event} (h : After seq history)

include h

theorem After.attempt (hevent : event.isAttempt = true) : After seq (event :: history) := by
  cases event with
  | wrote | received => cases hevent
  | cred | noPassword => exact ⟨h.server, h.last⟩

/-- The server answers with the next number. -/
theorem After.wrote (hpacket : packetSeq packet = seq + 1) :
    After seq (.wrote packet :: history) where
  server hclient := by
    rw [ServerNumbers, h.last hclient]
    exact ⟨hpacket, h.server hclient⟩
  last hclient := h.last hclient

/-- The client answers a packet of the server. -/
theorem After.received (hwritten : lastWritten history = some (seq + 1)) (number : UInt8)
    (payload : Text) :
    After (seq + 2) (.received number payload :: history) where
  server hclient := h.server hclient.2
  last hclient := by
    have hnumber : number - 1 = seq + 1 := by
      have hboth := hclient.1.symm.trans hwritten
      exact Option.some.inj hboth
    rw [lastReceived, Option.some.injEq]
    calc
      number = number - 1 + 1 := (UInt8.sub_add_cancel _ 1).symm
      _ = seq + 1 + 1 := by rw [hnumber]
      _ = seq + 2 := by rw [UInt8.add_assoc]; rfl

end

/-- The first packet of the client answers the greeting. -/
theorem After.first (hpacket : packetSeq packet = 0) (number : UInt8) (payload : Text) :
    After 1 [.received number payload, .wrote packet] where
  server _ := ⟨hpacket, trivial⟩
  last hclient := by
    have hnumber : number - 1 = 0 := by
      have hboth := hclient.1.symm.trans (congrArg some hpacket)
      exact Option.some.inj hboth
    rw [lastReceived, Option.some.injEq]
    calc
      number = number - 1 + 1 := (UInt8.sub_add_cancel _ 1).symm
      _ = 1 := by rw [hnumber]; rfl

/-! ## Steps of a connection -/

@[simp]
theorem Conn.history_setOutcome (c : Conn) (failure : Failure) :
    (c.setOutcome failure).history = c.history := by
  cases failure <;> rfl

@[simp]
theorem Conn.history_setReadOutcome (c : Conn) (failure : Failure) :
    (c.setReadOutcome failure).history = c.history := by
  unfold setReadOutcome
  split
  · rfl
  · exact c.history_setOutcome _

theorem Conn.history_authSleep {s : Settings} {slept : Bool}
    (hsleep : c.authSleep s env = (slept, c')) : c'.history = c.history := by
  unfold authSleep at hsleep
  split at hsleep
  · exact congrArg (fun result ↦ result.2.history) hsleep.symm
  · exact congrArg (fun result ↦ result.2.history) hsleep.symm

theorem Conn.history_write {result : Option Failure} (hwrite : c.write env packet = (result, c')) :
    c'.history = .wrote packet :: c.history :=
  congrArg (fun outcome ↦ outcome.2.history) hwrite.symm

/-- A read takes a packet of the client, whether or not it is refused, or nothing. -/
theorem Conn.history_read {result : Except Failure Text} (hread : c.read env = (result, c')) :
    (c'.history = c.history ∧ ∃ failure, result = .error failure) ∨
      ∃ number payload, c'.history = .received number payload :: c.history := by
  unfold read at hread
  split at hread
  · next failure _ =>
    exact .inl ⟨congrArg (fun outcome ↦ outcome.2.history) hread.symm, failure,
      congrArg Prod.fst hread.symm⟩
  · next packet _ =>
    exact .inr ⟨packet.seq, packet.payload, congrArg (fun outcome ↦ outcome.2.history) hread.symm⟩

/-! ## Runs -/

/-- A run has ended, with at most so many attempts and packets of the client, and with the right numbers. -/
def EndsWithin (limit packets : ℕ) (result : Option Conn) : Prop :=
  ∃ c, result = some c ∧ attempts c.history ≤ limit ∧ receivedPackets c.history ≤ packets ∧
    (ClientNumbers c.history → ServerNumbers c.history)

/-- An exit that writes nothing. -/
theorem EndsWithin.of_history (hsame : c'.history = c.history)
    (hnumbers : ClientNumbers c.history → ServerNumbers c.history)
    (hattempts : attempts c.history ≤ limit) (hpackets : receivedPackets c.history ≤ packets) :
    EndsWithin limit packets (some c') := by
  rw [← hsame] at hnumbers hattempts hpackets
  exact ⟨c', rfl, hattempts, hpackets, hnumbers⟩

/-- An exit with a last packet of the server. -/
theorem EndsWithin.of_write (env : Environment) (h : After seq c.history)
    (hpacket : packetSeq packet = seq + 1) (hattempts : attempts c.history ≤ limit)
    (hpackets : receivedPackets c.history ≤ packets) :
    EndsWithin limit packets (some (c.write env packet).2) :=
  ⟨_, rfl, hattempts, hpackets, (h.wrote hpacket).server⟩

theorem EndsWithin.mono {limit' packets' : ℕ} {result : Option Conn}
    (h : EndsWithin limit packets result) (hlimit : limit ≤ limit') (hpackets : packets ≤ packets') :
    EndsWithin limit' packets' result := by
  rcases h with ⟨c, hc, hattempts, hreceived, hnumbers⟩
  exact ⟨c, hc, hattempts.trans hlimit, hreceived.trans hpackets, hnumbers⟩

@[simp]
theorem attempts_wrote (packet : Text) (history : List Event) :
    attempts (.wrote packet :: history) = attempts history := rfl

@[simp]
theorem attempts_received (seq : UInt8) (payload : Text) (history : List Event) :
    attempts (.received seq payload :: history) = attempts history := rfl

@[simp]
theorem receivedPackets_wrote (packet : Text) (history : List Event) :
    receivedPackets (.wrote packet :: history) = receivedPackets history := rfl

theorem attempts_attempt (hevent : event.isAttempt = true) (history : List Event) :
    attempts (event :: history) = attempts history + 1 := by
  rw [attempts, List.countP_cons_of_pos hevent]
  rfl

theorem receivedPackets_attempt (hevent : event.isAttempt = true) (history : List Event) :
    receivedPackets (event :: history) = receivedPackets history := by
  cases event <;> first | rfl | cases hevent

theorem receivedPackets_received (seq : UInt8) (payload : Text) (history : List Event) :
    receivedPackets (.received seq payload :: history) = receivedPackets history + 1 := by
  rw [receivedPackets, List.countP_cons_of_pos rfl]
  rfl

/-- A read behind a packet of the server, whatever it comes to. -/
theorem After.read {result : Except Failure Text} (h : After seq c.history)
    (hwritten : lastWritten c.history = some (seq + 1)) (hread : c.read env = (result, c')) :
    (ClientNumbers c'.history → ServerNumbers c'.history) ∧
      attempts c'.history = attempts c.history ∧
      receivedPackets c'.history ≤ receivedPackets c.history + 1 ∧
      (∀ payload, result = .ok payload → After (seq + 2) c'.history) := by
  rcases Conn.history_read hread with ⟨hsame, failure, hfailure⟩ | ⟨number, payload, hnew⟩
  · rw [hsame]
    refine ⟨h.server, rfl, Nat.le_succ _, ?_⟩
    intro payload hok
    rw [hfailure] at hok
    cases hok
  · have hafter := h.received hwritten number payload
    rw [hnew]
    exact ⟨hafter.server, rfl, Nat.le_of_eq (receivedPackets_received ..),
      fun _ _ ↦ hafter⟩

/-- The request to switch is a packet of the server and nothing else. -/
theorem After.asks {failure : Option Failure} (h : After seq c.history)
    (hwrite : c.write env (buildAuthSwitchRequest (seq + 1)) = (failure, c')) :
    After seq c'.history ∧ lastWritten c'.history = some (seq + 1) ∧
      attempts c'.history = attempts c.history ∧
      receivedPackets c'.history = receivedPackets c.history := by
  rw [Conn.history_write hwrite]
  exact ⟨h.wrote rfl, rfl, attempts_wrote _ _, receivedPackets_wrote ..⟩

/-- The loop ends after as many attempts as are left, and with one packet of the client less. -/
theorem retryLoop_ends (env : Environment) (username : Text) (canSwitch : Bool)
    (rounds attempt left : ℕ) (password : Text) (seq : UInt8) (c : Conn)
    (hleft : s.maxRetries = attempt + left + 1) (hrounds : left < rounds) (h : After seq c.history) :
    EndsWithin (attempts c.history + left + 1) (receivedPackets c.history + left)
      (retryLoop s env username canSwitch rounds attempt password seq c) := by
  induction rounds generalizing attempt left password seq c with
  | zero => exact absurd hrounds (Nat.not_lt_zero _)
  | succ rounds ih =>
    rw [retryLoop]
    have hcred := h.attempt (.cred username password) rfl
    have hcount := attempts_attempt (.cred username password) rfl c.history
    have hreceived := receivedPackets_attempt (.cred username password) rfl c.history
    cases hsleep : (c.record _).authSleep s env with
    | mk slept slept' =>
      have hhistory : slept'.history = .cred username password :: c.history :=
        Conn.history_authSleep hsleep
      rw [← hhistory] at hcred hcount hreceived
      cases slept with
      | false => exact .of_history (c := slept') rfl hcred.server (by omega) (by omega)
      | true =>
        simp only
        split
        · exact .of_write env hcred rfl (by omega) (by omega)
        · next hgoes =>
          cases hwrite : slept'.write env (buildAuthSwitchRequest _) with
          | mk failure asked =>
            rcases hcred.asks hwrite with ⟨hafter, hwritten, hattempts, hpackets⟩
            cases failure with
            | some failure =>
              exact .of_history (asked.history_setOutcome _) hafter.server (by omega) (by omega)
            | none =>
              simp only
              cases hread : asked.read env with
              | mk result answered =>
                rcases hafter.read hwritten hread with ⟨hserver, hsame, hmore, hnext⟩
                cases result with
                | error failure =>
                  exact .of_history (answered.history_setReadOutcome _) hserver (by omega)
                    (by omega)
                | ok reply =>
                  have hanswered := hnext reply rfl
                  simp only
                  split
                  · exact .of_write env hanswered rfl (by omega) (by omega)
                  · rcases Nat.exists_eq_succ_of_ne_zero (show left ≠ 0 by omega) with ⟨less, hless⟩
                    exact (ih (attempt + 1) less _ (seq + 2) answered (by omega) (by omega) hanswered).mono
                      (by omega) (by omega)

/-- The switch round for a scramble costs one more packet of the client and no attempt of its own. -/
theorem scrambleRound_ends (env : Environment) (rounds : ℕ) (username : Text) (canSwitch : Bool)
    (c : Conn) (hretries : 1 ≤ s.maxRetries) (hrounds : s.maxRetries ≤ rounds)
    (h : After 1 c.history) :
    EndsWithin (attempts c.history + s.maxRetries) (receivedPackets c.history + s.maxRetries)
      (scrambleRound s env rounds username canSwitch c) := by
  rw [scrambleRound]
  cases hwrite : c.write env (buildAuthSwitchRequest _) with
  | mk failure asked =>
    rcases h.asks hwrite with ⟨hafter, hwritten, hattempts, hpackets⟩
    cases failure with
    | some failure =>
      exact .of_history (asked.history_setOutcome _) hafter.server (by omega) (by omega)
    | none =>
      simp only
      cases hread : asked.read env with
      | mk result answered =>
        rcases hafter.read hwritten hread with ⟨hserver, hsame, hmore, hnext⟩
        have hcount : attempts (answered.record (.noPassword username)).history =
            attempts answered.history + 1 := attempts_attempt _ rfl _
        have hreceived : receivedPackets (answered.record (.noPassword username)).history =
            receivedPackets answered.history := receivedPackets_attempt _ rfl _
        cases result with
        | error failure =>
          exact .of_history (c := answered.record (.noPassword username))
            ((answered.record _).history_setReadOutcome failure) hserver
            (by omega) (by omega)
        | ok reply =>
          have hanswered := hnext reply rfl
          simp only
          split
          · exact (retryLoop_ends s _ _ _ _ 0 (s.maxRetries - 1) _ _ _
              (by omega) (by omega) hanswered).mono (by omega) (by omega)
          · have hrecorded := hanswered.attempt (.noPassword username) rfl
            exact .of_write (c := answered.record (.noPassword username)) env hrecorded rfl
              (by omega) (by omega)

/-- Against every client a session with a retry limit ends, records at most as many attempts as the limit
allows, takes at most one packet more than that, and numbers its packets as the protocol requires if the
client does. -/
theorem session_discipline (s : Settings) (env : Environment) (hretries : 1 ≤ s.maxRetries) (rounds : ℕ)
    (hrounds : s.maxRetries ≤ rounds) :
    ∃ c, handle s env rounds = some c ∧ attempts c.history ≤ s.maxRetries ∧
      receivedPackets c.history ≤ s.maxRetries + 1 ∧
      (ClientNumbers c.history → ServerNumbers c.history) := by
  change EndsWithin s.maxRetries (s.maxRetries + 1) (handle s env rounds)
  have hfirst : packetSeq (greeting s env) = 0 := by
    unfold greeting
    split <;> rfl
  rw [handle]
  cases hwrite : Conn.start.write env (greeting s env) with
  | mk failure greeted =>
    have hgreeted : greeted.history = [.wrote (greeting s env)] := Conn.history_write hwrite
    have hnumbers : ClientNumbers greeted.history → ServerNumbers greeted.history := by
      rw [hgreeted]
      exact fun _ ↦ ⟨hfirst, trivial⟩
    have hattempts : attempts greeted.history = 0 := by
      rw [hgreeted]
      rfl
    have hpackets : receivedPackets greeted.history = 0 := by
      rw [hgreeted]
      rfl
    cases failure with
    | some failure =>
      exact .of_history (greeted.history_setOutcome _) hnumbers (by omega) (by omega)
    | none =>
      simp only
      cases hread : greeted.read env with
      | mk result answered =>
        rcases Conn.history_read hread with ⟨hsame, failure, hfailure⟩ | ⟨number, payload, hnew⟩
        · rw [hfailure]
          exact .of_history (c := greeted) ((answered.history_setOutcome _).trans hsame) hnumbers
            (by omega) (by omega)
        · have hanswered : After 1 answered.history := by
            rw [hnew, hgreeted]
            exact .first hfirst number payload
          have hcount : attempts answered.history = 0 := by
            rw [hnew, attempts_received, hattempts]
          have hone : receivedPackets answered.history = 1 := by
            rw [hnew, receivedPackets_received, hpackets]
          cases result with
          | error failure =>
            exact .of_history (answered.history_setOutcome _) hanswered.server (by omega) (by omega)
          | ok response =>
            simp only
            split
            · exact (scrambleRound_ends s _ _ _ _ _ hretries hrounds hanswered).mono
                (by omega) (by omega)
            · exact (retryLoop_ends s _ _ _ _ 0 (s.maxRetries - 1) _ 1 _ (by omega) (by omega)
                hanswered).mono (by omega) (by omega)

/-- A client that sends the same empty packet again and again, numbered by twos, to a trap that allows
three attempts. -/
theorem session_discipline_resending :
    ∃ c, handle ⟨true, ofText "8.0.36", 3, false⟩
        ⟨List.replicate 20 1, 7, fun k ↦ .ok ⟨UInt8.ofNat (2 * k + 1), []⟩, fun _ ↦ none, fun _ ↦ true⟩ 3 =
          some c ∧ attempts c.history ≤ 3 ∧ receivedPackets c.history ≤ 4 ∧
        (ClientNumbers c.history → ServerNumbers c.history) :=
  session_discipline ⟨true, ofText _, 3, false⟩ _ (by decide) 3 le_rfl

end RanHoneypot.Trap.Mysql
