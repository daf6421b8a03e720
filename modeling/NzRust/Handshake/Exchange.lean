import NzRust.Handshake.ErrorBody

/-!
# The exchange behind the two handshakes

Both engines hold the same conversation with the server; they differ in the
texts of their errors and in how they read an ErrorResponse. `Exchange` is that
conversation with the errors reduced to the reason for which it stops. Each
engine mirrors it.
-/

namespace NzRust.Handshake

open Wire

/-! ## The exchange -/

/-- Why the client stops. -/
inductive Stop where
  | closed
  /-- An answer or a value that the protocol does not allow here. -/
  | refused
  /-- The letter of an ErrorResponse; its body is not read yet. -/
  | backendError
  /-- The server wants TLS, which the build does not have. -/
  | noTls
  deriving DecidableEq, Repr

abbrev Talk := Prog Stop

namespace Exchange

def readByte : Talk UInt8 := do
  let bytes ← Prog.take 1
  return bytes.headD 0

def readI32 : Talk Int := do
  let bytes ← Prog.take 4
  return ByteString.beInt bytes

def checked {α : Type} : NzResult α → Talk α
  | .ok a => .ret a
  | .error _ => .fail .refused

def writeFrame (opcode : Int) (payload : Bytes) : Talk Unit :=
  Prog.send (frame opcode payload)

def acknowledged : Talk Unit := do
  let b ← readByte
  if b = letterN then return ()
  else if b = letterE then .fail .backendError
  else .fail .refused

def negotiate : Nat → Nat → Talk Nat
  | 0, _ => .unfinished
  | rounds + 1, version => do
      writeFrame hsv2ClientBegin (i16sPayload [version])
      let b ← readByte
      if b = letterN then return version
      else if b = letterM then
        let c ← readByte
        match proposedVersion c with
        | none => .fail .refused
        | some proposed =>
            checked (validateVersionDowngrade version proposed)
            negotiate rounds proposed
      else if b = letterE then .fail .backendError
      else .fail .refused

def upgrade : Talk Unit := do
  writeFrame hsv2SslConnect (i16sPayload [])
  Prog.switch
  acknowledged

def secureSession (level : SecurityLevel) : Talk Unit := do
  writeFrame hsv2SslNegotiate (ByteString.toBe 4 level.asI32)
  let b ← readByte
  if b = letterN then (if level = .onlySecuredSession then .fail .refused else return ())
  else if b = letterS then upgrade
  else if b = letterE then .fail .backendError
  else .fail .refused

def sendOption (option : HandshakeOption) : Talk Unit := do
  writeFrame option.opcode option.payload
  match option.ackAfter with
  | some _ => acknowledged
  | none => return ()

def sendOptions : List HandshakeOption → Talk Unit
  | [] => return ()
  | option :: options => do
      sendOption option
      sendOptions options

def authenticate (platform : Platform) (password : Bytes) : Talk Unit := do
  let b ← readByte
  if b = letterR then
    let request ← readI32
    let saltLen ← checked (authSaltLen request)
    let salt ← Prog.take saltLen
    match ← checked (authResponse platform request password salt) with
    | some payload => Prog.send (ByteString.toBe 4 (4 + payload.length) ++ payload)
    | none => return ()
  else if b = letterE then .fail .backendError
  else .fail .refused

def complete : Nat → HandshakeResult → Talk HandshakeResult
  | 0, _ => .unfinished
  | fuel + 1, result => do
      let b ← readByte
      if b = 0 then complete fuel result
      else if b = letterR then
        let _ ← readI32
        complete fuel result
      else if b = letterE then .fail .backendError
      else
        let _ ← Prog.take 4
        if b = letterK then
          let _ ← Prog.take 4
          let backendProcessId ← readI32
          let backendSecretKey ← readI32
          complete fuel ⟨backendProcessId, backendSecretKey⟩
        else if b = letterZ then return result
        else if b = letterN then
          let len ← readI32
          let len ← checked (validateProtocolLength len "notice" true)
          let _ ← Prog.take len
          complete fuel result
        else .fail .refused

def handshake (platform : Platform) (config : NzConnectionConfig) (fuel : Nat) :
    Talk HandshakeResult := do
  let version ← negotiate 6 6
  writeFrame hsv2Db (cstringPayload config.database)
  acknowledged
  secureSession config.securityLevel
  sendOptions (optionPlan platform config version)
  authenticate platform config.password
  complete fuel ⟨0, 0⟩

/-- A server that sends the script and closes. -/
def server : Peer Stop Bytes where
  read n script :=
    if n ≤ script.length then (.ok (script.take n), script.drop n) else (.error .closed, script)
  upgrade script := (.error .noTls, script)

end Exchange

/-! ## Mirroring -/

/-- The errors that stand for a stop. -/
def Reports (ofBody : Bytes → NzError → Prop) : Stop → Bytes → NzError → Prop
  | .closed, _, e => e.kind = .closed
  | .refused, _, e => e.kind = .protocol
  | .backendError, body, e => ofBody body e
  | .noTls, _, e => e.kind = .unsupported

/-- The rest of a script, as the session sees it. -/
def Shows (view : View) (script : Bytes) : Prop :=
  view = bytesView script

section Mirrors

variable {closed : String} {check : Nat → NzResult Unit}
  (hcheck : ∀ n ≤ maxProtocolPayload, check n = .ok ()) {α : Type}

variable {ofBody : Bytes → NzError → Prop}

include hcheck in
theorem take_mirrors {n : Nat} (hn : n ≤ maxProtocolPayload) :
    Mirrors (plainPeer closed check) Exchange.server Shows (Reports ofBody) (Prog.take n)
      (Prog.take n) := by
  apply Mirrors.take
  · rintro view script bytes rest rfl hread
    rw [plainPeer_read hcheck closed hn]
    by_cases hle : n ≤ script.length
    · simp only [Exchange.server, if_pos hle] at hread
      cases hread
      rw [if_pos hle]
      exact ⟨rfl, rfl⟩
    · simp only [Exchange.server, if_neg hle] at hread
      cases hread
  · rintro view script x rest rfl hread
    rw [plainPeer_read hcheck closed hn]
    by_cases hle : n ≤ script.length
    · simp only [Exchange.server, if_pos hle] at hread
      cases hread
    · simp only [Exchange.server, if_neg hle] at hread
      cases hread
      rw [if_neg hle]
      exact ⟨_, rfl, rfl⟩

/-- A backend error is what its body is taken for. -/
theorem backendError_mirrors {p : Step α}
    (h : ∀ body, (p.run (plainPeer closed check) (bytesView body)).sent = [] ∧
      ∃ e, (p.run (plainPeer closed check) (bytesView body)).outcome = .error e ∧ ofBody body e) :
    Mirrors (plainPeer closed check) Exchange.server Shows (Reports ofBody) p
      (.fail .backendError) := by
  rintro view body rfl
  obtain ⟨hsent, e, he, hbody⟩ := h body
  exact .of_error hsent rfl he hbody

end Mirrors

/-! ## The engines mirror the exchange -/

/-- From every script, the engine's program ends as the exchange does. -/
abbrev Follows (closed : String) (check : Nat → NzResult Unit) (ofBody : Bytes → NzError → Prop)
    {α : Type} (p : Step α) (q : Talk α) : Prop :=
  Mirrors (plainPeer closed check) Exchange.server Shows (Reports ofBody) p q

def Sync.ofBody (body : Bytes) (e : NzError) : Prop :=
  (Legacy body → e.kind = .database ∨ e.kind = .closed) ∧
    (¬Legacy body → Alike (framedVerdict body) e)

def Native.ofBody (body : Bytes) (e : NzError) : Prop :=
  Alike (framedVerdict body) e

theorem authSaltLen_cases (request : Int) :
    (∃ n, authSaltLen request = .ok n ∧ n ≤ 2) ∨
      ∃ m, authSaltLen request = .error (.protocol m) := by
  unfold authSaltLen
  split
  · exact .inl ⟨0, rfl, by decide⟩
  split
  · exact .inl ⟨2, rfl, by decide⟩
  · exact .inr ⟨_, rfl⟩

theorem authResponse_cases (platform : Platform) (request : Int) (password salt : Bytes) :
    (∃ r, authResponse platform request password salt = .ok r) ∨
      ∃ m, authResponse platform request password salt = .error (.protocol m) := by
  unfold authResponse
  split
  · exact .inl ⟨_, rfl⟩
  split
  · exact .inl ⟨_, rfl⟩
  split
  · split
    · exact .inr ⟨_, rfl⟩
    · exact .inl ⟨_, rfl⟩
  · exact .inr ⟨_, rfl⟩

theorem validateVersionDowngrade_cases (current proposed : Nat) :
    validateVersionDowngrade current proposed = .ok () ∨
      ∃ m, validateVersionDowngrade current proposed = .error (.protocol m) := by
  unfold validateVersionDowngrade
  split
  · exact .inr ⟨_, rfl⟩
  · exact .inl rfl

/-- A length is accepted or refused whatever field it stands in. -/
theorem validateProtocolLength_cases (len : Int) (field field' : String) :
    (∃ n, n ≤ maxProtocolPayload ∧ validateProtocolLength len field true = .ok n ∧
      validateProtocolLength len field' true = .ok n) ∨
    ∃ e e', e.kind = .protocol ∧ validateProtocolLength len field true = .error e ∧
      validateProtocolLength len field' true = .error e' := by
  cases hvalid : validateProtocolLength len field true with
  | ok n =>
      have hspec := validateProtocolLength_eq_ok.mp hvalid
      exact .inl ⟨n, hspec.2.1, rfl, validateProtocolLength_eq_ok.mpr hspec⟩
  | error e =>
      cases hvalid' : validateProtocolLength len field' true with
      | ok n =>
          rw [validateProtocolLength_eq_ok.mpr (validateProtocolLength_eq_ok.mp hvalid')] at hvalid
          cases hvalid
      | error e' =>
          exact .inr ⟨e, e', protocol_of_fault (validateProtocolLength_error hvalid), rfl, rfl⟩

section Follows

variable {closed : String} {check : Nat → NzResult Unit}
  (hcheck : ∀ n ≤ maxProtocolPayload, check n = .ok ()) {ofBody : Bytes → NzError → Prop}

theorem refused_follows {α : Type} (m : String) :
    Follows closed check ofBody (.fail (.protocol m) : Step α) (.fail .refused) :=
  Mirrors.fail fun _ => rfl

include hcheck

theorem readByte_follows : Follows closed check ofBody Sync.readByte Exchange.readByte :=
  (take_mirrors hcheck (by decide)).bind fun _ => Mirrors.ret _

theorem readI32_follows : Follows closed check ofBody Sync.readI32 Exchange.readI32 :=
  (take_mirrors hcheck (by decide)).bind fun _ => Mirrors.ret _

end Follows

/-! ### The asynchronous engine -/

namespace Native

variable {closed : String} {check : Nat → NzResult Unit}
  (hcheck : ∀ n ≤ maxProtocolPayload, check n = .ok ())

include hcheck

theorem readBackendError_follows {α : Type} (stage : String) :
    Follows closed check ofBody (readBackendError stage : Step α) (.fail .backendError) := by
  apply backendError_mirrors
  intro body
  obtain ⟨e, view, hrun, halike⟩ := readBackendError_run hcheck stage body
  rw [hrun]
  exact ⟨rfl, e, rfl, halike⟩

theorem expectAck_follows (stage : String) :
    Follows closed check ofBody (expectAck stage) Exchange.acknowledged := by
  refine (readByte_follows hcheck).bind fun b => ?_
  split
  · exact .ret ()
  split
  · exact readBackendError_follows hcheck stage
  · exact refused_follows _

theorem negotiateVersion_follows (rounds version : Nat) :
    Follows closed check ofBody (negotiateVersion rounds version)
      (Exchange.negotiate rounds version) := by
  induction rounds generalizing version with
  | zero => exact .unfinished
  | succ rounds ih =>
      refine (Mirrors.send _).bind fun _ => (readByte_follows hcheck).bind fun b => ?_
      split
      · exact .ret version
      split
      · refine (readByte_follows hcheck).bind fun c => ?_
        cases proposedVersion c with
        | none => exact refused_follows _
        | some proposed =>
            dsimp only
            obtain hok | ⟨m, herror⟩ := validateVersionDowngrade_cases version proposed
            · rw [hok]
              exact ih proposed
            · rw [herror]
              exact refused_follows m
      split
      · exact readBackendError_follows hcheck _
      · exact refused_follows _

theorem secureSession_follows (level : SecurityLevel) :
    Follows closed check ofBody (secureSession level) (Exchange.secureSession level) := by
  refine (Mirrors.send _).bind fun _ => (readByte_follows hcheck).bind fun b => ?_
  by_cases hn : b = letterN
  · by_cases hlevel : level = .onlySecuredSession
    · rw [if_neg (fun h => h.2 hlevel), if_neg (by rw [hn]; decide), if_pos hn, if_pos hn,
        if_pos hlevel]
      exact refused_follows _
    · rw [if_pos ⟨hn, hlevel⟩, if_pos hn, if_neg hlevel]
      exact .ret ()
  rw [if_neg (fun h => hn h.1), if_neg hn]
  split
  · refine (Mirrors.send _).bind fun _ => Mirrors.bind ?_ fun _ => expectAck_follows hcheck _
    exact .switch (fun _ => rfl) fun _ _ _ => ⟨_, rfl, rfl⟩
  split
  · exact readBackendError_follows hcheck _
  · exact refused_follows _

theorem sendOptions_follows (options : List HandshakeOption) :
    Follows closed check ofBody (sendOptions options) (Exchange.sendOptions options) := by
  induction options with
  | nil => exact .ret ()
  | cons option options ih =>
      refine Mirrors.bind ?_ fun _ => ih
      refine (Mirrors.send _).bind fun _ => ?_
      cases option.ackAfter with
      | none => exact .ret ()
      | some stage => exact expectAck_follows hcheck stage

theorem authenticate_follows (platform : Platform) (password : Bytes) :
    Follows closed check ofBody (authenticate platform password)
      (Exchange.authenticate platform password) := by
  refine (readByte_follows hcheck).bind fun b => ?_
  split
  · refine (readI32_follows hcheck).bind fun request => ?_
    obtain ⟨n, hok, hn⟩ | ⟨m, herror⟩ := authSaltLen_cases request
    · rw [hok]
      have hmax : n ≤ maxProtocolPayload := Nat.le_trans hn (by decide)
      refine Mirrors.bind (q := Prog.take n) ?_ fun salt => ?_
      · rw [readBytes_eq hmax]
        exact take_mirrors hcheck hmax
      obtain ⟨response, hresponse⟩ | ⟨m, herror⟩ :=
        authResponse_cases platform request password salt
      · rw [hresponse]
        cases response with
        | none => exact .ret ()
        | some payload => exact .send _
      · rw [herror]
        exact refused_follows m
    · rw [herror]
      exact refused_follows m
  split
  · exact readBackendError_follows hcheck _
  · exact refused_follows _

theorem skipBytes_bind_follows {α : Type} {k : Unit → Step α} {l : Bytes → Talk α}
    (h : ∀ bytes, Follows closed check ofBody (k ()) (l bytes)) :
    Follows closed check ofBody ((skipBytes 4).bind k) ((Prog.take 4).bind l) := by
  show Follows closed check ofBody (((Prog.take 4).bind fun _ => .ret ()).bind k) _
  rw [Prog.bind_assoc]
  exact (take_mirrors hcheck (by decide)).bind h

theorem connectionComplete_follows (fuel : Nat) (result : HandshakeResult) :
    Follows closed check ofBody (connectionComplete fuel result)
      (Exchange.complete fuel result) := by
  induction fuel generalizing result with
  | zero => exact .unfinished
  | succ fuel ih =>
      refine (readByte_follows hcheck).bind fun b => ?_
      split
      · exact ih result
      split
      · exact (readI32_follows hcheck).bind fun _ => ih result
      split
      · exact readBackendError_follows hcheck _
      refine skipBytes_bind_follows hcheck fun _ => ?_
      split
      · refine skipBytes_bind_follows hcheck fun _ => ?_
        refine (readI32_follows hcheck).bind fun pid => ?_
        exact (readI32_follows hcheck).bind fun key => ih _
      split
      · exact .ret result
      split
      · refine (readI32_follows hcheck).bind fun len => ?_
        obtain ⟨n, hn, hok, hok'⟩ | ⟨e, e', hkind, herror, herror'⟩ :=
          validateProtocolLength_cases len "connectionCompleteNotice" "notice"
        · rw [hok, hok']
          refine Mirrors.bind (q := Prog.take n) ?_ fun _ => ih result
          rw [readBytes_eq hn]
          exact take_mirrors hcheck hn
        · rw [herror, herror']
          exact .fail fun _ => hkind
      · exact refused_follows _

theorem handshake_follows (platform : Platform) (config : NzConnectionConfig) (fuel : Nat) :
    Follows closed check ofBody (handshake platform config fuel)
      (Exchange.handshake platform config fuel) := by
  refine (negotiateVersion_follows hcheck 6 6).bind fun version => ?_
  refine (Mirrors.send _).bind fun _ => ?_
  refine (expectAck_follows hcheck _).bind fun _ => ?_
  refine (secureSession_follows hcheck _).bind fun _ => ?_
  refine (sendOptions_follows hcheck _).bind fun _ => ?_
  refine (authenticate_follows hcheck _ _).bind fun _ => ?_
  exact connectionComplete_follows hcheck fuel _

end Native

/-! ### The synchronous engine -/

namespace Sync

/-- Only a failed read is a timeout. -/
theorem stageError_eq (platform : Platform) (stage : String) {e : NzError} (h : e.kind ≠ .io) :
    stageError platform stage e = e := by
  cases e with
  | io kind => exact absurd rfl h
  | _ => rfl

/-- No stop is reported as a failure of the socket. -/
theorem reports_kind {x : Stop} {body : Bytes} {e : NzError} (h : Reports ofBody x body e) :
    e.kind ≠ .io := by
  cases x with
  | closed => rw [show e.kind = .closed from h]; decide
  | refused => rw [show e.kind = .protocol from h]; decide
  | noTls => rw [show e.kind = .unsupported from h]; decide
  | backendError =>
      by_cases hlegacy : Legacy body
      · obtain hkind | hkind := h.1 hlegacy <;> rw [hkind] <;> decide
      · rw [← (h.2 hlegacy).1, framedVerdict]
        dsimp only
        repeat' split
        all_goals
          intro hkind
          cases hkind

variable {closed : String} {check : Nat → NzResult Unit}

theorem stage_follows (platform : Platform) (stage : String) {α : Type} {p : Step α} {q : Talk α}
    (h : Follows closed check ofBody p q) :
    Follows closed check ofBody (p.mapError (stageError platform stage)) q := by
  refine Mirrors.mapError ?_ h
  intro x body e he
  rw [stageError_eq platform stage (reports_kind he)]
  exact he

variable (hcheck : ∀ n ≤ maxProtocolPayload, check n = .ok ())

include hcheck

theorem throwBackendError_follows {α : Type} (stage : String) :
    Follows closed check ofBody (throwBackendError stage : Step α) (.fail .backendError) := by
  apply backendError_mirrors
  intro body
  obtain ⟨e, view, hrun, hbody⟩ := throwBackendError_run hcheck stage body
  rw [hrun]
  exact ⟨rfl, e, rfl, hbody⟩

theorem expectN_follows (platform : Platform) (stage : String) :
    Follows closed check ofBody (expectN platform stage) Exchange.acknowledged := by
  refine (stage_follows platform stage (readByte_follows hcheck)).bind fun b => ?_
  split
  · exact .ret ()
  split
  · exact throwBackendError_follows hcheck stage
  · exact refused_follows _

theorem connHandshakeNegotiate_follows (rounds version : Nat) :
    Follows closed check ofBody (connHandshakeNegotiate rounds version)
      (Exchange.negotiate rounds version) := by
  induction rounds generalizing version with
  | zero => exact .unfinished
  | succ rounds ih =>
      refine (Mirrors.send _).bind fun _ => (readByte_follows hcheck).bind fun b => ?_
      split
      · exact .ret version
      split
      · refine (readByte_follows hcheck).bind fun c => ?_
        cases proposedVersion c with
        | none => exact refused_follows _
        | some proposed =>
            dsimp only
            obtain hok | ⟨m, herror⟩ := validateVersionDowngrade_cases version proposed
            · rw [hok]
              exact ih proposed
            · rw [herror]
              exact refused_follows m
      split
      · exact throwBackendError_follows hcheck _
      · exact refused_follows _

theorem connSendDatabase_follows (database : Bytes) :
    Follows closed check ofBody (connSendDatabase database)
      ((Exchange.writeFrame hsv2Db (cstringPayload database)).bind fun _ =>
        Exchange.acknowledged) := by
  refine (Mirrors.send _).bind fun _ => (readByte_follows hcheck).bind fun b => ?_
  split
  · exact .ret ()
  split
  · exact throwBackendError_follows hcheck _
  · exact refused_follows _

/-- The answer to the SSL request and the upgrade it may ask for. -/
theorem secured_follows (platform : Platform) (level : SecurityLevel) :
    Follows closed check ofBody
      (((connSecureSession level).mapError (stageError platform "security")).bind fun secure =>
        (if secure then connUpgrade platform else .ret ()))
      (Exchange.secureSession level) := by
  show Follows closed check ofBody
    ((((writeI32Frame hsv2SslNegotiate level.asI32).bind fun _ => readByte.bind _).mapError
      _).bind _) _
  rw [Prog.mapError_bind, Prog.bind_assoc]
  refine (stage_follows platform _ (Mirrors.send _)).bind fun _ => ?_
  rw [Prog.mapError_bind, Prog.bind_assoc]
  refine (stage_follows platform _ (readByte_follows hcheck)).bind fun b => ?_
  by_cases hn : b = letterN
  · rw [if_pos hn, if_pos hn]
    by_cases hlevel : level = .onlySecuredSession
    · rw [if_pos hlevel, if_pos hlevel]
      exact refused_follows _
    · rw [if_neg hlevel, if_neg hlevel]
      exact .ret ()
  rw [if_neg hn, if_neg hn]
  by_cases hs : b = letterS
  · rw [if_pos hs, if_pos hs]
    refine (stage_follows platform _ (Mirrors.send _)).bind fun _ => ?_
    refine (stage_follows platform _ ?_).bind fun _ =>
      stage_follows platform _ (expectN_follows hcheck platform _)
    exact .switch (fun _ => rfl) fun _ _ _ => ⟨_, rfl, rfl⟩
  rw [if_neg hs, if_neg hs]
  by_cases he : b = letterE
  · rw [if_pos he, if_pos he]
    exact (stage_follows platform _ (throwBackendError_follows hcheck _)).of_fail _
  · rw [if_neg he, if_neg he]
    exact refused_follows _

theorem sendOptions_follows (platform : Platform) (options : List HandshakeOption) :
    Follows closed check ofBody (sendOptions platform options) (Exchange.sendOptions options) := by
  induction options with
  | nil => exact .ret ()
  | cons option options ih =>
      refine Mirrors.bind ?_ fun _ => ih
      refine (Mirrors.send _).bind fun _ => ?_
      cases option.ackAfter with
      | none => exact .ret ()
      | some stage => exact expectN_follows hcheck platform stage

theorem connAuthenticate_follows (platform : Platform) (password : Bytes) :
    Follows closed check ofBody (connAuthenticate platform password)
      (Exchange.authenticate platform password) := by
  refine (readByte_follows hcheck).bind fun b => ?_
  by_cases he : b = letterE
  · rw [if_pos he, if_neg (by rw [he]; decide), if_pos he]
    exact throwBackendError_follows hcheck _
  rw [if_neg he, if_neg he]
  split
  · refine (readI32_follows hcheck).bind fun request => ?_
    obtain ⟨n, hok, hn⟩ | ⟨m, herror⟩ := authSaltLen_cases request
    · rw [hok]
      have hmax : n ≤ maxProtocolPayload := Nat.le_trans hn (by decide)
      refine Mirrors.bind (q := Prog.take n) (take_mirrors hcheck hmax) fun salt => ?_
      obtain ⟨response, hresponse⟩ | ⟨m, herror⟩ :=
        authResponse_cases platform request password salt
      · rw [hresponse]
        cases response with
        | none => exact .ret ()
        | some payload => exact .send _
      · rw [herror]
        exact refused_follows m
    · rw [herror]
      exact refused_follows m
  · exact refused_follows _

theorem connConnectionComplete_follows (fuel : Nat) (result : HandshakeResult) :
    Follows closed check ofBody (connConnectionComplete fuel result)
      (Exchange.complete fuel result) := by
  induction fuel generalizing result with
  | zero => exact .unfinished
  | succ fuel ih =>
      refine (readByte_follows hcheck).bind fun b => ?_
      split
      · exact ih result
      split
      · exact (readI32_follows hcheck).bind fun _ => ih result
      split
      · exact throwBackendError_follows hcheck _
      refine (take_mirrors hcheck (by decide)).bind fun _ => ?_
      split
      · refine (take_mirrors hcheck (by decide)).bind fun _ => ?_
        refine (readI32_follows hcheck).bind fun pid => ?_
        exact (readI32_follows hcheck).bind fun key => ih _
      split
      · exact .ret result
      split
      · refine (readI32_follows hcheck).bind fun len => ?_
        obtain ⟨n, hn, hok, hok'⟩ | ⟨e, e', hkind, herror, herror'⟩ :=
          validateProtocolLength_cases len "connectionCompleteNoticePayload" "notice"
        · rw [hok, hok']
          exact Mirrors.bind (q := Prog.take n) (take_mirrors hcheck hn) fun _ => ih result
        · rw [herror, herror']
          exact .fail fun _ => hkind
      · exact refused_follows _

theorem handshake_follows (platform : Platform) (config : NzConnectionConfig) (fuel : Nat) :
    Follows closed check ofBody (handshake platform config fuel)
      (Exchange.handshake platform config fuel) := by
  refine (stage_follows platform _ (connHandshakeNegotiate_follows hcheck 6 6)).bind fun version => ?_
  have hrest : Follows closed check ofBody (connRest platform config fuel version)
      ((Exchange.sendOptions (optionPlan platform config version)).bind fun _ =>
        (Exchange.authenticate platform config.password).bind fun _ =>
          Exchange.complete fuel ⟨0, 0⟩) := by
    refine (stage_follows platform _ (sendOptions_follows hcheck platform _)).bind fun _ => ?_
    refine (stage_follows platform _ (connAuthenticate_follows hcheck platform _)).bind fun _ => ?_
    exact stage_follows platform _ (connConnectionComplete_follows hcheck fuel _)
  have hsecured := (secured_follows hcheck platform config.securityLevel).bind fun _ => hrest
  rw [Prog.bind_assoc] at hsecured
  have hdatabase := (stage_follows platform "database"
    (connSendDatabase_follows hcheck config.database)).bind fun _ => hsecured
  rw [Prog.bind_assoc] at hdatabase
  exact hdatabase

end Sync

end NzRust.Handshake
