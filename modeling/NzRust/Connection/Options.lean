import NzRust.Connection.ConnectionString

/-!
# The options of a connection string

Each pair of the query reads as one setting, and the loop assigns the settings
one after the other. A setting writes the field of its option, but `sslmode`
writes the security level beside `securityLevel` and, for one of its modes, the
certificate check beside `rejectUnauthorized`.
-/

namespace NzRust.Config

open Checked Sql

/-! ## Settings -/

inductive SslMode where
  | disable
  | require
  | verifyCa
  | verifyFull
  deriving DecidableEq, Repr

inductive Setting where
  | securityLevel (level : SecurityLevel)
  | sslCertPath (path : Text)
  | rejectUnauthorized (reject : Bool)
  | sslMode (mode : SslMode)
  | connectionTimeout (seconds : Nat)
  | commandTimeout (seconds : Nat)
  | appName (name : Text)
  | osUser (name : Text)
  | clientHostName (name : Text)
  | clientType (id : Int)
  | other
  deriving DecidableEq

/-- The security level that a mode asks for. -/
def SslMode.level : SslMode → SecurityLevel
  | .disable => .onlyUnsecuredSession
  | _ => .onlySecuredSession

def Setting.apply (config : NzConnectionConfig) : Setting → NzConnectionConfig
  | .securityLevel level => { config with securityLevel := level }
  | .sslCertPath path => { config with sslCertPath := some path }
  | .rejectUnauthorized reject => { config with rejectUnauthorized := reject }
  | .sslMode mode =>
      { config with
        securityLevel := mode.level
        rejectUnauthorized := if mode = .require then false else config.rejectUnauthorized }
  | .connectionTimeout seconds => { config with connectionTimeout := seconds }
  | .commandTimeout seconds => { config with commandTimeout := seconds }
  | .appName name => { config with appName := name }
  | .osUser name => { config with osUser := name }
  | .clientHostName name => { config with clientHostName := name }
  | .clientType id => { config with clientType := id }
  | .other => config

def SslMode.parse (value : Text) : Option SslMode :=
  if isOneOf value ["disable"] then some .disable
  else if isOneOf value ["require"] then some .require
  else if isOneOf value ["verify-ca"] then some .verifyCa
  else if isOneOf value ["verify-full"] then some .verifyFull
  else none

def parseReject (value : Text) : Option Bool :=
  if isOneOf value ["true", "1"] then some true
  else if isOneOf value ["false", "0"] then some false
  else none

/-- The setting that a value of an option asks for. -/
def readSetting (name : OptionName) (value : Text) : NzResult Setting :=
  let orError (message : String) (setting : Option Setting) : NzResult Setting :=
    setting.elim (.error (.config message)) .ok
  match name with
  | .securityLevel =>
      orError "Invalid security level" ((SecurityLevel.parse value).map .securityLevel)
  | .sslCertPath => .ok (.sslCertPath value)
  | .rejectUnauthorized =>
      orError "Invalid rejectUnauthorized boolean" ((parseReject value).map .rejectUnauthorized)
  | .sslMode => orError "Invalid sslmode" ((SslMode.parse value).map .sslMode)
  | .connectionTimeout =>
      orError "Invalid connection timeout" ((parseUnsigned 64 value).map .connectionTimeout)
  | .commandTimeout =>
      orError "Invalid command timeout" ((parseUnsigned 64 value).map .commandTimeout)
  | .appName => .ok (.appName value)
  | .osUser => .ok (.osUser value)
  | .clientHostName => .ok (.clientHostName value)
  | .clientType => (parseClientType value).map .clientType
  | .other _ => .ok .other

def readOption (pair : Text) : NzResult Setting := do
  let key ← percentDecode true (splitPair pair).1
  let value ← percentDecode true (splitPair pair).2
  readSetting (optionName (asciiLower key)) value

theorem isOneOf_pair (value : Text) (a b c : String) :
    isOneOf value [a, b, c] = (isOneOf value [a] || (isOneOf value [b] || isOneOf value [c])) := by
  simp [isOneOf]

theorem applyOption_eq (config : NzConnectionConfig) (pair : Text) :
    applyOption config pair = (readOption pair).map (Setting.apply config) := by
  unfold applyOption readOption
  cases percentDecode true (splitPair pair).1 with
  | error e => rfl
  | ok key =>
      cases percentDecode true (splitPair pair).2 with
      | error e => rfl
      | ok value =>
          simp only [bind, Except.bind]
          cases hname : optionName (asciiLower key) with
          | securityLevel =>
              dsimp only [readSetting]
              cases SecurityLevel.parse value <;> rfl
          | rejectUnauthorized =>
              dsimp only [readSetting, parseReject]
              split_ifs <;> rfl
          | sslMode =>
              dsimp only [readSetting, SslMode.parse]
              rw [isOneOf_pair]
              cases isOneOf value ["disable"] <;> cases isOneOf value ["require"] <;>
                cases isOneOf value ["verify-ca"] <;> cases isOneOf value ["verify-full"] <;> rfl
          | connectionTimeout =>
              dsimp only [readSetting]
              cases parseUnsigned 64 value <;> rfl
          | commandTimeout =>
              dsimp only [readSetting]
              cases parseUnsigned 64 value <;> rfl
          | clientType =>
              dsimp only [readSetting]
              cases parseClientType value <;> rfl
          | sslCertPath | appName | osUser | clientHostName => rfl
          | other key => rfl

/-! ## The loop -/

/-- The setting of a pair, where it has one that is accepted. -/
def settingOf (pair : Text) : Option Setting :=
  (readOption pair).toOption

def assign (config : NzConnectionConfig) (pair : Text) : NzConnectionConfig :=
  (settingOf pair).elim config (Setting.apply config)

/-- The loop ends well where every pair is accepted, and then it has assigned them all. -/
theorem foldlM_eq_ok {pairs : List Text} {config result : NzConnectionConfig} :
    pairs.foldlM applyOption config = .ok result ↔
      (∀ pair ∈ pairs, settingOf pair ≠ none) ∧ result = pairs.foldl assign config := by
  induction pairs generalizing config with
  | nil =>
      simp only [List.foldlM_nil, List.foldl_nil, List.not_mem_nil, false_imp_iff, implies_true,
        true_and]
      exact ⟨fun h => (Except.ok.inj h).symm, fun h => congrArg Except.ok h.symm⟩
  | cons pair pairs ih =>
      rw [List.foldlM_cons, applyOption_eq, List.foldl_cons, List.forall_mem_cons]
      cases hread : readOption pair with
      | error e =>
          have hnone : settingOf pair = none := by rw [settingOf, hread]; rfl
          exact ⟨nofun, fun h => absurd hnone h.1.1⟩
      | ok setting =>
          have hsome : settingOf pair = some setting := by rw [settingOf, hread]; rfl
          have hassign : assign config pair = setting.apply config := by rw [assign, hsome]; rfl
          rw [hassign, hsome]
          have htail := @ih (setting.apply config)
          simp only [ne_eq, reduceCtorEq, not_false_eq_true, true_and] at htail ⊢
          exact htail

/-! ## Valid settings -/

/-- The names that the server reads up to a NUL have none. -/
def Setting.NulFree : Setting → Prop
  | .appName name => '\x00' ∉ name
  | .osUser name => '\x00' ∉ name
  | .clientHostName name => '\x00' ∉ name
  | _ => True

/-- The option that a setting is one of. -/
def Setting.owner : Setting → Option OptionName
  | .securityLevel _ => some .securityLevel
  | .sslCertPath _ => some .sslCertPath
  | .rejectUnauthorized _ => some .rejectUnauthorized
  | .sslMode _ => some .sslMode
  | .connectionTimeout _ => some .connectionTimeout
  | .commandTimeout _ => some .commandTimeout
  | .appName _ => some .appName
  | .osUser _ => some .osUser
  | .clientHostName _ => some .clientHostName
  | .clientType _ => some .clientType
  | .other => none

/-- A setting read of a value: which option it is one of, and that its names are the value. -/
structure SettingRead (name : OptionName) (value : Text) (setting : Setting) : Prop where
  owner : setting.owner = some name ∨ setting.owner = none ∧ ∃ key, name = .other key
  nulFree : '\x00' ∉ value → setting.NulFree

theorem readSetting_ok {name : OptionName} {value : Text} {setting : Setting}
    (h : readSetting name value = .ok setting) : SettingRead name value setting := by
  cases name with
  | appName | osUser | clientHostName =>
      cases h
      exact ⟨.inl rfl, id⟩
  | sslCertPath =>
      cases h
      exact ⟨.inl rfl, fun _ => trivial⟩
  | other key =>
      cases h
      exact ⟨.inr ⟨rfl, key, rfl⟩, fun _ => trivial⟩
  | securityLevel =>
      dsimp only [readSetting] at h
      cases hparse : SecurityLevel.parse value <;> rw [hparse] at h <;> cases h
      exact ⟨.inl rfl, fun _ => trivial⟩
  | rejectUnauthorized =>
      dsimp only [readSetting] at h
      cases hparse : parseReject value <;> rw [hparse] at h <;> cases h
      exact ⟨.inl rfl, fun _ => trivial⟩
  | sslMode =>
      dsimp only [readSetting] at h
      cases hparse : SslMode.parse value <;> rw [hparse] at h <;> cases h
      exact ⟨.inl rfl, fun _ => trivial⟩
  | connectionTimeout | commandTimeout =>
      dsimp only [readSetting] at h
      cases hparse : parseUnsigned 64 value <;> rw [hparse] at h <;> cases h
      exact ⟨.inl rfl, fun _ => trivial⟩
  | clientType =>
      dsimp only [readSetting] at h
      cases hparse : parseClientType value <;> rw [hparse] at h <;> cases h
      exact ⟨.inl rfl, fun _ => trivial⟩

/-- The option that the key of a pair names, where the key can be decoded. -/
def optionOf (pair : Text) : Option OptionName :=
  (percentDecode true (splitPair pair).1).toOption.map fun key => optionName (asciiLower key)

/-- A setting is read of the decoded value, under the name of the decoded key. -/
theorem settingOf_eq_some {pair : Text} {setting : Setting} (h : settingOf pair = some setting) :
    ∃ name value, optionOf pair = some name ∧ percentDecode true (splitPair pair).2 = .ok value ∧
      readSetting name value = .ok setting := by
  unfold settingOf readOption at h
  cases hkey : percentDecode true (splitPair pair).1 with
  | error e =>
      rw [hkey] at h
      cases h
  | ok key =>
      cases hvalue : percentDecode true (splitPair pair).2 with
      | error e =>
          rw [hkey, hvalue] at h
          cases h
      | ok value =>
          rw [hkey, hvalue] at h
          simp only [bind, Except.bind] at h
          cases hread : readSetting (optionName (asciiLower key)) value with
          | error e =>
              rw [hread] at h
              cases h
          | ok s =>
              rw [hread] at h
              cases h
              exact ⟨_, value, by rw [optionOf, hkey]; rfl, rfl, hread⟩

theorem settingOf_nulFree {pair : Text} {setting : Setting} (h : settingOf pair = some setting) :
    setting.NulFree := by
  obtain ⟨name, value, -, hvalue, hread⟩ := settingOf_eq_some h
  exact (readSetting_ok hread).nulFree (percentDecode_eq_ok hvalue).1

/-- The option of a setting is the one that the pair names. -/
theorem settingOf_owner {pair : Text} {setting : Setting} (h : settingOf pair = some setting)
    {option : OptionName} (howner : setting.owner = some option) : optionOf pair = some option := by
  obtain ⟨name, value, hname, -, hread⟩ := settingOf_eq_some h
  rcases (readSetting_ok hread).owner with hsame | ⟨hnone, -⟩
  · rw [hname, ← hsame, howner]
  · rw [howner] at hnone
    cases hnone

/-- A pair that is accepted and names a known option sets it. -/
theorem owner_of_optionOf {pair : Text} {setting : Setting} (h : settingOf pair = some setting)
    {option : OptionName} (hoption : optionOf pair = some option)
    (hknown : ∀ key, option ≠ .other key) : setting.owner = some option := by
  obtain ⟨name, value, hname, -, hread⟩ := settingOf_eq_some h
  rw [hoption] at hname
  cases hname
  rcases (readSetting_ok hread).owner with hsame | ⟨-, key, hkey⟩
  · exact hsame
  · exact absurd hkey (hknown key)

theorem Valid.apply {config : NzConnectionConfig} (h : Valid config) {setting : Setting}
    (hnul : setting.NulFree) : Valid (setting.apply config) := by
  cases setting with
  | appName name => exact { h with appName := hnul }
  | osUser name => exact { h with osUser := hnul }
  | clientHostName name => exact { h with clientHostName := hnul }
  | other => exact h
  | _ => exact { h with }

theorem Valid.assign {config : NzConnectionConfig} (h : Valid config) (pair : Text) :
    Valid (assign config pair) := by
  unfold Config.assign
  cases hsetting : settingOf pair with
  | none => exact h
  | some setting => exact h.apply (settingOf_nulFree hsetting)

theorem Valid.foldl {config : NzConnectionConfig} (h : Valid config) (pairs : List Text) :
    Valid (pairs.foldl Config.assign config) := by
  induction pairs generalizing config with
  | nil => exact h
  | cons pair pairs ih => exact ih (h.assign pair)

theorem parseConnectionString_safe (env : Environment) (connectionString : Text) :
    Safe (parseConnectionString env connectionString) fun config =>
      env.NulFree → Valid config := by
  apply (afterScheme_safe _).bind
  intro rest _
  cases splitOnce '?' rest with
  | none => exact (parseAuthority_safe env rest).weaken fun _ h => h.2
  | some parts =>
      apply (parseAuthority_safe env parts.1).bind
      intro config hconfig
      refine (lift_safe _).weaken fun result hresult henv => ?_
      obtain ⟨-, rfl⟩ := foldlM_eq_ok.mp hresult
      exact (hconfig.2 henv).foldl _

end NzRust.Config
