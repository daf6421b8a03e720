import NzRust.Connection.Options

/-!
# Credentials in a connection string

A user, a password and a database that are written with every reserved byte
escaped come back as they are: what is escaped has none of the characters at
which the text is cut, and the decoder undoes the escapes.
-/

namespace NzRust.Config

open Checked Sql

/-! ## Escaping -/

/-- The bytes that a URI may hold anywhere. -/
def isUnreserved (byte : UInt8) : Bool :=
  let c := Char.ofNat byte.toNat
  byte < 128 && (c.isAlphanum || c == '-' || c == '.' || c == '_' || c == '~')

/-- A hexadecimal digit, in lower or in upper case. -/
def hexDigit (lower : Bool) (n : Nat) : Char :=
  if lower then Nat.digitChar n else (Nat.digitChar n).toUpper

def percentEncodeByte (lower : Bool) (byte : UInt8) : Text :=
  if isUnreserved byte then [Char.ofNat byte.toNat]
  else ['%', hexDigit lower (byte.toNat / 16), hexDigit lower (byte.toNat % 16)]

def percentEncode (lower : Bool) (text : Text) : Text :=
  (toUtf8 text).flatMap (percentEncodeByte lower)

/-- The characters that escaped text is made of. -/
def isEscapedChar (c : Char) : Bool :=
  c == '%' || (c.toNat < 128 && isUnreserved (ascii c))

theorem percentEncodeByte_chars (lower : Bool) (byte : UInt8) :
    (percentEncodeByte lower byte).all isEscapedChar = true := by
  revert byte
  apply forall_byte
  cases lower <;> decide +kernel

theorem percentEncode_chars {lower : Bool} {text : Text} {c : Char}
    (hc : c ∈ percentEncode lower text) : isEscapedChar c = true := by
  obtain ⟨byte, -, hc⟩ := List.mem_flatMap.mp hc
  exact List.all_eq_true.mp (percentEncodeByte_chars lower byte) c hc

theorem not_mem_percentEncode {lower : Bool} {text : Text} {c : Char}
    (h : isEscapedChar c = false) : c ∉ percentEncode lower text := by
  intro hc
  rw [percentEncode_chars hc] at h
  cases h

theorem escaped_not_whitespace {c : Char} (h : isEscapedChar c = true) :
    isWhitespace c = false := by
  have hlow : ∀ n < 128, isEscapedChar (Char.ofNat n) = true → isWhitespace (Char.ofNat n) = false := by
    decide +kernel
  have hascii : c.toNat < 128 := by
    simp only [isEscapedChar, Bool.or_eq_true, beq_iff_eq, Bool.and_eq_true, decide_eq_true_eq] at h
    rcases h with rfl | h
    · decide
    · exact h.1
  have hc := hlow c.toNat hascii
  rw [Char.ofNat_toNat] at hc
  exact hc h

/-! ## The decoder undoes the escapes -/

/-- What the decoder reads of the escape of one byte. -/
def escapeReads (lower : Bool) (byte : UInt8) : Bool :=
  if isUnreserved byte then
    toUtf8 (percentEncodeByte lower byte) = [byte] && byte ≠ ascii '%' && byte ≠ ascii '+'
  else
    let hi := ascii (hexDigit lower (byte.toNat / 16))
    let lo := ascii (hexDigit lower (byte.toNat % 16))
    toUtf8 (percentEncodeByte lower byte) = [ascii '%', hi, lo] &&
      (hexValue hi).any fun hi : UInt8 => (hexValue lo).any fun lo : UInt8 => hi <<< 4 ||| lo = byte

theorem escapeReads_all (lower : Bool) (byte : UInt8) : escapeReads lower byte = true := by
  revert byte
  apply forall_byte
  cases lower <;> decide +kernel

theorem percentLoop_plain {byte : UInt8} (h : byte ≠ ascii '%') (plusAsSpace : Bool)
    (rest : Bytes) :
    percentLoop plusAsSpace (byte :: rest) =
      (percentLoop plusAsSpace rest).map
        ((if plusAsSpace ∧ byte = ascii '+' then ascii ' ' else byte) :: ·) := by
  conv_lhs => unfold percentLoop
  rw [if_neg h]

theorem percentLoop_encodeByte (plusAsSpace lower : Bool) (byte : UInt8) (rest : Bytes) :
    percentLoop plusAsSpace (toUtf8 (percentEncodeByte lower byte) ++ rest) =
      (percentLoop plusAsSpace rest).map (byte :: ·) := by
  have hreads := escapeReads_all lower byte
  unfold escapeReads at hreads
  split_ifs at hreads with hplain
  · simp only [Bool.and_eq_true, decide_eq_true_eq] at hreads
    obtain ⟨⟨hbytes, hpercent⟩, hplus⟩ := hreads
    rw [hbytes, List.singleton_append, percentLoop_plain hpercent, if_neg fun h => hplus h.2]
  · simp only [Bool.and_eq_true, decide_eq_true_eq, Option.any_eq_true] at hreads
    obtain ⟨hbytes, hi, hhi, lo, hlo, hvalue⟩ := hreads
    rw [hbytes, List.cons_append, List.cons_append, List.singleton_append, percentLoop,
      if_pos rfl]
    simp only [hhi, hlo, hvalue]

theorem percentLoop_encode (plusAsSpace lower : Bool) (bytes : Bytes) :
    percentLoop plusAsSpace (toUtf8 (bytes.flatMap (percentEncodeByte lower))) = .ok bytes := by
  induction bytes with
  | nil => rfl
  | cons byte bytes ih =>
      rw [List.flatMap_cons, toUtf8_append, percentLoop_encodeByte, ih]
      rfl

/-- Escaped text is decoded to what it was. -/
theorem percentDecode_encode (plusAsSpace lower : Bool) {text : Text} (h : '\x00' ∉ text) :
    percentDecode plusAsSpace (percentEncode lower text) = .ok text := by
  rw [percentDecode, percentEncode, percentLoop_encode]
  simp only [bind, Except.bind, fromUtf8_toUtf8]
  rw [if_neg h]

/-! ## The parts of the text -/

/-- The characters at which the parser cuts a host. -/
def isDelimiter (c : Char) : Bool :=
  c == ':' || c == '/' || c == '?' || c == '@' || c == '['

def portText : Option Nat → Text
  | none => []
  | some port => ':' :: Nat.toDigits 10 port

/-- `nz://U:P@host[:port]/D`, where `U`, `P` and `D` are escaped. -/
def credentialUri (lower : Bool) (user password host : Text) (port : Option Nat)
    (database : Text) : Text :=
  let userPass := percentEncode lower user ++ ':' :: percentEncode lower password
  let login := userPass ++ '@' :: (host ++ portText port)
  "nz://".toList ++ (login ++ '/' :: percentEncode lower database)

theorem rsplitOnce_eq_none {sep : Char} {text : Text} (h : sep ∉ text) :
    rsplitOnce sep text = none := by
  have hrev : sep ∉ text.reverse := by rwa [List.mem_reverse]
  rw [rsplitOnce, splitOnce_eq_none hrev]
  rfl

theorem digit_not_delimiter {port : Option Nat} {c : Char} (hc : c.isDigit = false)
    (hcolon : c ≠ ':') : c ∉ portText port := by
  cases port with
  | none => exact nofun
  | some n =>
      rw [portText, List.mem_cons, not_or]
      exact ⟨hcolon, (spells_toDigits n).not_mem hc⟩

theorem parseHostPort_plain {hostPort : Text} (h : hostPort.head? ≠ some '[') :
    parseHostPort hostPort =
      match rsplitOnce ':' hostPort with
      | some (host, port) =>
          if ':' ∈ host then fail (.config "IPv6 host must be bracketed")
          else do
            let port ← parsePort port
            return (host, some port)
      | none => .ok (hostPort, none) := by
  unfold parseHostPort
  split
  · exact absurd rfl h
  · rfl

theorem parseHostPort_host {host : Text} {port : Option Nat} (hsome : host ≠ [])
    (hfree : ∀ c ∈ host, isDelimiter c = false) (hport : ∀ n, port = some n → n < 2 ^ 16) :
    parseHostPort (host ++ portText port) = .ok (host, port) := by
  have hcolon : ':' ∉ host := fun hmem => absurd (hfree _ hmem) (by decide)
  have hhead : (host ++ portText port).head? ≠ some '[' := by
    obtain ⟨c, cs, rfl⟩ := List.exists_cons_of_ne_nil hsome
    rintro hc
    cases hc
    exact absurd (hfree _ List.mem_cons_self) (by decide)
  rw [parseHostPort_plain hhead]
  cases port with
  | none =>
      rw [portText, List.append_nil, rsplitOnce_eq_none hcolon]
  | some n =>
      have hdigits : ':' ∉ Nat.toDigits 10 n := (spells_toDigits n).not_mem rfl
      have hparse : parseUnsigned 16 (Nat.toDigits 10 n) = some n :=
        (spells_toDigits n).parseUnsigned_eq (hport n rfl)
      rw [portText, rsplitOnce_append hdigits]
      dsimp only
      rw [if_neg hcolon, parsePort, hparse]
      rfl

theorem percentEncode_ne_nil {lower : Bool} {text : Text} (h : text ≠ []) :
    percentEncode lower text ≠ [] := by
  intro hnil
  have hbytes := percentLoop_encode false lower (toUtf8 text)
  rw [← percentEncode, hnil] at hbytes
  exact h (toUtf8_eq_nil (Except.ok.inj hbytes).symm)

theorem parseAuthority_login (env : Environment) (lower : Bool) {user password host database : Text}
    {port : Option Nat} (huser : user ≠ []) (huser' : '\x00' ∉ user) (hpassword : '\x00' ∉ password)
    (hdatabase : database ≠ []) (hdatabase' : '\x00' ∉ database) (hsome : host ≠ [])
    (hnul : '\x00' ∉ host) (hfree : ∀ c ∈ host, isDelimiter c = false)
    (hport : ∀ n, port = some n → 0 < n ∧ n < 2 ^ 16) :
    parseAuthority env (percentEncode lower user ++ ':' :: percentEncode lower password ++
        '@' :: (host ++ portText port) ++ '/' :: percentEncode lower database) =
      .ok { NzConnectionConfig.default env with
        host, database, user, password, port := port.getD 5480 } := by
  have hslash : '/' ∉ percentEncode lower user ++ ':' :: percentEncode lower password ++
      '@' :: (host ++ portText port) := by
    simp only [List.mem_append, List.mem_cons, not_or]
    exact ⟨⟨not_mem_percentEncode (by decide), by decide, not_mem_percentEncode (by decide)⟩,
      by decide, fun hmem => absurd (hfree _ hmem) (by decide),
      digit_not_delimiter (by decide) (by decide)⟩
  have hat : '@' ∉ host ++ portText port := by
    rw [List.mem_append, not_or]
    exact ⟨fun hmem => absurd (hfree _ hmem) (by decide),
      digit_not_delimiter (by decide) (by decide)⟩
  have hcolon : ':' ∉ percentEncode lower user := not_mem_percentEncode (by decide)
  have hzero : port ≠ some 0 := fun h => absurd (hport 0 h).1 (by decide)
  rw [parseAuthority, splitOnce_append hslash, Option.getD_some]
  dsimp only
  rw [rsplitOnce_append hat, Option.getD_some]
  dsimp only
  rw [splitOnce_append hcolon, Option.getD_some]
  dsimp only
  rw [parseHostPort_host hsome hfree fun n hn => (hport n hn).2, ok_bind]
  dsimp only
  rw [if_neg hzero, if_neg (not_or.mpr ⟨hsome, hnul⟩), percentDecode_encode false lower hdatabase',
    percentDecode_encode false lower huser', percentDecode_encode false lower hpassword, lift,
    ok_bind, if_neg hdatabase, if_neg (percentEncode_ne_nil huser), lift, ok_bind, lift, ok_bind]
  rfl

/-! ## The whole text -/

theorem trim_uri {lower : Bool} {database : Text} (hdatabase : database ≠ []) (login : Text) :
    trim ("nz://".toList ++ (login ++ '/' :: percentEncode lower database)) =
      "nz://".toList ++ (login ++ '/' :: percentEncode lower database) := by
  apply trim_eq
  · intro c hc
    cases hc
    rfl
  · intro c hc
    obtain ⟨d, hd⟩ := Option.isSome_iff_exists.mp
      (List.getLast?_isSome.mpr (percentEncode_ne_nil hdatabase : percentEncode lower database ≠ []))
    rw [← List.append_assoc, getLast?_append_cons, hd] at hc
    cases hc
    exact escaped_not_whitespace (percentEncode_chars (List.mem_of_getLast? hd))

/-- Credentials that are written into a connection string are read from it. -/
theorem parse_credentialUri (env : Environment) (lower : Bool) {user password host database : Text}
    {port : Option Nat} (huser : user ≠ []) (huser' : '\x00' ∉ user) (hpassword : '\x00' ∉ password)
    (hdatabase : database ≠ []) (hdatabase' : '\x00' ∉ database) (hsome : host ≠ [])
    (hnul : '\x00' ∉ host) (hfree : ∀ c ∈ host, isDelimiter c = false)
    (hport : ∀ n, port = some n → 0 < n ∧ n < 2 ^ 16) :
    parseConnectionString env (credentialUri lower user password host port database) =
      .ok { NzConnectionConfig.default env with
        host, database, user, password, port := port.getD 5480 } := by
  have hscheme (rest : Text) : afterScheme ("nz://".toList ++ rest) = .ok rest := by
    rw [afterScheme_eq, if_neg, if_pos]
    · rfl
    · rfl
    · intro h
      have hsecond := congrArg (List.take 2) h
      cases hsecond
  have hquery : '?' ∉ percentEncode lower user ++ ':' :: percentEncode lower password ++
      '@' :: (host ++ portText port) ++ '/' :: percentEncode lower database := by
    simp only [List.mem_append, List.mem_cons, not_or]
    exact ⟨⟨⟨not_mem_percentEncode (by decide), by decide, not_mem_percentEncode (by decide)⟩,
      by decide, fun hmem => absurd (hfree _ hmem) (by decide),
      digit_not_delimiter (by decide) (by decide)⟩, by decide, not_mem_percentEncode (by decide)⟩
  rw [credentialUri, parseConnectionString, trim_uri hdatabase, hscheme, ok_bind,
    splitOnce_eq_none hquery]
  exact parseAuthority_login env lower huser huser' hpassword hdatabase hdatabase' hsome hnul hfree
    hport

/-- Credentials that are escaped come back from a connection string as they were, no text makes
the parser panic, and a configuration that it returns is valid where the names that the machine
supplies are. -/
theorem connection_string_round_trip :
    (∀ (env : Environment) (lower : Bool) (user password host database : Text) (port : Option Nat),
      user ≠ [] → '\x00' ∉ user → '\x00' ∉ password → database ≠ [] → '\x00' ∉ database →
      host ≠ [] → '\x00' ∉ host → (∀ c ∈ host, isDelimiter c = false) →
      (∀ n, port = some n → 0 < n ∧ n < 2 ^ 16) →
      ∃ config, parseConnectionString env (credentialUri lower user password host port database) =
          .ok config ∧
        config.user = user ∧ config.password = password ∧ config.database = database ∧
        config.host = host ∧ config.port = port.getD 5480) ∧
    ∀ (env : Environment) (connectionString : Text),
      parseConnectionString env connectionString ≠ panics ∧
        (env.NulFree → ∀ config, parseConnectionString env connectionString = .ok config →
          config.validate = .ok ()) := by
  constructor
  · intro env lower user password host database port huser huser' hpassword hdatabase hdatabase'
      hsome hnul hfree hport
    exact ⟨_, parse_credentialUri env lower huser huser' hpassword hdatabase hdatabase' hsome hnul
      hfree hport, rfl, rfl, rfl, rfl, rfl⟩
  · intro env connectionString
    have hsafe := parseConnectionString_safe env connectionString
    exact ⟨hsafe.no_panic, fun henv config hconfig => (hsafe.value hconfig henv).validate⟩

end NzRust.Config
