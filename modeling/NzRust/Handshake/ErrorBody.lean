import NzRust.Handshake.Termination

/-!
# The body of an ErrorResponse

Behind the letter of an ErrorResponse the asynchronous engine reads a frame with
a length in front. The synchronous one knows two older forms as well: a text in
the place of the length, and a length of zero in front of a text. The module says
what each engine makes of every body that a server may send.
-/

namespace NzRust.Handshake

open Wire

/-! ## Bodies -/

/-- The same variant, and the same content where the server gave it. -/
def Alike (e e' : NzError) : Prop :=
  e.kind = e'.kind ∧ ∀ d, e = .database d → e' = .database d

/-- What the length-prefixed reading makes of a body. -/
def framedVerdict (body : Bytes) : NzError :=
  if body.length < 4 then .closed ""
  else
    let len := ByteString.beInt (body.take 4)
    if len < 4 ∨ (maxProtocolPayload : Int) < len then .protocol ""
    else if body.length < len.toNat then .closed ""
    else .database (parseBackendErrorFields ((body.drop 4).take (len.toNat - 4)))

/-- A NUL-terminated text that continues the given characters. -/
def LegacyText (minChars : Nat) (chars bytes : Bytes) : Prop :=
  ∃ text rest, bytes = text ++ 0 :: rest ∧ (∀ b ∈ text, Sync.isLegacyTextByte b = true) ∧
    chars.length + text.length ≤ 4096 ∧ minChars ≤ chars.length + text.length

/-- The bodies in one of the legacy forms: a text in the place of the length, or a length of zero
in front of a text, of a NUL or of nothing. -/
def Legacy (body : Bytes) : Prop :=
  4 ≤ body.length ∧
    (((body.take 4).all (fun b => 0x20 ≤ b && b ≤ 0x7e) = true ∧
        LegacyText 0 (body.take 4) (body.drop 4)) ∨
      (ByteString.beInt (body.take 4) = 0 ∧
        (body.drop 4 = [] ∨ ∃ first rest, body.drop 4 = first :: rest ∧
          (first = 0 ∨ (Sync.isLegacyTextByte first = true ∧ LegacyText 4 [first] rest)))))

/-! ## Reads from a script -/

/-- `upgrade_tls` of a build without TLS. -/
def tlsDisabled : NzError :=
  .unsupported "TLS requested but the `ssl` feature is disabled"

/-- A session that stays in plaintext. -/
def plainPeer (closed : String) (check : Nat → NzResult Unit) : Peer NzError View where
  read := (viewPeer closed check).read
  upgrade view := (.error tlsDisabled, view)

section Reads

variable {closed : String} {check : Nat → NzResult Unit}
  (hcheck : ∀ n ≤ maxProtocolPayload, check n = .ok ()) {α : Type}

theorem viewRead_script (closed : String) (n : Nat) (script : Bytes) :
    viewRead closed n (bytesView script) =
      if n ≤ script.length then (.ok (script.take n), bytesView (script.drop n))
      else (.error (.closed closed), bytesView script) := by
  split
  · next hle => simpa using viewRead_bytes hle []
  · next hshort =>
      obtain ⟨k, hk⟩ : ∃ k, n - script.length = k + 1 := ⟨n - script.length - 1, by omega⟩
      have hstop : viewRead closed (n - script.length) [] = (.error (.closed closed), []) := by
        rw [hk]
        rfl
      simpa using viewRead_short (by omega) hstop

include hcheck

theorem plainPeer_read (closed : String) {n : Nat} (hn : n ≤ maxProtocolPayload) (script : Bytes) :
    (plainPeer closed check).read n (bytesView script) =
      if n ≤ script.length then (.ok (script.take n), bytesView (script.drop n))
      else (.error (.closed closed), bytesView script) := by
  simp only [plainPeer, viewPeer, hcheck n hn]
  exact viewRead_script closed n script

theorem run_take_bind {n : Nat} (hn : n ≤ maxProtocolPayload) (k : Bytes → Step α)
    (script : Bytes) :
    ((Prog.take n).bind k).run (plainPeer closed check) (bytesView script) =
      if n ≤ script.length then (k (script.take n)).run (plainPeer closed check)
        (bytesView (script.drop n))
      else ⟨.error (.closed closed), [], bytesView script⟩ := by
  have hread := plainPeer_read hcheck closed hn script
  by_cases hle : n ≤ script.length
  · rw [if_pos hle] at hread ⊢
    exact (Yields.take hread).run_bind k
  · rw [if_neg hle] at hread ⊢
    rw [run_bind]
    simp [Prog.take, Prog.run, hread]

/-! ## The length-prefixed form -/

omit hcheck in
theorem protocol_of_fault {e : NzError} (h : e.isProtocolFault = true) : e.kind = .protocol := by
  cases e <;> first
    | rfl
    | cases h

/-- The length-prefixed reading of a body. -/
theorem framed_run (body : Bytes) (hbody : 4 ≤ body.length) {stage : String}
    {k : Nat → Step α} (short : Step α)
    (hshort : ∀ view, ∃ m, short.run (plainPeer closed check) view = ⟨.error (.protocol m), [], view⟩)
    (hk : ∀ n, 4 ≤ n → n ≤ maxProtocolPayload → ∀ view,
      (k n).run (plainPeer closed check) view =
        ((Prog.take (n - 4)).bind fun data => .fail (.database (parseBackendErrorFields data))).run
          (plainPeer closed check) view) :
    ∃ e view, (match validateProtocolLength (ByteString.beInt (body.take 4)) stage false with
      | .error e => .fail e
      | .ok n => if 4 ≤ n then k n else short : Step α).run (plainPeer closed check)
          (bytesView (body.drop 4)) = ⟨.error e, [], view⟩ ∧ Alike (framedVerdict body) e := by
  rw [framedVerdict, if_neg (by omega)]
  dsimp only
  cases hvalid : validateProtocolLength (ByteString.beInt (body.take 4)) stage false with
  | error e =>
      refine ⟨e, _, rfl, ?_⟩
      have hkind := protocol_of_fault (validateProtocolLength_error hvalid)
      have hout : ByteString.beInt (body.take 4) < 4 ∨
          (maxProtocolPayload : Int) < ByteString.beInt (body.take 4) := by
        by_contra hin
        have hok : validateProtocolLength (ByteString.beInt (body.take 4)) stage false =
            .ok (ByteString.beInt (body.take 4)).toNat :=
          validateProtocolLength_eq_ok.mpr (by omega)
        rw [hvalid] at hok
        cases hok
      rw [if_pos hout]
      exact ⟨hkind.symm, fun d hd => (by cases hd)⟩
  | ok n =>
      obtain ⟨hlen, hmax, hpos⟩ := validateProtocolLength_eq_ok.mp hvalid
      rw [hlen]
      dsimp only
      by_cases hfour : 4 ≤ n
      · rw [if_pos hfour, if_neg (by omega), hk n hfour hmax, Int.toNat_natCast,
          run_take_bind hcheck (by omega)]
        rw [List.length_drop]
        by_cases hroom : body.length < n
        · rw [if_neg (by omega), if_pos hroom]
          exact ⟨_, _, rfl, rfl, fun d hd => (by cases hd)⟩
        · rw [if_pos (by omega), if_neg hroom]
          refine ⟨_, _, rfl, rfl, fun d hd => ?_⟩
          exact hd
      · obtain ⟨m, hm⟩ := hshort (bytesView (body.drop 4))
        rw [if_neg hfour, if_pos (by omega), hm]
        exact ⟨_, _, rfl, rfl, fun d hd => (by cases hd)⟩

omit hcheck in
theorem readBytes_eq {n : Nat} (hn : n ≤ maxProtocolPayload) : Native.readBytes n = Prog.take n := by
  have hsmall : n < 2 ^ 31 := Nat.lt_of_le_of_lt hn (by decide)
  have hsigned : ByteString.signed 32 (n % 2 ^ 32) = n := by
    rw [Nat.mod_eq_of_lt (by omega), ByteString.signed, if_pos hsmall]
  have hvalid : validateProtocolLength n "asyncPayload" true = .ok n :=
    validateProtocolLength_eq_ok.mpr ⟨rfl, hn, .inl rfl⟩
  rw [Native.readBytes, hsigned, hvalid]
  rfl

theorem readBackendError_run (stage : String) (body : Bytes) :
    ∃ e view, (Native.readBackendError stage : Step α).run (plainPeer closed check)
      (bytesView body) = ⟨.error e, [], view⟩ ∧ Alike (framedVerdict body) e := by
  show ∃ e view, (((Prog.take 4).bind fun bytes => .ret (ByteString.beInt bytes)).bind _).run _ _ =
    _ ∧ _
  rw [Prog.bind_assoc, run_take_bind hcheck (by decide)]
  by_cases hlen : 4 ≤ body.length
  · rw [if_pos hlen]
    refine framed_run hcheck body hlen _ (fun view => ⟨_, rfl⟩) ?_
    intro n hfour hmax view
    rw [readBytes_eq (by omega)]
    rfl
  · rw [if_neg hlen, framedVerdict, if_pos (by omega)]
    exact ⟨_, _, rfl, rfl, fun d hd => (by cases hd)⟩

/-! ## Legacy texts -/

omit hcheck

theorem legacyText_nil (minChars : Nat) (chars : Bytes) : ¬LegacyText minChars chars [] := by
  rintro ⟨text, rest, h, -⟩
  exact List.append_ne_nil_of_right_ne_nil text (List.cons_ne_nil 0 rest) h.symm

theorem legacyText_nul (minChars : Nat) (chars bytes : Bytes) :
    LegacyText minChars chars (0 :: bytes) ↔ chars.length ≤ 4096 ∧ minChars ≤ chars.length := by
  constructor
  · rintro ⟨text, rest, h, hlegacy, hmax, hmin⟩
    cases text with
    | nil => exact ⟨hmax, hmin⟩
    | cons b text =>
        cases h
        exact absurd (hlegacy 0 (.head _)) (by decide)
  · rintro ⟨hmax, hmin⟩
    exact ⟨[], bytes, rfl, fun b hb => (by cases hb), hmax, hmin⟩

theorem legacyText_cons (minChars : Nat) (chars bytes : Bytes) {b : UInt8} (hb : b ≠ 0) :
    LegacyText minChars chars (b :: bytes) ↔
      Sync.isLegacyTextByte b = true ∧ LegacyText minChars (chars ++ [b]) bytes := by
  constructor
  · rintro ⟨text, rest, h, hlegacy, hmax, hmin⟩
    cases text with
    | nil =>
        cases h
        exact absurd rfl hb
    | cons c text =>
        cases h
        refine ⟨hlegacy b (.head _), text, rest, rfl, fun c hc => hlegacy c (.tail _ hc), ?_, ?_⟩
        · simp only [List.length_append, List.length_cons, List.length_nil] at hmax ⊢
          omega
        · simp only [List.length_append, List.length_cons, List.length_nil] at hmin ⊢
          omega
  · rintro ⟨hlegacy, text, rest, rfl, hall, hmax, hmin⟩
    refine ⟨b :: text, rest, rfl, ?_, ?_, ?_⟩
    · intro c hc
      cases hc with
      | head => exact hlegacy
      | tail _ hc => exact hall c hc
    · simp only [List.length_append, List.length_cons, List.length_nil] at hmax ⊢
      omega
    · simp only [List.length_append, List.length_cons, List.length_nil] at hmin ⊢
      omega

include hcheck

theorem legacyByte_run {minChars : Nat} {chars : Bytes} (hchars : chars.length ≤ 4096)
    {more : Bytes → Step (Option Bytes)}
    (hmore : ∀ b bytes, Sync.isLegacyTextByte b = true → ∃ result view,
      (more (chars ++ [b])).run (plainPeer closed check) (bytesView bytes) =
          ⟨.ok result, [], view⟩ ∧
        (result.isSome = true ↔ LegacyText minChars (chars ++ [b]) bytes)) (bytes : Bytes) :
    ∃ result view, (Prog.read 1 (Sync.legacyByte minChars chars more)).run (plainPeer closed check)
        (bytesView bytes) = ⟨.ok result, [], view⟩ ∧
      (result.isSome = true ↔ LegacyText minChars chars bytes) := by
  unfold Prog.run
  rw [plainPeer_read hcheck closed (by decide)]
  cases bytes with
  | nil => exact ⟨none, _, rfl, by simpa using legacyText_nil minChars chars⟩
  | cons b bytes =>
      have hone : 1 ≤ (b :: bytes).length := Nat.succ_le_succ (Nat.zero_le _)
      rw [if_pos hone]
      show ∃ result view, (if b = 0 then _ else if Sync.isLegacyTextByte b = true then _ else _ :
        Step (Option Bytes)).run _ (bytesView bytes) = _ ∧ _
      by_cases hzero : b = 0
      · subst hzero
        rw [if_pos rfl, legacyText_nul]
        by_cases hmin : chars.length < minChars
        · rw [if_pos hmin]
          exact ⟨none, _, rfl, by simp; omega⟩
        · rw [if_neg hmin]
          exact ⟨some chars, _, rfl, by simp; omega⟩
      rw [if_neg hzero, legacyText_cons minChars chars bytes hzero]
      by_cases hlegacy : Sync.isLegacyTextByte b = true
      · rw [if_pos hlegacy]
        obtain ⟨result, view, hrun, hresult⟩ := hmore b bytes hlegacy
        exact ⟨result, view, hrun, by rw [hresult]; simp [hlegacy]⟩
      · rw [if_neg hlegacy]
        exact ⟨none, _, rfl, by simp [hlegacy]⟩

/-- The loop over a text ends with it exactly when the bytes are one. -/
theorem legacyLoop_run (minChars room : Nat) (chars : Bytes) (hroom : chars.length + room = 4096)
    (bytes : Bytes) :
    ∃ result view, (Sync.legacyLoop minChars room chars).run (plainPeer closed check)
        (bytesView bytes) = ⟨.ok result, [], view⟩ ∧
      (result.isSome = true ↔ LegacyText minChars chars bytes) := by
  induction room generalizing chars bytes with
  | zero =>
      refine legacyByte_run hcheck (by omega) ?_ bytes
      intro b bytes _
      refine ⟨none, _, rfl, ?_⟩
      -- one more character is one too many
      have hlong : ¬LegacyText minChars (chars ++ [b]) bytes := by
        rintro ⟨text, rest, -, -, hmax, -⟩
        rw [List.length_append, List.length_singleton] at hmax
        omega
      simpa using hlong
  | succ room ih =>
      refine legacyByte_run hcheck (by omega) ?_ bytes
      intro b bytes _
      exact ih (chars ++ [b]) (by rw [List.length_append, List.length_singleton]; omega) bytes

theorem readLegacyErrorText_run (minChars : Nat) {chars : Bytes} (hchars : chars.length ≤ 4096)
    (bytes : Bytes) :
    ∃ result view, (Sync.readLegacyErrorText minChars chars).run (plainPeer closed check)
        (bytesView bytes) = ⟨.ok result, [], view⟩ ∧
      (result.isSome = true ↔ LegacyText minChars chars bytes) := by
  rw [Sync.readLegacyErrorText, if_neg (by omega)]
  exact legacyLoop_run hcheck minChars _ chars (by omega) bytes

theorem framedError_run (stage : String) (body : Bytes) (hbody : 4 ≤ body.length) :
    ∃ e view, (Sync.framedError stage (ByteString.beInt (body.take 4)) : Step α).run
        (plainPeer closed check) (bytesView (body.drop 4)) = ⟨.error e, [], view⟩ ∧
      Alike (framedVerdict body) e := by
  unfold Sync.framedError
  refine framed_run hcheck body hbody _ (fun view => ⟨_, rfl⟩) ?_
  intro n hfour hmax view
  have hvalid : validateProtocolLength ((n : Int) - 4) s!"{stage}Payload" true = .ok (n - 4) :=
    validateProtocolLength_eq_ok.mpr ⟨by omega, by omega, .inl rfl⟩
  rw [hvalid]
  rfl

omit hcheck in
/-- A length that no frame has is refused before anything else is read. -/
theorem framedError_refused (stage : String) {len : Int}
    (hlen : len < 4 ∨ (maxProtocolPayload : Int) < len) :
    ∃ e, (Sync.framedError stage len : Step α) = .fail e ∧ e.kind = .protocol := by
  unfold Sync.framedError
  cases hvalid : validateProtocolLength len s!"{stage}FrameLength" false with
  | error e => exact ⟨e, rfl, protocol_of_fault (validateProtocolLength_error hvalid)⟩
  | ok n =>
      obtain ⟨rfl, hmax, -⟩ := validateProtocolLength_eq_ok.mp hvalid
      dsimp only
      rw [if_neg (by omega)]
      exact ⟨_, rfl, rfl⟩

omit hcheck in
theorem framedVerdict_refused {body : Bytes} (hbody : 4 ≤ body.length)
    (hlen : ByteString.beInt (body.take 4) < 4 ∨
      (maxProtocolPayload : Int) < ByteString.beInt (body.take 4)) :
    framedVerdict body = .protocol "" := by
  rw [framedVerdict, if_neg (by omega)]
  dsimp only
  rw [if_pos hlen]

omit hcheck in
/-- Four printable characters are no length. -/
theorem printable_length {bytes : Bytes} (hlen : bytes.length = 4)
    (h : bytes.all (fun b => 0x20 ≤ b && b ≤ 0x7e) = true) :
    (maxProtocolPayload : Int) < ByteString.beInt bytes := by
  obtain ⟨a, b, c, d, rfl⟩ : ∃ a b c d, bytes = [a, b, c, d] :=
    List.length_eq_four.mp hlen
  simp only [List.all_cons, List.all_nil, Bool.and_true, Bool.and_eq_true, decide_eq_true_eq,
    UInt8.le_iff_toNat_le] at h
  obtain ⟨⟨hlow, hhigh⟩, -⟩ := h
  have hb := b.toNat_lt
  have hc := c.toNat_lt
  have hd := d.toNat_lt
  have hnat : ByteString.beNat [a, b, c, d] =
      d.toNat + 256 * (c.toNat + 256 * (b.toNat + 256 * (a.toNat + 256 * 0))) := rfl
  change 32 ≤ a.toNat at hlow
  change a.toNat ≤ 126 at hhigh
  show ((10000000 : Nat) : Int) < ByteString.signed 32 (ByteString.beNat [a, b, c, d])
  rw [ByteString.signed, hnat, if_pos (by omega)]
  omega

/-- The zero-length form. -/
theorem zeroLength_run (stage : String) {body : Bytes} (hbody : 4 ≤ body.length)
    (hzero : ByteString.beInt (body.take 4) = 0) :
    ∃ e view, (Prog.read 1 (Sync.zeroLengthError stage 0) : Step α).run (plainPeer closed check)
        (bytesView (body.drop 4)) = ⟨.error e, [], view⟩ ∧
      (Legacy body → e.kind = .database ∨ e.kind = .closed) ∧
      (¬Legacy body → Alike (framedVerdict body) e) := by
  have hverdict : framedVerdict body = .protocol "" :=
    framedVerdict_refused hbody (by rw [hzero]; omega)
  obtain ⟨refusal, hrefused, hkind⟩ :=
    framedError_refused stage (show (0 : Int) < 4 ∨ _ from .inl (by decide))
  have hprintable : ¬(body.take 4).all (fun b => 0x20 ≤ b && b ≤ 0x7e) = true := by
    intro hall
    have hlen := printable_length (by rw [List.length_take]; omega) hall
    rw [hzero] at hlen
    exact absurd hlen (by decide)
  have hlegacy : Legacy body ↔ (body.drop 4 = [] ∨ ∃ first rest, body.drop 4 = first :: rest ∧
      (first = 0 ∨ (Sync.isLegacyTextByte first = true ∧ LegacyText 4 [first] rest))) := by
    rw [Legacy]
    simp [hbody, hprintable, hzero]
  rw [hlegacy, hverdict]
  unfold Prog.run
  rw [plainPeer_read hcheck closed (by decide)]
  cases hrest : body.drop 4 with
  | nil => exact ⟨_, _, rfl, fun _ => .inr rfl, fun hnot => absurd (.inl rfl) hnot⟩
  | cons first rest =>
      have hone : 1 ≤ (first :: rest).length := Nat.succ_le_succ (Nat.zero_le _)
      rw [if_pos hone]
      show ∃ e view, (if first = 0 then _ else if Sync.isLegacyTextByte first = true then
        (Sync.readLegacyErrorText 4 [first]).bind _ else _ : Step α).run _ (bytesView rest) = _ ∧ _
      by_cases hnul : first = 0
      · rw [if_pos hnul]
        refine ⟨_, _, rfl, fun _ => .inl rfl, fun hnot => absurd (.inr ?_) hnot⟩
        exact ⟨first, rest, rfl, .inl hnul⟩
      rw [if_neg hnul]
      by_cases hbyte : Sync.isLegacyTextByte first = true
      · rw [if_pos hbyte]
        obtain ⟨result, view, hrun, hresult⟩ :=
          readLegacyErrorText_run hcheck 4 (show [first].length ≤ 4096 by simp) rest
        rw [run_bind, hrun]
        cases result with
        | some text =>
            have htext : LegacyText 4 [first] rest := hresult.mp rfl
            refine ⟨_, _, rfl, fun _ => .inl rfl, fun hnot => absurd (.inr ?_) hnot⟩
            exact ⟨first, rest, rfl, .inr ⟨hbyte, htext⟩⟩
        | none =>
            dsimp only [Sync.textOr]
            rw [hrefused]
            refine ⟨_, _, rfl, ?_, fun _ => ⟨hkind.symm, fun d hd => (by cases hd)⟩⟩
            rintro (hnil | ⟨b, bs, hcons, hb | ⟨-, htext⟩⟩)
            · cases hnil
            · cases hcons
              exact absurd hb hnul
            · cases hcons
              cases hresult.mpr htext
      · rw [if_neg hbyte, hrefused]
        refine ⟨_, _, rfl, ?_, fun _ => ⟨hkind.symm, fun d hd => (by cases hd)⟩⟩
        rintro (hnil | ⟨b, bs, hcons, hb | ⟨hb, -⟩⟩)
        · cases hnil
        · cases hcons
          exact absurd hb hnul
        · cases hcons
          exact absurd hb hbyte

/-- What the synchronous engine makes of a body. -/
theorem throwBackendError_run (stage : String) (body : Bytes) :
    ∃ e view, (Sync.throwBackendError stage : Step α).run (plainPeer closed check)
        (bytesView body) = ⟨.error e, [], view⟩ ∧
      (Legacy body → e.kind = .database ∨ e.kind = .closed) ∧
      (¬Legacy body → Alike (framedVerdict body) e) := by
  unfold Sync.throwBackendError
  rw [run_take_bind hcheck (by decide)]
  by_cases hbody : 4 ≤ body.length
  case neg =>
    rw [if_neg hbody, framedVerdict, if_pos (by omega)]
    refine ⟨_, _, rfl, fun hlegacy => absurd hlegacy.1 hbody, ?_⟩
    exact fun _ => ⟨rfl, fun d hd => (by cases hd)⟩
  rw [if_pos hbody]
  dsimp only
  by_cases hall : (body.take 4).all (fun b => 0x20 ≤ b && b ≤ 0x7e) = true
  · -- a text in the place of the length, or a length that is refused
    have hlen := printable_length (by rw [List.length_take]; omega) hall
    have hnonzero : ByteString.beInt (body.take 4) ≠ 0 := by
      intro hzero
      rw [hzero] at hlen
      exact absurd hlen (by decide)
    have hlegacy : Legacy body ↔ LegacyText 0 (body.take 4) (body.drop 4) := by
      rw [Legacy]
      simp [hbody, hall, hnonzero]
    obtain ⟨refusal, hrefused, hkind⟩ := framedError_refused stage (.inr hlen)
    obtain ⟨result, view, hrun, hresult⟩ :=
      readLegacyErrorText_run hcheck 0
        (show (body.take 4).length ≤ 4096 by rw [List.length_take]; omega) (body.drop 4)
    rw [if_pos hall, if_neg hnonzero, run_bind, hrun, hlegacy,
      framedVerdict_refused hbody (.inr hlen)]
    cases result with
    | some text =>
        exact ⟨_, _, rfl, fun _ => .inl rfl, fun hnot => absurd (hresult.mp rfl) hnot⟩
    | none =>
        dsimp only [Sync.textOr]
        rw [hrefused]
        refine ⟨_, _, rfl, ?_, fun _ => ⟨hkind.symm, fun d hd => (by cases hd)⟩⟩
        intro htext
        cases hresult.mpr htext
  · rw [if_neg hall]
    by_cases hzero : ByteString.beInt (body.take 4) = 0
    · rw [if_pos hzero, hzero]
      exact zeroLength_run hcheck stage hbody hzero
    · rw [if_neg hzero]
      obtain ⟨e, view, hrun, halike⟩ := framedError_run hcheck stage body
        hbody
      refine ⟨e, view, hrun, ?_, fun _ => halike⟩
      rintro ⟨-, ⟨hprintable, -⟩ | ⟨hz, -⟩⟩
      · exact absurd hprintable hall
      · exact absurd hz hzero

end Reads

end NzRust.Handshake
