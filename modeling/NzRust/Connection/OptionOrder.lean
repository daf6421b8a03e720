import NzRust.Connection.Options
import NzRust.Lib.LastWrite

/-!
# The order of the options

Whether a connection string means the same under another order of its options.
Every field but two is written by one option. The level of security is written
by `securityLevel` and by `sslmode`, the certificate check by
`rejectUnauthorized` and by `sslmode=require`, and the later of the two wins.
-/

namespace NzRust.Config

open Checked Sql LastWrite

/-! ## The text -/

/-- What stands in front of the options. -/
def frontOf (connectionString : Text) : Text :=
  ((splitOnce '?' (trim connectionString)).getD (trim connectionString, [])).1

/-- The pairs of the query. -/
def pairsOf (connectionString : Text) : List Text :=
  (splitOnce '?' (trim connectionString)).elim [] fun parts => splitAt '&' parts.2

def named (option : Option OptionName) (pair : Text) : Bool :=
  optionOf pair = option

/-- The pairs of each option are the same, in the same order. -/
def Reordered (pairs pairs' : List Text) : Prop :=
  ∀ option, pairs'.filter (named option) = pairs.filter (named option)

/-! ## Settings by option -/

def settingFor (option : OptionName) (pair : Text) : Option Setting :=
  (settingOf pair).filter (·.owner = some option)

/-- The setting of the last pair of an option. -/
def lastSetting (option : OptionName) (pairs : List Text) : Option Setting :=
  lastWrite (settingFor option) pairs

/-- No option overrules another one. -/
structure Unambiguous (pairs : List Text) : Prop where
  level : ∀ level mode, lastSetting .securityLevel pairs = some (.securityLevel level) →
    lastSetting .sslMode pairs = some (.sslMode mode) → level = mode.level
  check : (∃ pair ∈ pairs, settingOf pair = some (.sslMode .require)) →
    lastSetting .rejectUnauthorized pairs = some (.rejectUnauthorized false) ∨
      lastSetting .rejectUnauthorized pairs = none ∧
        lastSetting .sslMode pairs = some (.sslMode .require)

/-- The options of a connection string that parses do not depend on their order. -/
structure OrderFree (env : Environment) (connectionString : Text) (config : NzConnectionConfig) :
    Prop where
  permuted : ∀ other, frontOf other = frontOf connectionString →
    Reordered (pairsOf connectionString) (pairsOf other) →
    parseConnectionString env other = .ok config
  repeated : ∀ option other, frontOf other = frontOf connectionString →
    pairsOf other = keepLast (named (some option)) (pairsOf connectionString) →
    parseConnectionString env other = .ok config
  verified : ∀ mode, lastSetting .sslMode (pairsOf connectionString) = some (.sslMode mode) →
    mode = .verifyCa ∨ mode = .verifyFull →
    lastSetting .rejectUnauthorized (pairsOf connectionString) = none →
    config.rejectUnauthorized = true
  explicit : lastSetting .rejectUnauthorized (pairsOf connectionString) =
      some (.rejectUnauthorized true) →
    config.rejectUnauthorized = true

/-! ## The text and its pairs -/

def parseFront (env : Environment) (front : Text) : Exec NzError NzConnectionConfig := do
  let authority ← afterScheme front
  parseAuthority env authority

/-- A scheme is looked for in front of the query. -/
theorem take_front {scheme : Text} (front : Text) {n : Nat} (hlen : scheme.length = n)
    (hquery : '?' ∉ scheme) (query : Text) :
    (asciiLower ((front ++ '?' :: query).take n) = scheme ↔ asciiLower (front.take n) = scheme) ∧
      (asciiLower (front.take n) = scheme → n ≤ front.length) := by
  have hshort : asciiLower (front.take n) = scheme → n ≤ front.length := by
    intro h
    have hlength : (asciiLower (front.take n)).length = n := by rw [h, hlen]
    rw [asciiLower, List.length_map, List.length_take] at hlength
    omega
  refine ⟨?_, hshort⟩
  by_cases hn : n ≤ front.length
  · rw [List.take_append_of_le_length hn]
  · refine iff_of_false ?_ (fun h => hn (hshort h))
    rintro rfl
    apply hquery
    have hmem : '?' ∈ (front ++ '?' :: query).take n := by
      rw [List.take_append, List.mem_append]
      obtain ⟨k, hk⟩ : ∃ k, n - front.length = k + 1 := ⟨n - front.length - 1, by omega⟩
      rw [hk, List.take_succ_cons]
      exact .inr List.mem_cons_self
    exact List.mem_map.mpr ⟨'?', hmem, rfl⟩

theorem afterScheme_query (front query : Text) :
    afterScheme (front ++ '?' :: query) = (afterScheme front).map (· ++ '?' :: query) := by
  have hfree10 : '?' ∉ "netezza://".toList := by decide
  have hfree5 : '?' ∉ "nz://".toList := by decide
  have hlong := take_front front (by rfl : _ = 10) hfree10 query
  have hshort := take_front front (by rfl : _ = 5) hfree5 query
  rw [afterScheme_eq, afterScheme_eq]
  by_cases h10 : asciiLower (front.take 10) = "netezza://".toList
  · rw [if_pos (hlong.1.mpr h10), if_pos h10, List.drop_append_of_le_length (hlong.2 h10)]
    rfl
  · rw [if_neg (mt hlong.1.mp h10), if_neg h10]
    by_cases h5 : asciiLower (front.take 5) = "nz://".toList
    · rw [if_pos (hshort.1.mpr h5), if_pos h5, List.drop_append_of_le_length (hshort.2 h5)]
      rfl
    · rw [if_neg (mt hshort.1.mp h5), if_neg h5]
      rfl

theorem afterScheme_suffix {text rest : Text} (h : afterScheme text = .ok rest) :
    ∃ scheme, text = scheme ++ rest := by
  rw [afterScheme_eq] at h
  split_ifs at h
  · cases h
    exact ⟨text.take 10, (List.take_append_drop 10 text).symm⟩
  · cases h
    exact ⟨text.take 5, (List.take_append_drop 5 text).symm⟩
  · cases h

theorem not_mem_of_splitOnce {sep : Char} {text : Text} (h : splitOnce sep text = none) :
    sep ∉ text := by
  intro hmem
  obtain ⟨front, rest, rfl, hfront⟩ := List.eq_append_cons_of_mem hmem
  rw [splitOnce_append hfront] at h
  cases h

theorem parseConnectionString_eq (env : Environment) (connectionString : Text) :
    parseConnectionString env connectionString = (do
      let config ← parseFront env (frontOf connectionString)
      lift ((pairsOf connectionString).foldlM applyOption config)) := by
  rw [parseConnectionString, frontOf, pairsOf, parseFront]
  cases hsplit : splitOnce '?' (trim connectionString) with
  | none =>
      cases hrest : afterScheme (trim connectionString) with
      | error e => rw [Option.getD_none, hrest]; rfl
      | ok rest =>
          obtain ⟨scheme, hscheme⟩ := afterScheme_suffix hrest
          have hfree := not_mem_of_splitOnce hsplit
          rw [hscheme, List.mem_append, not_or] at hfree
          rw [Option.getD_none, hrest, ok_bind, ok_bind, splitOnce_eq_none hfree.2]
          dsimp only [Option.elim_none, List.foldlM_nil]
          cases parseAuthority env rest <;> rfl
  | some parts =>
      obtain ⟨front, query⟩ := parts
      obtain ⟨htext, hfree⟩ := splitOnce_eq_some hsplit
      rw [Option.getD_some, Option.elim_some, htext, afterScheme_query]
      cases hrest : afterScheme front with
      | error e => rfl
      | ok rest =>
          obtain ⟨scheme, rfl⟩ := afterScheme_suffix hrest
          rw [List.mem_append, not_or] at hfree
          rw [Except.map, ok_bind, ok_bind, splitOnce_append hfree.2]

/-! ## What the loop leaves -/

theorem settingFor_eq_some {option : OptionName} {pair : Text} {setting : Setting} :
    settingFor option pair = some setting ↔
      settingOf pair = some setting ∧ setting.owner = some option := by
  rw [settingFor, Option.filter_eq_some_iff, decide_eq_true_eq]

theorem settingFor_named {option : OptionName} {pair : Text} (h : settingFor option pair ≠ none) :
    named (some option) pair = true := by
  obtain ⟨setting, hsetting⟩ := Option.ne_none_iff_exists'.mp h
  obtain ⟨hread, howner⟩ := settingFor_eq_some.mp hsetting
  rw [named, settingOf_owner hread howner]
  exact decide_eq_true rfl

/-- A field that only one option writes holds what the last pair of that option sets. -/
theorem field_last {β : Type} {get : NzConnectionConfig → β} {value : Setting → β}
    {option : OptionName}
    (hget : ∀ config (setting : Setting), get (setting.apply config) =
      if setting.owner = some option then value setting else get config)
    (config : NzConnectionConfig) (pairs : List Text) :
    get (pairs.foldl assign config) =
      ((lastSetting option pairs).map value).getD (get config) := by
  rw [lastSetting, ← lastWrite_map]
  apply foldl_register get
  intro config pair
  rw [assign, settingFor]
  cases settingOf pair with
  | none => rfl
  | some setting =>
      rw [Option.elim_some, hget, Option.filter_some]
      by_cases howner : setting.owner = some option
      · rw [if_pos howner, if_pos (decide_eq_true howner)]
        rfl
      · rw [if_neg howner, if_neg (by simp [howner])]
        rfl

/-- The level of security that a setting asks for. -/
def Setting.level : Setting → SecurityLevel
  | .securityLevel level => level
  | .sslMode mode => mode.level
  | _ => .preferredUnsecured

theorem securityLevel_last (config : NzConnectionConfig) (pairs : List Text) :
    (pairs.foldl assign config).securityLevel =
      (lastWrite (fun pair => ((settingFor .securityLevel pair).map Setting.level).or
        ((settingFor .sslMode pair).map Setting.level)) pairs).getD config.securityLevel := by
  apply foldl_register NzConnectionConfig.securityLevel
  intro config pair
  rw [assign, settingFor, settingFor]
  cases settingOf pair with
  | none => rfl
  | some setting => cases setting <;> rfl

/-- `sslmode=require` turns the certificate check off. -/
def requireWrites (pair : Text) : Option Bool :=
  if settingOf pair = some (.sslMode .require) then some false else none

def Setting.reject : Setting → Bool
  | .rejectUnauthorized reject => reject
  | _ => true

theorem rejectUnauthorized_last (config : NzConnectionConfig) (pairs : List Text) :
    (pairs.foldl assign config).rejectUnauthorized =
      (lastWrite (fun pair => ((settingFor .rejectUnauthorized pair).map Setting.reject).or
        (requireWrites pair)) pairs).getD config.rejectUnauthorized := by
  apply foldl_register NzConnectionConfig.rejectUnauthorized
  intro config pair
  rw [assign, settingFor, requireWrites]
  cases settingOf pair with
  | none => rfl
  | some setting =>
      cases setting with
      | sslMode mode => cases mode <;> rfl
      | _ => rfl

/-! ## Lists with the same last settings -/

structure SameLast (pairs pairs' : List Text) : Prop where
  subset : ∀ pair ∈ pairs', pair ∈ pairs
  last : ∀ option, lastSetting option pairs' = lastSetting option pairs

theorem Reordered.sameLast {pairs pairs' : List Text} (h : Reordered pairs pairs') :
    SameLast pairs pairs' where
  subset pair hpair := by
    have hmem : pair ∈ pairs'.filter (named (optionOf pair)) :=
      List.mem_filter.mpr ⟨hpair, decide_eq_true rfl⟩
    rw [h] at hmem
    exact (List.mem_filter.mp hmem).1
  last option := lastWrite_of_filter (fun _ => settingFor_named) (h (some option))

theorem keepLast_sameLast {pairs : List Text} (haccepted : ∀ pair ∈ pairs, settingOf pair ≠ none)
    (option : OptionName) : SameLast pairs (keepLast (named (some option)) pairs) where
  subset _ := mem_keepLast
  last other := by
    by_cases hother : other = option
    · subst hother
      by_cases hknown : ∃ key, other = .other key
      · obtain ⟨key, rfl⟩ := hknown
        have hnone (xs : List Text) : lastSetting (.other key) xs = none := by
          rw [lastSetting, lastWrite_eq_none]
          intro pair _
          by_contra hsome
          obtain ⟨setting, hsetting⟩ := Option.ne_none_iff_exists'.mp hsome
          have howner := (settingFor_eq_some.mp hsetting).2
          cases setting <;> cases howner
        rw [hnone, hnone]
      · apply lastWrite_keepLast fun _ => settingFor_named
        intro pair hpair hnamed
        obtain ⟨setting, hsetting⟩ := Option.ne_none_iff_exists'.mp (haccepted pair hpair)
        have howner := owner_of_optionOf hsetting (of_decide_eq_true hnamed)
          fun key hkey => hknown ⟨key, hkey⟩
        rw [settingFor_eq_some.mpr ⟨hsetting, howner⟩]
        exact Option.some_ne_none _
    · apply lastWrite_of_filter fun _ => settingFor_named
      apply filter_keepLast_other
      intro pair hpair
      have hpair' : optionOf pair = some other := of_decide_eq_true hpair
      rw [named, hpair']
      exact decide_eq_false fun h => hother (Option.some.inj h)

theorem SameLast.unambiguous {pairs pairs' : List Text} (h : SameLast pairs pairs')
    (hpairs : Unambiguous pairs) : Unambiguous pairs' := by
  constructor
  · intro level mode
    rw [h.last, h.last]
    exact hpairs.level level mode
  · rintro ⟨pair, hpair, hrequire⟩
    rw [h.last, h.last]
    exact hpairs.check ⟨pair, h.subset pair hpair, hrequire⟩

theorem lastSetting_owner {option : OptionName} {pairs : List Text} {setting : Setting}
    (h : lastSetting option pairs = some setting) :
    ∃ pair ∈ pairs, settingOf pair = some setting ∧ setting.owner = some option := by
  obtain ⟨pair, hpair, hsetting⟩ := mem_of_lastWrite h
  exact ⟨pair, hpair, settingFor_eq_some.mp hsetting⟩

/-- Where the last settings agree on it, the level is the one of either of them. -/
theorem Unambiguous.securityLevel {pairs : List Text} (h : Unambiguous pairs)
    (config : NzConnectionConfig) :
    (pairs.foldl assign config).securityLevel =
      (((lastSetting .securityLevel pairs).map Setting.level).or
        ((lastSetting .sslMode pairs).map Setting.level)).getD config.securityLevel := by
  rw [securityLevel_last, lastWrite_agree]
  · rw [lastWrite_map, lastWrite_map]
    rfl
  · intro a b ha hb
    rw [lastWrite_map] at ha hb
    obtain ⟨first, hfirst, rfl⟩ := Option.map_eq_some_iff.mp ha
    obtain ⟨second, hsecond, rfl⟩ := Option.map_eq_some_iff.mp hb
    obtain ⟨_, -, -, hfirstOwner⟩ := lastSetting_owner hfirst
    obtain ⟨_, -, -, hsecondOwner⟩ := lastSetting_owner hsecond
    cases first <;> cases hfirstOwner
    cases second <;> cases hsecondOwner
    exact h.level _ _ hfirst hsecond

theorem requireWrites_some {pair : Text} {reject : Bool} (h : requireWrites pair = some reject) :
    settingOf pair = some (.sslMode .require) ∧ reject = false := by
  rw [requireWrites] at h
  split_ifs at h with hrequire
  cases h
  exact ⟨hrequire, rfl⟩

theorem requireWrites_last {pairs : List Text}
    (h : ∃ pair ∈ pairs, settingOf pair = some (.sslMode .require)) :
    lastWrite requireWrites pairs = some false := by
  obtain ⟨pair, hpair, hrequire⟩ := h
  cases hlast : lastWrite requireWrites pairs with
  | none =>
      have hnone := lastWrite_eq_none.mp hlast pair hpair
      rw [requireWrites, if_pos hrequire] at hnone
      cases hnone
  | some reject =>
      obtain ⟨_, -, hwrites⟩ := mem_of_lastWrite hlast
      rw [(requireWrites_some hwrites).2]

theorem requireWrites_none {pairs : List Text}
    (h : ¬ ∃ pair ∈ pairs, settingOf pair = some (.sslMode .require)) :
    lastWrite requireWrites pairs = none := by
  rw [lastWrite_eq_none]
  intro pair hpair
  rw [requireWrites, if_neg fun hrequire => h ⟨pair, hpair, hrequire⟩]

/-- Where no `sslmode=require` overrules anything, the last settings decide about the check. -/
theorem Unambiguous.rejectUnauthorized {pairs : List Text} (h : Unambiguous pairs)
    (config : NzConnectionConfig) :
    (pairs.foldl assign config).rejectUnauthorized =
      (((lastSetting .rejectUnauthorized pairs).map Setting.reject).or
        (if lastSetting .sslMode pairs = some (.sslMode .require) then some false
          else none)).getD config.rejectUnauthorized := by
  rw [rejectUnauthorized_last]
  by_cases hrequire : ∃ pair ∈ pairs, settingOf pair = some (.sslMode .require)
  · have hlast := requireWrites_last hrequire
    rcases h.check hrequire with hreject | ⟨hnone, hmode⟩
    · rw [lastWrite_agree, lastWrite_map, hlast, ← lastSetting, hreject]
      · rfl
      · intro a b ha hb
        rw [lastWrite_map, ← lastSetting, hreject] at ha
        rw [hlast] at hb
        cases ha
        cases hb
        rfl
    · rw [lastWrite_agree, lastWrite_map, hlast, ← lastSetting, hnone, if_pos hmode]
      intro a b ha
      rw [lastWrite_map, ← lastSetting, hnone] at ha
      cases ha
  · have hlast := requireWrites_none hrequire
    have hmode : lastSetting .sslMode pairs ≠ some (.sslMode .require) := by
      intro hmode
      obtain ⟨pair, hpair, hread, -⟩ := lastSetting_owner hmode
      exact hrequire ⟨pair, hpair, hread⟩
    rw [lastWrite_agree, lastWrite_map, hlast, ← lastSetting, if_neg hmode]
    intro a b _ hb
    rw [hlast] at hb
    cases hb

/-- A field that no option writes. -/
theorem field_kept {β : Type} {get : NzConnectionConfig → β}
    (h : ∀ config (setting : Setting), get (setting.apply config) = get config)
    (config : NzConnectionConfig) (pairs : List Text) :
    get (pairs.foldl assign config) = get config := by
  induction pairs generalizing config with
  | nil => rfl
  | cons pair pairs ih =>
      rw [List.foldl_cons, ih, assign]
      cases settingOf pair with
      | none => rfl
      | some setting => exact h config setting

/-- Under an unambiguous list the last settings decide the configuration. -/
theorem SameLast.foldl {pairs pairs' : List Text} (h : SameLast pairs pairs')
    (hpairs : Unambiguous pairs) (config : NzConnectionConfig) :
    pairs'.foldl assign config = pairs.foldl assign config := by
  have hkept {β : Type} {get : NzConnectionConfig → β}
      (hget : ∀ config (setting : Setting), get (setting.apply config) = get config) :
      get (pairs'.foldl assign config) = get (pairs.foldl assign config) := by
    rw [field_kept hget, field_kept hget]
  have hfield {β : Type} {get : NzConnectionConfig → β} (option : OptionName)
      (hget : ∀ before (setting : Setting), get (setting.apply before) =
        if setting.owner = some option then get (setting.apply config) else get before) :
      get (pairs'.foldl assign config) = get (pairs.foldl assign config) := by
    rw [field_last hget, field_last hget, h.last]
  apply NzConnectionConfig.ext
  case externalFiles | host | port | database | user | password =>
    exact hkept fun _ setting => by cases setting <;> rfl
  case securityLevel =>
    rw [(h.unambiguous hpairs).securityLevel, hpairs.securityLevel, h.last, h.last]
  case rejectUnauthorized =>
    rw [(h.unambiguous hpairs).rejectUnauthorized, hpairs.rejectUnauthorized, h.last, h.last]
  case sslCertPath => exact hfield .sslCertPath fun _ setting => by cases setting <;> rfl
  case connectionTimeout =>
    exact hfield .connectionTimeout fun _ setting => by cases setting <;> rfl
  case commandTimeout => exact hfield .commandTimeout fun _ setting => by cases setting <;> rfl
  case appName => exact hfield .appName fun _ setting => by cases setting <;> rfl
  case osUser => exact hfield .osUser fun _ setting => by cases setting <;> rfl
  case clientHostName => exact hfield .clientHostName fun _ setting => by cases setting <;> rfl
  case clientType => exact hfield .clientType fun _ setting => by cases setting <;> rfl

/-! ## Strings with the same last settings -/

theorem parse_eq_ok {env : Environment} {connectionString : Text} {config : NzConnectionConfig} :
    parseConnectionString env connectionString = .ok config ↔
      ∃ base, parseFront env (frontOf connectionString) = .ok base ∧
        (∀ pair ∈ pairsOf connectionString, settingOf pair ≠ none) ∧
        config = (pairsOf connectionString).foldl assign base := by
  rw [parseConnectionString_eq]
  constructor
  · intro h
    obtain ⟨base, hbase, hloop⟩ := bind_ok h
    exact ⟨base, hbase, foldlM_eq_ok.mp (lift_ok hloop)⟩
  · rintro ⟨base, hbase, hloop⟩
    rw [hbase, ok_bind, foldlM_eq_ok.mpr hloop]
    rfl

theorem parseFront_reject {env : Environment} {front : Text} {base : NzConnectionConfig}
    (h : parseFront env front = .ok base) : base.rejectUnauthorized = true := by
  obtain ⟨authority, -, hauthority⟩ := bind_ok h
  exact ((parseAuthority_safe env authority).value hauthority).1

theorem SameLast.parse {env : Environment} {connectionString other : Text}
    {config : NzConnectionConfig} (h : parseConnectionString env connectionString = .ok config)
    (hfront : frontOf other = frontOf connectionString)
    (hsame : SameLast (pairsOf connectionString) (pairsOf other))
    (hpairs : Unambiguous (pairsOf connectionString)) :
    parseConnectionString env other = .ok config := by
  obtain ⟨base, hbase, haccepted, rfl⟩ := parse_eq_ok.mp h
  rw [parse_eq_ok]
  refine ⟨base, hfront ▸ hbase, ?_, (hsame.foldl hpairs base).symm⟩
  exact fun pair hpair => haccepted pair (hsame.subset pair hpair)

theorem Unambiguous.orderFree {env : Environment} {connectionString : Text}
    {config : NzConnectionConfig} (h : parseConnectionString env connectionString = .ok config)
    (hpairs : Unambiguous (pairsOf connectionString)) : OrderFree env connectionString config := by
  obtain ⟨base, hbase, haccepted, hconfig⟩ := parse_eq_ok.mp h
  have hreject := hpairs.rejectUnauthorized base
  rw [← hconfig, parseFront_reject hbase] at hreject
  constructor
  · exact fun other hfront hreordered => hreordered.sameLast.parse h hfront hpairs
  · intro option other hfront hother
    have hsame := keepLast_sameLast haccepted option
    rw [← hother] at hsame
    exact hsame.parse h hfront hpairs
  · intro mode hmode hverify hnone
    have hne : mode ≠ .require := by
      rintro rfl
      rcases hverify with h | h <;> cases h
    rw [hreject, hnone, hmode, if_neg (by simp [hne])]
    rfl
  · intro hexplicit
    rw [hreject, hexplicit]
    rfl

/-! ## Strings with a given list of pairs -/

/-- No pair at the end is cut short when the text is trimmed. -/
def EndsWell (pairs : List Text) : Prop :=
  ∀ pair c, pairs.getLast? = some pair → pair.getLast? = some c → isWhitespace c = false

theorem pairsOf_eq {connectionString : Text} {pairs : List Text} (hsome : pairs ≠ [])
    (h : pairsOf connectionString = pairs) :
    trim connectionString = frontOf connectionString ++ '?' :: joinAt '&' pairs ∧
      '?' ∉ frontOf connectionString ∧ ∀ pair ∈ pairs, '&' ∉ pair := by
  rw [pairsOf] at h
  rw [frontOf]
  cases hsplit : splitOnce '?' (trim connectionString) with
  | none =>
      rw [hsplit] at h
      exact absurd h.symm hsome
  | some parts =>
      obtain ⟨front, query⟩ := parts
      obtain ⟨htext, hfree⟩ := splitOnce_eq_some hsplit
      rw [hsplit, Option.elim_some] at h
      rw [Option.getD_some, ← h, joinAt_splitAt]
      exact ⟨htext, hfree, sep_not_mem_splitAt '&' query⟩

theorem pairsOf_endsWell (connectionString : Text) : EndsWell (pairsOf connectionString) := by
  intro pair c hlast hc
  have hsome : pairsOf connectionString ≠ [] := by
    rintro hnil
    rw [hnil] at hlast
    cases hlast
  refine trim_last (?_ : (trim connectionString).getLast? = some c)
  rw [(pairsOf_eq hsome rfl).1, getLast?_append_cons, (joinAt_getLast hlast).1 hc]
  rfl

/-- Any list of pairs of a string is the one of a string with the same front. -/
theorem exists_string {connectionString : Text} {pairs : List Text} (hsome : pairs ≠ [])
    (hpairs : ∀ pair ∈ pairs, pair ∈ pairsOf connectionString) (hends : EndsWell pairs) :
    ∃ other, frontOf other = frontOf connectionString ∧ pairsOf other = pairs := by
  obtain ⟨first, rest, rfl⟩ := List.exists_cons_of_ne_nil hsome
  obtain ⟨htext, hfree, hamp⟩ := pairsOf_eq
    (List.ne_nil_of_mem (hpairs first List.mem_cons_self)) (rfl : pairsOf connectionString = _)
  generalize frontOf connectionString = front at htext hfree
  have htrim : trim (front ++ '?' :: joinAt '&' (first :: rest)) =
      front ++ '?' :: joinAt '&' (first :: rest) := by
    apply trim_eq
    · intro c hc
      refine trim_head (?_ : (trim connectionString).head? = some c)
      rw [htext]
      cases front with
      | nil => exact hc
      | cons d ds => exact hc
    · intro c hc
      obtain ⟨last, hlast⟩ := Option.isSome_iff_exists.mp (List.getLast?_isSome.mpr hsome)
      rw [getLast?_append_cons] at hc
      cases hjoined : (joinAt '&' (first :: rest)).getLast? with
      | none =>
          rw [hjoined] at hc
          cases hc
          rfl
      | some d =>
          rw [hjoined] at hc
          cases hc
          rcases (joinAt_getLast hlast).2 hjoined with hd | rfl
          · exact hends last d hlast hd
          · rfl
  refine ⟨front ++ '?' :: joinAt '&' (first :: rest), ?_, ?_⟩
  · rw [frontOf, htrim, splitOnce_append hfree]
    rfl
  · rw [pairsOf, htrim, splitOnce_append hfree]
    exact splitAt_joinAt hsome fun pair hpair => hamp pair (hpairs pair hpair)

/-! ## Keywords -/

/-- The bytes of the values of `securityLevel` and `sslmode`. -/
def isKeywordByte (byte : UInt8) : Bool :=
  byte < 128 && ((Char.ofNat byte.toNat).isAlpha || byte == ascii '-')

/-- The bytes that the decoder may change. -/
def isEscapeByte (byte : UInt8) : Bool :=
  byte == ascii '%' || byte == ascii '+' || (hexValue byte).isSome

/-- A byte that the decoder does not look at is still there. -/
theorem mem_percentLoop {plusAsSpace : Bool} {bytes out : Bytes}
    (h : percentLoop plusAsSpace bytes = .ok out) {byte : UInt8} (hbyte : isEscapeByte byte = false)
    (hmem : byte ∈ bytes) : byte ∈ out := by
  simp only [isEscapeByte, Bool.or_eq_false_iff, beq_eq_false_iff_ne, Option.isSome_eq_false_iff,
    Option.isNone_iff_eq_none] at hbyte
  obtain ⟨⟨hpercent, hplus⟩, hhex⟩ := hbyte
  fun_induction percentLoop plusAsSpace bytes generalizing out with
  | case1 => cases hmem
  | case2 hi lo rest hiValue loValue hlo hhi ih =>
      cases hrest : percentLoop plusAsSpace rest with
      | error e =>
          rw [hrest] at h
          cases h
      | ok tail =>
          rw [hrest] at h
          cases h
          simp only [List.mem_cons] at hmem
          rcases hmem with rfl | rfl | rfl | hmem
          · exact absurd rfl hpercent
          · rw [hhi] at hhex
            cases hhex
          · rw [hlo] at hhex
            cases hhex
          · exact List.mem_cons_of_mem _ (ih hrest hmem)
  | case3 => cases h
  | case4 => cases h
  | case5 b rest hb decoded =>
      rename_i ih
      cases hrest : percentLoop plusAsSpace rest with
      | error e =>
          rw [hrest] at h
          cases h
      | ok tail =>
          rw [hrest] at h
          cases h
          rcases List.mem_cons.mp hmem with rfl | hmem
          · have hsame : decoded = byte := if_neg fun hspace => hplus hspace.2
            rw [hsame]
            exact List.mem_cons_self
          · exact List.mem_cons_of_mem _ (ih hrest hmem)

theorem isOneOf_singleton {text : Text} {literal : String} (h : isOneOf text [literal] = true) :
    text = literal.toList := by
  simp only [isOneOf, List.any_cons, List.any_nil, Bool.or_false, decide_eq_true_eq] at h
  exact h.symm

/-- The value of an option that takes one of a few words. -/
structure Keyword (value : Text) : Prop where
  ne_nil : value ≠ []
  bytes : ∀ byte ∈ toUtf8 value, isKeywordByte byte = true

theorem keyword_of_literal {value : Text} {literal : String}
    (h : isOneOf value [literal] = true)
    (hliteral : literal.toList ≠ [] ∧ (toUtf8 literal.toList).all isKeywordByte = true) :
    Keyword value := by
  rw [isOneOf_singleton h]
  exact ⟨hliteral.1, List.all_eq_true.mp hliteral.2⟩

theorem keyword_securityLevel {value : Text} {level : SecurityLevel}
    (h : SecurityLevel.parse value = some level) : Keyword value := by
  unfold SecurityLevel.parse at h
  split_ifs at h with h1 h2 h3 h4
  · exact keyword_of_literal h1 (by decide)
  · exact keyword_of_literal h2 (by decide)
  · exact keyword_of_literal h3 (by decide)
  · exact keyword_of_literal h4 (by decide)

theorem keyword_sslMode {value : Text} {mode : SslMode} (h : SslMode.parse value = some mode) :
    Keyword value := by
  unfold SslMode.parse at h
  split_ifs at h with h1 h2 h3 h4
  · exact keyword_of_literal h1 (by decide)
  · exact keyword_of_literal h2 (by decide)
  · exact keyword_of_literal h3 (by decide)
  · exact keyword_of_literal h4 (by decide)

/-- A blank has a byte that is in no keyword and that the decoder does not change. -/
theorem whitespace_byte {c : Char} (h : isWhitespace c = true) :
    ∃ byte ∈ String.utf8EncodeChar c, isEscapeByte byte = false ∧ isKeywordByte byte = false := by
  by_cases hc : c.toNat < 128
  · have hlow : ∀ n < 128, isWhitespace (Char.ofNat n) = true →
        isEscapeByte (ascii (Char.ofNat n)) = false ∧
          isKeywordByte (ascii (Char.ofNat n)) = false := by
      decide +kernel
    have hbyte := hlow c.toNat hc
    rw [Char.ofNat_toNat] at hbyte
    rw [Sql.encode_ascii hc]
    exact ⟨ascii c, List.mem_cons_self, hbyte h⟩
  · obtain ⟨byte, rest, hencode, hbyte⟩ := encode_wide_cons (Nat.not_lt.mp hc)
    have hwide : ∀ byte : UInt8, 128 ≤ byte.toNat →
        isEscapeByte byte = false ∧ isKeywordByte byte = false := by
      apply forall_byte
      decide +kernel
    rw [hencode]
    exact ⟨byte, List.mem_cons_self, hwide byte hbyte⟩

/-- A value that is decoded to a keyword does not end with a blank. -/
theorem Keyword.raw_last {plusAsSpace : Bool} {raw value : Text} (hvalue : Keyword value)
    (h : percentDecode plusAsSpace raw = .ok value) {c : Char} (hc : raw.getLast? = some c) :
    isWhitespace c = false := by
  by_contra hblank
  obtain ⟨byte, hbyte, hescape, hkeyword⟩ := whitespace_byte (Bool.of_not_eq_false hblank)
  have hraw : byte ∈ toUtf8 raw := List.mem_flatMap.mpr ⟨c, List.mem_of_getLast? hc, hbyte⟩
  have hmem := mem_percentLoop (percentDecode_bytes h).1 hescape hraw
  rw [hvalue.bytes byte hmem] at hkeyword
  cases hkeyword

theorem keyword_of_readSetting {name : OptionName} {value : Text} {setting : Setting}
    (h : readSetting name value = .ok setting)
    (howner : setting.owner = some .securityLevel ∨ setting.owner = some .sslMode) :
    Keyword value := by
  have hname : name = .securityLevel ∨ name = .sslMode := by
    rcases (readSetting_ok h).owner with hname | ⟨hnone, -⟩
    · rw [hname, Option.some_inj, Option.some_inj] at howner
      exact howner
    · rw [hnone] at howner
      rcases howner with h | h <;> cases h
  rcases hname with rfl | rfl
  · dsimp only [readSetting] at h
    cases hparse : SecurityLevel.parse value with
    | none =>
        rw [hparse] at h
        cases h
    | some level => exact keyword_securityLevel hparse
  · dsimp only [readSetting] at h
    cases hparse : SslMode.parse value with
    | none =>
        rw [hparse] at h
        cases h
    | some mode => exact keyword_sslMode hparse

/-- A pair that sets the level of security does not end with a blank. -/
theorem keyword_pair_last {pair : Text} {setting : Setting} (h : settingOf pair = some setting)
    (howner : setting.owner = some .securityLevel ∨ setting.owner = some .sslMode) {c : Char}
    (hc : pair.getLast? = some c) : isWhitespace c = false := by
  obtain ⟨name, value, -, hvalue, hread⟩ := settingOf_eq_some h
  have hkeyword := keyword_of_readSetting hread howner
  unfold splitPair at hvalue
  cases hsplit : splitOnce '=' pair with
  | none =>
      rw [hsplit] at hvalue
      have hempty : percentDecode true [] = .ok [] := rfl
      rw [Option.getD_none, hempty] at hvalue
      exact absurd (Except.ok.inj hvalue).symm hkeyword.ne_nil
  | some parts =>
      obtain ⟨key, raw⟩ := parts
      obtain ⟨rfl, -⟩ := splitOnce_eq_some hsplit
      rw [hsplit, Option.getD_some] at hvalue
      rw [getLast?_append_cons] at hc
      cases hraw : raw.getLast? with
      | none =>
          rw [hraw] at hc
          cases hc
          rfl
      | some d =>
          rw [hraw] at hc
          cases hc
          exact hkeyword.raw_last hvalue hraw

/-! ## Moving an option to the end -/

def toEnd (option : OptionName) (pairs : List Text) : List Text :=
  pairs.filter (fun pair => !named (some option) pair) ++ pairs.filter (named (some option))

theorem reordered_toEnd (option : OptionName) (pairs : List Text) :
    Reordered pairs (toEnd option pairs) := by
  intro other
  rw [toEnd, List.filter_append, List.filter_filter, List.filter_filter]
  by_cases hother : other = some option
  · subst hother
    simp
  · have hdisjoint (pair : Text) : (named other pair && named (some option) pair) = false := by
      rw [Bool.and_eq_false_iff]
      by_cases h : optionOf pair = other
      · exact .inr (decide_eq_false (h ▸ hother))
      · exact .inl (decide_eq_false h)
    have hsecond : pairs.filter (fun pair => named other pair && named (some option) pair) = [] := by
      rw [List.filter_eq_nil_iff]
      intro pair _
      rw [hdisjoint]
      exact Bool.false_ne_true
    rw [hsecond, List.append_nil]
    apply List.filter_congr
    intro pair _
    have h := hdisjoint pair
    cases hpair : named other pair with
    | false => rfl
    | true =>
        rw [hpair, Bool.true_and] at h
        rw [h]
        rfl

theorem lastSetting_some {option : OptionName} {pairs : List Text} {pair : Text} {setting : Setting}
    (hpair : pair ∈ pairs) (h : settingFor option pair = some setting) :
    ∃ last, lastSetting option pairs = some last := by
  cases hlast : lastSetting option pairs with
  | none =>
      rw [lastWrite_eq_none.mp hlast pair hpair] at h
      cases h
  | some last => exact ⟨last, rfl⟩

/-- The two options that ask for a level of security. -/
def asksLevel (option : OptionName) : Prop :=
  option = .securityLevel ∨ option = .sslMode

theorem asksLevel_known {option : OptionName} (h : asksLevel option) :
    ∀ key, option ≠ .other key := by
  rintro key rfl
  rcases h with h | h <;> cases h

theorem toEnd_endsWell {option : OptionName} (hoption : asksLevel option) {pairs : List Text}
    (haccepted : ∀ pair ∈ pairs, settingOf pair ≠ none) {setting : Setting}
    (hlast : lastSetting option pairs = some setting) :
    toEnd option pairs ≠ [] ∧ EndsWell (toEnd option pairs) := by
  obtain ⟨pair, hpair, hread, howner⟩ := lastSetting_owner hlast
  have hmoved : pairs.filter (named (some option)) ≠ [] :=
    List.ne_nil_of_mem (List.mem_filter.mpr
      ⟨hpair, decide_eq_true (settingOf_owner hread howner)⟩)
  refine ⟨List.append_ne_nil_of_right_ne_nil _ hmoved, ?_⟩
  intro last c hend hc
  rw [toEnd, List.getLast?_append_of_ne_nil _ hmoved] at hend
  obtain ⟨hmem, hnamed⟩ := List.mem_filter.mp (List.mem_of_getLast? hend)
  obtain ⟨final, hfinal⟩ := Option.ne_none_iff_exists'.mp (haccepted last hmem)
  have hfinalOwner := owner_of_optionOf hfinal (of_decide_eq_true hnamed) (asksLevel_known hoption)
  apply keyword_pair_last hfinal _ hc
  rcases hoption with rfl | rfl
  · exact .inl hfinalOwner
  · exact .inr hfinalOwner

theorem mem_toEnd {option : OptionName} {pairs : List Text} {pair : Text}
    (h : pair ∈ toEnd option pairs) : pair ∈ pairs := by
  rcases List.mem_append.mp h with h | h <;> exact (List.mem_filter.mp h).1

/-- What moving an option to the end leads to, where the order does not matter. -/
theorem OrderFree.toEnd {env : Environment} {connectionString : Text}
    {config base : NzConnectionConfig} (h : OrderFree env connectionString config)
    (hbase : parseFront env (frontOf connectionString) = .ok base)
    (haccepted : ∀ pair ∈ pairsOf connectionString, settingOf pair ≠ none)
    {option : OptionName} (hoption : asksLevel option) {setting : Setting}
    (hlast : lastSetting option (pairsOf connectionString) = some setting) :
    config = (Config.toEnd option (pairsOf connectionString)).foldl assign base := by
  obtain ⟨hsome, hends⟩ := toEnd_endsWell hoption haccepted hlast
  obtain ⟨other, hfront, hother⟩ := exists_string hsome (fun _ => mem_toEnd) hends
  have hreordered := reordered_toEnd option (pairsOf connectionString)
  rw [← hother] at hreordered
  obtain ⟨base', hbase', -, hconfig⟩ := parse_eq_ok.mp (h.permuted other hfront hreordered)
  rw [hfront, hbase] at hbase'
  cases hbase'
  rwa [hother] at hconfig

theorem settingFor_other {option : OptionName} (other : OptionName) {pair : Text}
    (h : named (some option) pair = true) (hne : option ≠ other) : settingFor other pair = none := by
  by_contra hsome
  have hother := settingFor_named hsome
  have hsame : some option = some other :=
    (of_decide_eq_true h : optionOf pair = _).symm.trans (of_decide_eq_true hother)
  exact hne (Option.some.inj hsame)

theorem level_toEnd {option : OptionName} (hoption : asksLevel option) {pairs : List Text}
    {setting : Setting} (hlast : lastSetting option pairs = some setting)
    (base : NzConnectionConfig) :
    ((toEnd option pairs).foldl assign base).securityLevel = setting.level := by
  rw [securityLevel_last, toEnd, lastWrite_append]
  have hmoved : lastWrite (fun pair => ((settingFor .securityLevel pair).map Setting.level).or
      ((settingFor .sslMode pair).map Setting.level)) (pairs.filter (named (some option))) =
      some setting.level := by
    have hown : lastWrite (fun pair => (settingFor option pair).map Setting.level)
        (pairs.filter (named (some option))) = some setting.level := by
      rw [lastWrite_map, lastWrite_filter fun _ => settingFor_named, ← lastSetting, hlast]
      rfl
    rw [← hown]
    apply lastWrite_congr
    intro pair hpair
    have hnamed := (List.mem_filter.mp hpair).2
    rcases hoption with rfl | rfl
    · rw [settingFor_other .sslMode hnamed (by decide), Option.map_none, Option.or_none]
    · rw [settingFor_other .securityLevel hnamed (by decide), Option.map_none,
        Option.none_or]
  rw [hmoved]
  rfl

theorem requireWrites_named {pair : Text} (h : requireWrites pair ≠ none) :
    named (some .sslMode) pair = true := by
  obtain ⟨reject, hreject⟩ := Option.ne_none_iff_exists'.mp h
  exact decide_eq_true (settingOf_owner (requireWrites_some hreject).1 rfl)

theorem reject_toEnd {pairs : List Text}
    (hrequire : ∃ pair ∈ pairs, settingOf pair = some (.sslMode .require))
    (base : NzConnectionConfig) :
    ((toEnd .sslMode pairs).foldl assign base).rejectUnauthorized = false := by
  rw [rejectUnauthorized_last, toEnd, lastWrite_append]
  have hmoved : lastWrite (fun pair => ((settingFor .rejectUnauthorized pair).map Setting.reject).or
      (requireWrites pair)) (pairs.filter (named (some .sslMode))) = some false := by
    rw [← requireWrites_last hrequire, ← lastWrite_filter fun _ => requireWrites_named]
    apply lastWrite_congr
    intro pair hpair
    rw [settingFor_other _ (List.mem_filter.mp hpair).2 (by decide), Option.map_none, Option.none_or]
  rw [hmoved]
  rfl

/-- A setting of `sslmode=require` that is repeated away leaves the check as it was. -/
theorem reject_keepLast {pairs : List Text} {base : NzConnectionConfig} {mode : SslMode}
    (haccepted : ∀ pair ∈ pairs, settingOf pair ≠ none)
    (hnone : lastSetting .rejectUnauthorized pairs = none)
    (hmode : lastSetting .sslMode pairs = some (.sslMode mode)) (hrequire : mode ≠ .require) :
    ((keepLast (named (some .sslMode)) pairs).foldl assign base).rejectUnauthorized =
      base.rejectUnauthorized := by
  have hsame := keepLast_sameLast haccepted .sslMode
  have hfree : ¬ ∃ pair ∈ keepLast (named (some .sslMode)) pairs,
      settingOf pair = some (.sslMode .require) := by
    rintro ⟨pair, hpair, hread⟩
    have hnamed : named (some .sslMode) pair = true := decide_eq_true (settingOf_owner hread rfl)
    have hkept := lastWrite_of_mem_keepLast (fun _ => settingFor_named) hpair
      hnamed
    rw [← lastSetting, hsame.last, hmode, settingFor_eq_some.mpr ⟨hread, rfl⟩] at hkept
    cases hkept
    exact hrequire rfl
  have hreject : lastWrite (settingFor .rejectUnauthorized)
      (keepLast (named (some .sslMode)) pairs) = none :=
    (hsame.last .rejectUnauthorized).trans hnone
  rw [rejectUnauthorized_last, lastWrite_agree, lastWrite_map, hreject, requireWrites_none hfree]
  · rfl
  · intro a b ha
    rw [lastWrite_map, hreject] at ha
    cases ha

theorem keepLast_endsWell {connectionString : Text} (hsome : pairsOf connectionString ≠ [])
    (p : Text → Bool) :
    keepLast p (pairsOf connectionString) ≠ [] ∧ EndsWell (keepLast p (pairsOf connectionString)) := by
  constructor
  · intro hnil
    have hlast := getLast?_keepLast (p := p) (pairsOf connectionString)
    rw [hnil, List.getLast?_nil] at hlast
    exact hsome (List.getLast?_eq_none_iff.mp hlast.symm)
  · intro pair c hlast
    rw [getLast?_keepLast] at hlast
    exact pairsOf_endsWell connectionString pair c hlast

/-- The order of the options does not matter where no option overrules another one. -/
theorem options_order_free_iff (env : Environment) (connectionString : Text)
    (config : NzConnectionConfig)
    (h : parseConnectionString env connectionString = .ok config) :
    OrderFree env connectionString config ↔ Unambiguous (pairsOf connectionString) := by
  refine ⟨fun hfree => ?_, fun hpairs => hpairs.orderFree h⟩
  obtain ⟨base, hbase, haccepted, hconfig⟩ := parse_eq_ok.mp h
  constructor
  · intro level mode hlevel hmode
    have hfirst := hfree.toEnd hbase haccepted (.inl rfl) hlevel
    have hsecond := hfree.toEnd hbase haccepted (.inr rfl) hmode
    have hlevelEq := level_toEnd (.inl rfl) hlevel base
    have hmodeEq := level_toEnd (.inr rfl) hmode base
    rw [← hfirst] at hlevelEq
    rw [← hsecond] at hmodeEq
    exact hlevelEq.symm.trans hmodeEq
  · intro hrequire
    obtain ⟨pair, hpair, hread⟩ := hrequire
    obtain ⟨last, hlast⟩ := lastSetting_some hpair (settingFor_eq_some.mpr ⟨hread, rfl⟩)
    obtain ⟨_, -, -, howner⟩ := lastSetting_owner hlast
    have hoff : config.rejectUnauthorized = false := by
      rw [hfree.toEnd hbase haccepted (.inr rfl) hlast]
      exact reject_toEnd ⟨pair, hpair, hread⟩ base
    cases hreject : lastSetting .rejectUnauthorized (pairsOf connectionString) with
    | some reject =>
        obtain ⟨_, -, -, hrejectOwner⟩ := lastSetting_owner hreject
        cases reject <;> cases hrejectOwner
        rename_i reject
        cases reject with
        | false => exact .inl rfl
        | true =>
            rw [hfree.explicit hreject] at hoff
            cases hoff
    | none =>
        refine .inr ⟨rfl, ?_⟩
        cases last <;> cases howner
        rename_i mode
        by_contra hother
        have hmode : mode ≠ .require := by
          rintro rfl
          exact hother hlast
        obtain ⟨hsome, hends⟩ := keepLast_endsWell (List.ne_nil_of_mem hpair)
          (named (some .sslMode))
        obtain ⟨other, hfront, hpairs⟩ := exists_string hsome (fun _ => mem_keepLast) hends
        obtain ⟨base', hbase', -, hkept⟩ :=
          parse_eq_ok.mp (hfree.repeated .sslMode other hfront hpairs)
        rw [hfront, hbase] at hbase'
        cases hbase'
        rw [hpairs] at hkept
        rw [hkept, reject_keepLast haccepted hreject hlast hmode, parseFront_reject hbase] at hoff
        cases hoff

/-- The check that `verify-full` asks for, with a mode in front of it that turns it off. -/
def overruledCheck : Text :=
  "nz://u:p@h/d?sslmode=require&sslmode=verify-full".toList

def unnamed : Environment :=
  ⟨none, none⟩

theorem overruledCheck_off :
    ∃ config, parseConnectionString unnamed overruledCheck = .ok config ∧
      config.rejectUnauthorized = false := by
  have hparse : (parseConnectionString unnamed overruledCheck).toOption.any
      (!·.rejectUnauthorized) = true := by decide +kernel
  cases h : parseConnectionString unnamed overruledCheck with
  | error e =>
      rw [h] at hparse
      cases hparse
  | ok config =>
      rw [h] at hparse
      exact ⟨config, rfl, Bool.not_eq_true' _ ▸ hparse⟩

theorem overruledCheck_iff :
    ∃ config, parseConnectionString unnamed overruledCheck = .ok config ∧
      (OrderFree unnamed overruledCheck config ↔ Unambiguous (pairsOf overruledCheck)) := by
  obtain ⟨config, h, -⟩ := overruledCheck_off
  exact ⟨config, h, options_order_free_iff unnamed overruledCheck config h⟩

/-- With `sslmode=require` in front, a final `sslmode=verify-full` leaves the check off. -/
theorem verify_full_unchecked :
    ¬ ∀ (env : Environment) (connectionString : Text) (config : NzConnectionConfig),
      parseConnectionString env connectionString = .ok config →
      OrderFree env connectionString config := by
  intro hfree
  obtain ⟨config, h, hoff⟩ := overruledCheck_off
  have hmode : lastSetting .sslMode (pairsOf overruledCheck) = some (.sslMode .verifyFull) := by
    decide +kernel
  have hnone : lastSetting .rejectUnauthorized (pairsOf overruledCheck) = none := by
    decide +kernel
  have hon := (hfree unnamed overruledCheck config h).verified .verifyFull hmode (.inr rfl) hnone
  rw [hoff] at hon
  cases hon

end NzRust.Config
