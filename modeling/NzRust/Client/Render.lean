import NzRust.Client.TemplateCache
import NzRust.Lib.Soup
import NzRust.Sql.Substitution
import NzRust.Types.Civil
import NzRust.Types.ExactNumeric
import NzRust.Types.SqlText

/-!
# Rendering through the template cache

The `ToSql` implementations of the library, and the `render_sql` calls of any
number of clones over one template cache. The cache is locked for one `get` and
for one `insert`, so these are the steps that interleave.
-/

namespace NzRust.Client

open NzRust.Sql Tasks

variable {N : Numerics}

/-! ## Parameters -/

/-- The values that the library implements `ToSql` for. -/
inductive SqlParam (N : Numerics) where
  | value (value : NzValue N)
  | i16 (value : Int16)
  | i32 (value : Int32)
  | i64 (value : Int64)
  | i8 (value : Int8)
  | u8 (value : UInt8)
  | u16 (value : UInt16)
  | u32 (value : UInt32)
  | bool (value : Bool)
  | f32 (value : N.F32)
  | f64 (value : N.F64)
  | decimal (value : N.Decimal)
  /-- `Vec<u8>` and `&[u8]`. -/
  | bytes (value : Bytes)
  /-- `String`, `str` and `&str`. -/
  | string (value : Text)
  | numeric (value : NzNumeric)
  | date (value : NzDate)
  | time (value : NzTime)
  | timestamp (value : NzTimestamp)
  | interval (value : NzInterval)
  | timetz (value : NzTimetz)
  | absent
  | present (value : SqlParam N)
  | ref (value : SqlParam N)

namespace SqlParam

/-- `to_nz_value`; an exact number is printed as `NzNumeric.display_eq` says. -/
def toNzValue : SqlParam N → NzValue N
  | .value v => v
  | .i16 v => .int2 v
  | .i32 v => .int4 v
  | .i64 v => .int8 v
  | .i8 v => .int2 v.toInt16
  | .u8 v => .int2 (Int16.ofNat v.toNat)
  | .u16 v => .int4 (Int32.ofNat v.toNat)
  | .u32 v => .int8 (Int64.ofNat v.toNat)
  | .bool v => .bool v
  | .f32 v => .float4 v
  | .f64 v => .float8 v
  | .decimal v => .decimal v
  | .bytes v => .bytea v
  | .string v => .text v
  | .numeric v => .numeric (canonicalText v.coefficient v.scale)
  | .date v => v.toNzValue N
  | .time v => v.toNzValue N
  | .timestamp v => v.toNzValue N
  | .interval v => v.toNzValue N
  | .timetz v => v.toNzValue N
  | .absent => .null
  | .present v => v.toNzValue
  | .ref v => v.toNzValue

/-- The text that `write_sql` appends. -/
def writeSql : SqlParam N → Except String Text
  | .value v => escapeLiteral v
  | .i16 v => .ok (displayInt v.toInt)
  | .i32 v => .ok (displayInt v.toInt)
  | .i64 v => .ok (displayInt v.toInt)
  | .i8 v => .ok (displayInt v.toInt)
  | .u8 v => .ok (displayInt (Int16.ofNat v.toNat).toInt)
  | .u16 v => .ok (displayInt (Int32.ofNat v.toNat).toInt)
  | .u32 v => .ok (displayInt (Int64.ofNat v.toNat).toInt)
  | .bool v => .ok (if v then "'t'".toList else "'f'".toList)
  | .f32 v => writeFloat N (N.f32ToF64 v)
  | .f64 v => writeFloat N v
  | .decimal v => .ok (N.displayDecimal v)
  | .bytes _ => .error "Binary SQL parameters are unsupported; use an external-table reader"
  | .string v => writeTextLiteral v
  -- these types keep the default of the trait
  | .numeric v => escapeLiteral (NzValue.numeric (N := N) (canonicalText v.coefficient v.scale))
  | .date v => escapeLiteral (v.toNzValue N)
  | .time v => escapeLiteral (v.toNzValue N)
  | .timestamp v => escapeLiteral (v.toNzValue N)
  | .interval v => escapeLiteral (v.toNzValue N)
  | .timetz v => escapeLiteral (v.toNzValue N)
  | .absent => .ok "NULL".toList
  | .present v => v.writeSql
  | .ref v => v.writeSql

/-- Every writer appends what the generic one does. -/
theorem writeSql_eq (p : SqlParam N) : p.writeSql = escapeLiteral p.toNzValue := by
  induction p with
  | i8 v => rw [writeSql, toNzValue, escapeLiteral, Int8.toInt_toInt16]
  | present v ih => exact ih
  | ref v ih => exact ih
  | _ => rfl

end SqlParam

/-- `params[index].write_sql(output)`. -/
def writeAt (params : List (SqlParam N)) (index : Nat) : Except String Text :=
  match params[index]? with
  | some p => p.writeSql
  | none => .error "index out of bounds"

theorem writeAt_eq (params : List (SqlParam N)) (index : Nat) :
    writeAt params index = literalAt (params.map SqlParam.toNzValue) index := by
  unfold writeAt literalAt
  rw [List.getElem?_map]
  cases params[index]? with
  | none => rfl
  | some p => exact p.writeSql_eq

/-! ## Calls over one cache -/

/-- How far a call has come. -/
inductive RenderStage where
  | lookup
  | parse
  | store (template : SqlTemplate)
  | render (template : SqlTemplate)
  | returned (result : Except String Text)

/-- A call of `render_sql`. -/
structure RenderCall (N : Numerics) where
  sql : Text
  params : List (SqlParam N)
  stage : RenderStage

/-- The next step of a call; `none` when it has returned or the eviction loop runs out of turns. -/
def RenderCall.next (fuel : Nat) (cache : SqlTemplateCache) (call : RenderCall N) :
    Option (SqlTemplateCache × RenderStage) :=
  match call.stage with
  | .lookup =>
      let (cache, cached) := cache.get call.sql
      match cached with
      | some template => some (cache, .render template)
      | none => some (cache, .parse)
  | .parse =>
      match SqlTemplate.parse call.sql with
      | .error e => some (cache, .returned (.error e))
      | .ok template => some (cache, .store template)
  | .store template =>
      (cache.insert fuel template).map fun cache => (cache, .render template)
  | .render template =>
      some (cache, .returned (template.render call.params.length (writeAt call.params)))
  | .returned _ => none

/-- Calls that begin at any time and take their steps in any order. -/
def renderProgram (N : Numerics) (fuel : Nat) :
    Program SqlTemplateCache (RenderCall N) Unit where
  starts call := match call.stage with
    | .lookup => true
    | _ => false
  act cache call _ :=
    (call.next fuel cache).map fun (cache, stage) => (cache, [{ call with stage }])

/-- Histories of calls, from a fresh cache. -/
def renderSystem (N : Numerics) (fuel : Nat) :=
  (renderProgram N fuel).system fun s => s = ⟨{}, []⟩

/-! ## Sound caches -/

/-- Every template is the parse of its key, and the entries are no more than the cache may hold. -/
structure Sound (cache : SqlTemplateCache) : Prop where
  parsed : ∀ e ∈ cache.entries, SqlTemplate.parse e.1 = .ok e.2.template
  count : cache.entries.length ≤ sqlTemplateCacheEntries

theorem parse_source {sql : Text} {template : SqlTemplate}
    (h : SqlTemplate.parse sql = .ok template) : template.source = sql := by
  unfold SqlTemplate.parse at h
  split_ifs at h
  cases h
  rfl

open SqlTemplateCache

theorem Sound.get {cache : SqlTemplateCache} (h : Sound cache) (sql : Text) :
    Sound (cache.get sql).1 ∧
      ∀ template, (cache.get sql).2 = some template → SqlTemplate.parse sql = .ok template := by
  cases hfound : lookup sql cache.entries with
  | none =>
      rw [(get_miss hfound).1]
      refine ⟨⟨h.parsed, h.count⟩, ?_⟩
      intro template hnone
      cases hnone
  | some entry =>
      rw [(get_hit hfound).1]
      refine ⟨⟨?_, ?_⟩, ?_⟩
      · intro e he
        obtain ⟨old, hold, hkey, htemplate, -, -⟩ := touched he
        rw [hkey, htemplate]
        exact h.parsed old hold
      · show (touch sql (tick cache.clock) cache.entries).length ≤ _
        rw [touch_length]
        exact h.count
      · intro template hsome
        cases hsome
        exact h.parsed (sql, entry) (lookup_some hfound)

/-- The eviction loop ends, whatever the stamps are: every turn removes an entry. -/
theorem evict_ends (needed : Nat) {fuel : Nat} {entries : List CacheEntry} (retained : Nat)
    (hfuel : entries.length < fuel) :
    ∃ kept left, evict needed fuel entries retained = some (kept, left) ∧
      (∀ e ∈ kept, e ∈ entries) ∧ kept.length < sqlTemplateCacheEntries := by
  induction fuel generalizing entries retained with
  | zero => omega
  | succ fuel ih =>
      rw [evict]
      by_cases hfull : entries.length ≥ sqlTemplateCacheEntries ∨
          saturatingAdd retained needed > sqlTemplateCacheBytes
      · rw [if_pos hfull]
        cases hleast : minByLastUsed entries with
        | none =>
            have hnil : entries = [] := minByLastUsed_spec.1.mp hleast
            subst hnil
            exact ⟨[], retained, rfl, by simp, by decide⟩
        | some least =>
            have hmem := (minByLastUsed_spec.2 least hleast).1
            obtain ⟨removed, hremoved⟩ : ∃ removed, lookup least.1 entries = some removed := by
              cases hlookup : lookup least.1 entries with
              | some removed => exact ⟨removed, rfl⟩
              | none => exact absurd rfl (lookup_none.mp hlookup least hmem)
            have hshorter : (remove least.1 entries).length < entries.length := by
              apply List.length_filter_lt_length_iff_exists.mpr
              exact ⟨least, hmem, by simp⟩
            obtain ⟨kept, left, hrun, hsub, hcount⟩ :=
              ih (retained - removed.retainedBytes) (Nat.lt_of_lt_of_le hshorter (by omega))
            refine ⟨kept, left, ?_, ?_, hcount⟩
            · simp only [hremoved]
              exact hrun
            · intro e he
              exact (mem_remove.mp (hsub e he)).1
      · rw [if_neg hfull]
        exact ⟨entries, retained, rfl, fun _ he => he, by omega⟩

theorem Sound.insert {cache : SqlTemplateCache} (h : Sound cache) {fuel : Nat}
    (hfuel : sqlTemplateCacheEntries < fuel) {sql : Text} {template : SqlTemplate}
    (hparse : SqlTemplate.parse sql = .ok template) :
    ∃ after, cache.insert fuel template = some after ∧ Sound after := by
  unfold SqlTemplateCache.insert
  by_cases hlarge : Oversized template
  · exact ⟨cache, if_pos hlarge, h⟩
  rw [if_neg hlarge]
  by_cases hknown : (lookup template.source cache.entries).isSome
  · exact ⟨cache, if_pos hknown, h⟩
  rw [if_neg hknown]
  obtain ⟨kept, left, hrun, hsub, hcount⟩ := evict_ends (templateBytes template)
    cache.retainedBytes (Nat.lt_of_le_of_lt h.count hfuel)
  rw [hrun]
  refine ⟨_, rfl, ?_, ?_⟩
  · intro e he
    rcases List.mem_append.mp he with hold | hnew
    · exact h.parsed e (hsub e hold)
    · rw [List.mem_singleton.mp hnew]
      show SqlTemplate.parse template.source = _
      rw [parse_source hparse]
      exact hparse
  · show (kept ++ [_]).length ≤ _
    rw [List.length_append, List.length_singleton]
    exact hcount

/-! ## Histories -/

/-- What a call may rely on at its stage, and what it returns. -/
def Faithful (call : RenderCall N) : Prop :=
  match call.stage with
  | .lookup | .parse => True
  | .store template | .render template => SqlTemplate.parse call.sql = .ok template
  | .returned result => result = substituteParameters call.sql (call.params.map SqlParam.toNzValue)

theorem RenderCall.next_sound {fuel : Nat} {cache cache' : SqlTemplateCache} {call : RenderCall N}
    {stage : RenderStage} (hfuel : sqlTemplateCacheEntries < fuel) (hcache : Sound cache)
    (hcall : Faithful call) (h : call.next fuel cache = some (cache', stage)) :
    Sound cache' ∧ Faithful { call with stage } := by
  obtain ⟨sql, params, current⟩ := call
  cases current with
  | lookup =>
      obtain ⟨hsound, hfound⟩ := hcache.get sql
      simp only [next] at h
      cases hcached : (cache.get sql).2 with
      | none =>
          rw [hcached] at h
          cases h
          exact ⟨hsound, trivial⟩
      | some template =>
          rw [hcached] at h
          cases h
          exact ⟨hsound, hfound template hcached⟩
  | parse =>
      simp only [next] at h
      cases hparse : SqlTemplate.parse sql with
      | error e =>
          rw [hparse] at h
          cases h
          refine ⟨hcache, ?_⟩
          show Except.error e = substituteParameters sql _
          rw [substituteParameters, hparse]
      | ok template =>
          rw [hparse] at h
          cases h
          exact ⟨hcache, hparse⟩
  | store template =>
      obtain ⟨after, hinsert, hafter⟩ := hcache.insert hfuel hcall
      simp only [next, hinsert, Option.map_some] at h
      cases h
      exact ⟨hafter, hcall⟩
  | render template =>
      simp only [next] at h
      cases h
      refine ⟨hcache, ?_⟩
      have hparse : SqlTemplate.parse sql = .ok template := hcall
      show template.render params.length (writeAt params) = substituteParameters sql _
      rw [substituteParameters, hparse, List.length_map, funext (writeAt_eq params)]
  | returned result => cases h

/-- The steps that a call still has to take at most. -/
def RenderStage.remaining : RenderStage → Nat
  | .lookup => 4
  | .parse => 3
  | .store _ => 2
  | .render _ => 1
  | .returned _ => 0

/-- A call that has not returned can take a step, and comes closer to its return with it. -/
theorem RenderCall.next_advances {fuel : Nat} {cache : SqlTemplateCache} {call : RenderCall N}
    (hfuel : sqlTemplateCacheEntries < fuel) (hcache : Sound cache) (hcall : Faithful call)
    (hopen : ∀ result, call.stage ≠ .returned result) :
    ∃ cache' stage, call.next fuel cache = some (cache', stage) ∧
      stage.remaining < call.stage.remaining := by
  obtain ⟨sql, params, current⟩ := call
  cases current with
  | lookup =>
      simp only [next]
      cases (cache.get sql).2 with
      | none => exact ⟨_, _, rfl, by decide⟩
      | some template => exact ⟨_, .render template, rfl, by simp [RenderStage.remaining]⟩
  | parse =>
      simp only [next]
      cases SqlTemplate.parse sql with
      | error e => exact ⟨_, .returned (.error e), rfl, by simp [RenderStage.remaining]⟩
      | ok template => exact ⟨_, .store template, rfl, by simp [RenderStage.remaining]⟩
  | store template =>
      obtain ⟨after, hinsert, -⟩ := hcache.insert hfuel hcall
      simp only [next, hinsert, Option.map_some]
      exact ⟨after, .render template, rfl, by simp [RenderStage.remaining]⟩
  | render template => exact ⟨_, .returned _, rfl, Nat.zero_lt_one⟩
  | returned result => exact absurd rfl (hopen result)

/-- Every history keeps the cache sound and its calls faithful. -/
theorem renderSystem_invariant {fuel : Nat} (hfuel : sqlTemplateCacheEntries < fuel)
    {s : Soup SqlTemplateCache (RenderCall N)} (h : (renderSystem N fuel).Reachable s) :
    Sound s.shared ∧ ∀ call ∈ s.tasks, Faithful call := by
  apply h.invariant
  · intro s hs
    cases hs
    exact ⟨⟨by simp, by simp⟩, by simp⟩
  · intro s a s' hs hstep
    cases a with
    | spawn call =>
        obtain ⟨hstart, rfl⟩ := Program.step_spawn hstep
        refine ⟨hs.1, ?_⟩
        intro other hother
        rcases List.mem_append.mp hother with hold | hnew
        · exact hs.2 other hold
        · rw [List.mem_singleton.mp hnew]
          obtain ⟨sql, params, stage⟩ := call
          cases stage <;> first | exact trivial | cases hstart
    | run i signal =>
        obtain ⟨before, call, after, shared, calls, htasks, -, hact, rfl⟩ :=
          Program.step_run hstep
        obtain ⟨⟨cache, stage⟩, hnext, hout⟩ := Option.map_eq_some_iff.mp hact
        cases hout
        have hmem : call ∈ s.tasks := by
          rw [htasks]
          simp
        obtain ⟨hsound, hfaithful⟩ := RenderCall.next_sound hfuel hs.1 (hs.2 call hmem) hnext
        refine ⟨hsound, ?_⟩
        intro other hother
        rcases List.mem_append.mp hother with hbefore | hrest
        · exact hs.2 other (by rw [htasks]; exact List.mem_append_left _ hbefore)
        · rcases List.mem_cons.mp hrest with rfl | hafter
          · exact hfaithful
          · refine hs.2 other ?_
            rw [htasks]
            exact List.mem_append_right _ (List.mem_cons_of_mem call hafter)

/--
In every history a call that has returned has what the uncached substitution
gives for its text and values, and a call that has not can return in a few
steps of its own.
-/
theorem template_cache_invisible {fuel : Nat} (hfuel : sqlTemplateCacheEntries < fuel)
    {s : Soup SqlTemplateCache (RenderCall N)} (h : (renderSystem N fuel).Reachable s)
    {call : RenderCall N} (hcall : call ∈ s.tasks) :
    (∀ result, call.stage = .returned result →
      result = substituteParameters call.sql (call.params.map SqlParam.toNzValue)) ∧
    ((∀ result, call.stage ≠ .returned result) →
      ∃ cache stage, call.next fuel s.shared = some (cache, stage) ∧
        stage.remaining < call.stage.remaining) := by
  obtain ⟨hsound, hfaithful⟩ := renderSystem_invariant hfuel h
  refine ⟨?_, RenderCall.next_advances hfuel hsound (hfaithful call hcall)⟩
  intro result hresult
  have hvalue := hfaithful call hcall
  rw [Faithful, hresult] at hvalue
  exact hvalue

theorem template_cache_invisible_once :
    substituteParameters ['$', '1'] [NzValue.int4 (N := wholeNumbers) 7] = .ok ['7'] := by
  have hrun : ((renderProgram wholeNumbers 129).exec (fun _ _ => true) ⟨{}, []⟩
      [.spawn ⟨['$', '1'], [.i32 7], .lookup⟩, .run 0 (), .run 0 (), .run 0 (), .run 0 ()]) =
      some ⟨⟨[(['$', '1'], ⟨⟨['$', '1'], [⟨0, 2, 1⟩]⟩, 26, 2⟩)], 26, 2⟩,
        [⟨['$', '1'], [.i32 7], .returned (.ok ['7'])⟩]⟩ := by
    rfl
  have hstart : ((renderSystem wholeNumbers 129).guarded fun _ _ => true = true).Reachable
      ⟨{}, []⟩ := .start rfl
  have hreach : (renderSystem wholeNumbers 129).Reachable _ :=
    (Program.exec_reachable hstart hrun).of_guarded
  exact ((template_cache_invisible (show sqlTemplateCacheEntries < 129 by decide) hreach
    (List.mem_singleton_self _)).1 _ rfl).symm

end NzRust.Client
