import Mathlib.Data.List.Nodup
import NzRust.Sql.Template

/-!
# The template cache

`SqlTemplateCache` of the native client. The hash map is the list of its
entries, whose order matters nowhere: the entry to evict is unique.
-/

namespace NzRust.Client

open NzRust.Sql

/-- `SQL_TEMPLATE_CACHE_ENTRIES`, `SQL_TEMPLATE_CACHE_BYTES`, `SQL_TEMPLATE_CACHE_ENTRY_MAX`. -/
def sqlTemplateCacheEntries : Nat := 128
def sqlTemplateCacheBytes : Nat := 1024 * 1024
def sqlTemplateCacheEntryMax : Nat := 64 * 1024

/-- `saturating_add` and `saturating_mul` on words of 64 bits. -/
def saturatingAdd (a b : Nat) : Nat := min (a + b) (2 ^ 64 - 1)
def saturatingMul (a b : Nat) : Nat := min (a * b) (2 ^ 64 - 1)

/-- `SqlTemplate::retained_bytes`; a placeholder is a range and an index, of 24 bytes. -/
def templateBytes (template : SqlTemplate) : Nat :=
  saturatingAdd (byteLen template.source) (saturatingMul template.placeholders.length 24)

structure CachedSqlTemplate where
  template : SqlTemplate
  retainedBytes : Nat
  lastUsed : Nat
  deriving DecidableEq, Repr

/-- A key of the map with its value. -/
abbrev CacheEntry := Text × CachedSqlTemplate

structure SqlTemplateCache where
  entries : List CacheEntry := []
  retainedBytes : Nat := 0
  clock : Nat := 0
  deriving DecidableEq, Repr

namespace SqlTemplateCache

/-- `clock.wrapping_add(1).max(1)`. -/
def tick (clock : Nat) : Nat := max ((clock + 1) % 2 ^ 64) 1

/-- `entries.get(key)`. -/
def lookup (key : Text) (entries : List CacheEntry) : Option CachedSqlTemplate :=
  (entries.find? fun e => e.1 == key).map Prod.snd

/-- `entry.last_used = clock` through `get_mut(key)`. -/
def touch (key : Text) (clock : Nat) (entries : List CacheEntry) : List CacheEntry :=
  entries.map fun e => if e.1 = key then (e.1, { e.2 with lastUsed := clock }) else e

/-- `entries.remove(key)`. -/
def remove (key : Text) (entries : List CacheEntry) : List CacheEntry :=
  entries.filter fun e => !(e.1 == key)

/-- `min_by_key(last_used)`. -/
def minByLastUsed : List CacheEntry → Option CacheEntry
  | [] => none
  | e :: es =>
      match minByLastUsed es with
      | none => some e
      | some least => if e.2.lastUsed ≤ least.2.lastUsed then some e else some least

/-- `SqlTemplateCache::get`. -/
def get (cache : SqlTemplateCache) (sql : Text) : SqlTemplateCache × Option SqlTemplate :=
  let clock := tick cache.clock
  match lookup sql cache.entries with
  | none => ({ cache with clock }, none)
  | some entry =>
      ({ cache with clock, entries := touch sql clock cache.entries }, some entry.template)

/-- The eviction loop; `none` when `fuel` turns are not enough. -/
def evict (needed : Nat) : Nat → List CacheEntry → Nat → Option (List CacheEntry × Nat)
  | 0, _, _ => none
  | fuel + 1, entries, retained =>
      if entries.length ≥ sqlTemplateCacheEntries ∨
          saturatingAdd retained needed > sqlTemplateCacheBytes then
        match minByLastUsed entries with
        | none => some (entries, retained)
        | some oldest =>
            match lookup oldest.1 entries with
            | none => evict needed fuel entries retained
            | some removed =>
                evict needed fuel (remove oldest.1 entries) (retained - removed.retainedBytes)
      else some (entries, retained)

/-- The templates that `insert` turns away. -/
def Oversized (template : SqlTemplate) : Prop :=
  templateBytes template > sqlTemplateCacheEntryMax ∨ templateBytes template > sqlTemplateCacheBytes

instance (template : SqlTemplate) : Decidable (Oversized template) :=
  inferInstanceAs (Decidable (_ ∨ _))

/-- `SqlTemplateCache::insert`. -/
def insert (fuel : Nat) (cache : SqlTemplateCache) (template : SqlTemplate) :
    Option SqlTemplateCache :=
  if Oversized template then some cache
  else if (lookup template.source cache.entries).isSome then some cache
  else
    (evict (templateBytes template) fuel cache.entries cache.retainedBytes).map
      fun (entries, retained) =>
        let clock := tick cache.clock
        { entries := entries ++ [(template.source,
            { template, retainedBytes := templateBytes template, lastUsed := clock })]
          retainedBytes := saturatingAdd retained (templateBytes template)
          clock }

/-- A call of the cache's methods. -/
inductive Call where
  | get (sql : Text)
  | insert (template : SqlTemplate)
  deriving DecidableEq, Repr

def call (fuel : Nat) (cache : SqlTemplateCache) : Call → Option SqlTemplateCache
  | .get sql => some (cache.get sql).1
  | .insert template => cache.insert fuel template

/-- The key that a call uses: the one it hits or the one it stores. -/
def used (cache : SqlTemplateCache) : Call → Option Text
  | .get sql => if (lookup sql cache.entries).isSome then some sql else none
  | .insert template =>
      if Oversized template ∨ (lookup template.source cache.entries).isSome then none
      else some template.source

/-- Calls one after the other, with the keys they use appended to `log`. -/
def run (fuel : Nat) : List Call → SqlTemplateCache → List Text →
    Option (SqlTemplateCache × List Text)
  | [], cache, log => some (cache, log)
  | c :: calls, cache, log => do
      let next ← cache.call fuel c
      run fuel calls next (log ++ (cache.used c).toList)

/-! ## Lookups -/

theorem lookup_some {key : Text} {entries : List CacheEntry} {entry : CachedSqlTemplate}
    (h : lookup key entries = some entry) : (key, entry) ∈ entries := by
  obtain ⟨e, hfind, rfl⟩ := Option.map_eq_some_iff.mp h
  have hkey : e.1 = key := by simpa using List.find?_some hfind
  rw [← hkey]
  exact List.mem_of_find?_eq_some hfind

theorem lookup_none {key : Text} {entries : List CacheEntry} :
    lookup key entries = none ↔ ∀ e ∈ entries, e.1 ≠ key := by
  simp [lookup]

/-- No two entries have one key. -/
def Keyed (entries : List CacheEntry) : Prop :=
  (entries.map Prod.fst).Nodup

theorem Keyed.eq {entries : List CacheEntry} (h : Keyed entries) {a b : CacheEntry}
    (ha : a ∈ entries) (hb : b ∈ entries) (hkey : a.1 = b.1) : a = b :=
  List.inj_on_of_nodup_map h ha hb hkey

theorem Keyed.lookup {entries : List CacheEntry} (h : Keyed entries) {e : CacheEntry}
    (he : e ∈ entries) : lookup e.1 entries = some e.2 := by
  cases hfound : SqlTemplateCache.lookup e.1 entries with
  | none => exact absurd rfl (lookup_none.mp hfound e he)
  | some entry =>
      have hsame := h.eq he (lookup_some hfound) rfl
      rw [hsame]

theorem minByLastUsed_spec {entries : List CacheEntry} :
    (minByLastUsed entries = none ↔ entries = []) ∧
      ∀ least, minByLastUsed entries = some least →
        least ∈ entries ∧ ∀ e ∈ entries, least.2.lastUsed ≤ e.2.lastUsed := by
  induction entries with
  | nil => simp [minByLastUsed]
  | cons e es ih =>
      rw [minByLastUsed]
      cases hleast : minByLastUsed es with
      | none =>
          have hnil : es = [] := ih.1.mp hleast
          subst hnil
          simp
      | some m =>
          obtain ⟨hmem, hle⟩ := ih.2 m hleast
          by_cases hfirst : e.2.lastUsed ≤ m.2.lastUsed
          · simp only [if_pos hfirst]
            refine ⟨by simp, ?_⟩
            intro least hsome
            cases hsome
            refine ⟨by simp, ?_⟩
            intro x hx
            rcases List.mem_cons.mp hx with rfl | hx
            · exact le_refl _
            · exact hfirst.trans (hle x hx)
          · simp only [if_neg hfirst]
            refine ⟨by simp, ?_⟩
            intro least hsome
            cases hsome
            refine ⟨List.mem_cons_of_mem e hmem, ?_⟩
            intro x hx
            rcases List.mem_cons.mp hx with rfl | hx
            · omega
            · exact hle x hx

/-- The bytes that the entries retain together. -/
def totalRetained (entries : List CacheEntry) : Nat :=
  (entries.map fun e => e.2.retainedBytes).sum

theorem Keyed.remove {entries : List CacheEntry} (h : Keyed entries) (key : Text) :
    Keyed (remove key entries) :=
  List.Nodup.sublist (List.filter_sublist.map Prod.fst) h

theorem mem_remove {key : Text} {entries : List CacheEntry} {e : CacheEntry} :
    e ∈ remove key entries ↔ e ∈ entries ∧ e.1 ≠ key := by
  simp [SqlTemplateCache.remove]

/-- An entry and what is left without it are the entries. -/
theorem Keyed.perm_remove {entries : List CacheEntry} (h : Keyed entries) {e : CacheEntry}
    (he : e ∈ entries) : entries.Perm (e :: SqlTemplateCache.remove e.1 entries) := by
  have hnodup : entries.Nodup := List.Nodup.of_map Prod.fst h
  have herase : entries.erase e = SqlTemplateCache.remove e.1 entries := by
    rw [hnodup.erase_eq_filter, SqlTemplateCache.remove]
    apply List.filter_congr
    intro x hx
    by_cases hkey : x.1 = e.1
    · rw [h.eq hx he hkey]
      simp
    · have hne : x ≠ e := fun heq => hkey (congrArg Prod.fst heq)
      have hleft : (x != e) = true := bne_iff_ne.mpr hne
      rw [hleft]
      simpa using hkey
  exact herase ▸ List.perm_cons_erase he

theorem Keyed.totalRetained_remove {entries : List CacheEntry} (h : Keyed entries)
    {e : CacheEntry} (he : e ∈ entries) :
    totalRetained entries =
      e.2.retainedBytes + totalRetained (SqlTemplateCache.remove e.1 entries) := by
  have hsum := ((h.perm_remove he).map fun e => e.2.retainedBytes).sum_nat
  simpa [totalRetained] using hsum

theorem Keyed.length_remove {entries : List CacheEntry} (h : Keyed entries) {e : CacheEntry}
    (he : e ∈ entries) :
    entries.length = (SqlTemplateCache.remove e.1 entries).length + 1 :=
  (h.perm_remove he).length_eq

/-! ## The order of use -/

/-- At some point of the log everything behind it uses `b` and no longer `a`. -/
def UsedBefore (log : List Text) (a b : Text) : Prop :=
  ∃ front back, log = front ++ back ∧ b ∈ back ∧ a ∉ back

theorem UsedBefore.last {log : List Text} {a b : Text} (h : a ≠ b) :
    UsedBefore (log ++ [b]) a b :=
  ⟨log, [b], rfl, by simp, by simpa using h⟩

theorem UsedBefore.append {log more : List Text} {a b : Text} (h : UsedBefore log a b)
    (ha : a ∉ more) : UsedBefore (log ++ more) a b := by
  obtain ⟨front, back, rfl, hb, hback⟩ := h
  refine ⟨front, back ++ more, by simp, by simp [hb], ?_⟩
  simp [hback, ha]

/-- The stamps of the entries are past values of the clock, in the order in which the keys were
used. -/
structure Stamped (entries : List CacheEntry) (clock : Nat) (log : List Text) : Prop where
  past : ∀ e ∈ entries, e.2.lastUsed ≤ clock
  ordered : ∀ a ∈ entries, ∀ b ∈ entries, a.1 ≠ b.1 →
    (a.2.lastUsed < b.2.lastUsed ∧ UsedBefore log a.1 b.1) ∨
      (b.2.lastUsed < a.2.lastUsed ∧ UsedBefore log b.1 a.1)

theorem Stamped.usedBefore {entries : List CacheEntry} {clock : Nat} {log : List Text}
    (h : Stamped entries clock log) {a b : CacheEntry} (ha : a ∈ entries) (hb : b ∈ entries)
    (hle : a.2.lastUsed ≤ b.2.lastUsed) (hkey : a.1 ≠ b.1) : UsedBefore log a.1 b.1 := by
  rcases h.ordered a ha b hb hkey with hab | hba
  · exact hab.2
  · omega

theorem Stamped.subset {entries kept : List CacheEntry} {clock : Nat} {log : List Text}
    (h : Stamped entries clock log) (hsub : ∀ e ∈ kept, e ∈ entries) : Stamped kept clock log where
  past e he := h.past e (hsub e he)
  ordered a ha b hb := h.ordered a (hsub a ha) b (hsub b hb)

/-- The stamps tell the entries apart, so the oldest one does not depend on their order in the
map. -/
theorem Stamped.oldest_perm {entries entries' : List CacheEntry} {clock : Nat} {log : List Text}
    (h : Stamped entries clock log) (hkeyed : Keyed entries) (hperm : entries.Perm entries') :
    minByLastUsed entries' = minByLastUsed entries := by
  cases hleast : minByLastUsed entries with
  | none =>
      rw [minByLastUsed_spec.1] at hleast ⊢
      rw [hleast] at hperm
      exact hperm.symm.eq_nil
  | some least =>
      obtain ⟨hmem, hle⟩ := minByLastUsed_spec.2 least hleast
      cases hleast' : minByLastUsed entries' with
      | none =>
          rw [minByLastUsed_spec.1.mp hleast'] at hperm
          rw [hperm.eq_nil] at hmem
          exact absurd hmem List.not_mem_nil
      | some other =>
          obtain ⟨hmem', hle'⟩ := minByLastUsed_spec.2 other hleast'
          have hother := hperm.mem_iff.mpr hmem'
          have h₁ := hle other hother
          have h₂ := hle' least (hperm.mem_iff.mp hmem)
          by_cases hkey : other.1 = least.1
          · rw [hkeyed.eq hother hmem hkey]
          · rcases h.ordered other hother least hmem hkey with hlt | hlt <;> omega

/-! ## Eviction -/

/-- What the eviction loop leaves of `entries`. -/
structure Evicted (entries kept : List CacheEntry) (retained needed : Nat) : Prop where
  sub : ∀ e ∈ kept, e ∈ entries
  keyed : Keyed kept
  total : retained = totalRetained kept
  count : kept.length < sqlTemplateCacheEntries
  bytes : retained + needed ≤ sqlTemplateCacheBytes
  oldest : ∀ gone ∈ entries, gone ∉ kept → ∀ e ∈ kept, gone.2.lastUsed ≤ e.2.lastUsed

theorem evict_spec {needed : Nat} (hneeded : needed ≤ sqlTemplateCacheBytes) (fuel : Nat)
    (entries : List CacheEntry) (retained : Nat) (hfuel : entries.length < fuel)
    (hkeyed : Keyed entries) (htotal : retained = totalRetained entries)
    (hbytes : retained ≤ sqlTemplateCacheBytes) :
    ∃ kept left, evict needed fuel entries retained = some (kept, left) ∧
      Evicted entries kept left needed := by
  induction fuel generalizing entries retained with
  | zero => omega
  | succ fuel ih =>
      have hsat : saturatingAdd retained needed = retained + needed := by
        simp only [saturatingAdd, sqlTemplateCacheBytes] at hneeded hbytes ⊢
        omega
      rw [evict, hsat]
      by_cases hfull : entries.length ≥ sqlTemplateCacheEntries ∨
          retained + needed > sqlTemplateCacheBytes
      · rw [if_pos hfull]
        cases hleast : minByLastUsed entries with
        | none =>
            -- an empty cache has room for every template that is not oversized
            have hnil : entries = [] := minByLastUsed_spec.1.mp hleast
            rw [hnil] at hfull htotal
            simp only [totalRetained, List.map_nil, List.sum_nil, List.length_nil,
              sqlTemplateCacheEntries] at hfull htotal
            omega
        | some least =>
            obtain ⟨hmem, hle⟩ := minByLastUsed_spec.2 least hleast
            have hlength := hkeyed.length_remove hmem
            have hsum := hkeyed.totalRetained_remove hmem
            obtain ⟨kept, left, hrun, hkept⟩ := ih (remove least.1 entries)
              (retained - least.2.retainedBytes) (by omega) (hkeyed.remove least.1) (by omega)
              (by omega)
            refine ⟨kept, left, ?_, ?_, hkept.keyed, hkept.total, hkept.count, hkept.bytes, ?_⟩
            · simp only [hkeyed.lookup hmem]
              exact hrun
            · intro e he
              exact (mem_remove.mp (hkept.sub e he)).1
            · intro gone hgone hnot e he
              have hold := (mem_remove.mp (hkept.sub e he)).1
              by_cases hkey : gone.1 = least.1
              · rw [hkeyed.eq hgone hmem hkey]
                exact hle e hold
              · exact hkept.oldest gone (mem_remove.mpr ⟨hgone, hkey⟩) hnot e he
      · rw [if_neg hfull]
        refine ⟨entries, retained, rfl, ?_, hkeyed, htotal, by omega, by omega, ?_⟩
        · intro e he
          exact he
        · intro gone hgone hnot
          exact absurd hgone hnot

/-! ## Calls -/

/-- What `n` calls with the uses `log` leave behind. -/
structure Consistent (cache : SqlTemplateCache) (log : List Text) (n : Nat) : Prop where
  keyed : Keyed cache.entries
  sources : ∀ e ∈ cache.entries, e.2.template.source = e.1
  sizes : ∀ e ∈ cache.entries, e.2.retainedBytes = templateBytes e.2.template
  total : cache.retainedBytes = totalRetained cache.entries
  bytes : cache.retainedBytes ≤ sqlTemplateCacheBytes
  count : cache.entries.length ≤ sqlTemplateCacheEntries
  clock : cache.clock ≤ n
  stamped : Stamped cache.entries cache.clock log

theorem Consistent.empty : Consistent {} [] 0 where
  keyed := List.nodup_nil
  sources := by simp
  sizes := by simp
  total := rfl
  bytes := by simp
  count := by simp
  clock := le_refl 0
  stamped := ⟨by simp, by simp⟩

theorem tick_eq {clock n : Nat} (h : clock ≤ n) (hn : n + 1 < 2 ^ 64) : tick clock = clock + 1 := by
  simp only [tick]
  omega

theorem mem_touch {key : Text} {clock : Nat} {entries : List CacheEntry} {e : CacheEntry} :
    e ∈ touch key clock entries ↔ ∃ old ∈ entries,
      (if old.1 = key then (old.1, { old.2 with lastUsed := clock }) else old) = e := by
  simp [touch]

@[simp] theorem touch_keys (key : Text) (clock : Nat) (entries : List CacheEntry) :
    (touch key clock entries).map Prod.fst = entries.map Prod.fst := by
  rw [touch, List.map_map]
  apply List.map_congr_left
  intro e _
  by_cases h : e.1 = key <;> simp [h]

@[simp] theorem touch_length (key : Text) (clock : Nat) (entries : List CacheEntry) :
    (touch key clock entries).length = entries.length := by
  simp [touch]

@[simp] theorem touch_total (key : Text) (clock : Nat) (entries : List CacheEntry) :
    totalRetained (touch key clock entries) = totalRetained entries := by
  rw [totalRetained, touch, List.map_map, totalRetained]
  congr 1
  apply List.map_congr_left
  intro e _
  by_cases h : e.1 = key <;> simp [h]

/-- A touched entry keeps its key and its template, and its stamp is the old one or the clock. -/
theorem touched {key : Text} {clock : Nat} {entries : List CacheEntry} {e : CacheEntry}
    (h : e ∈ touch key clock entries) :
    ∃ old ∈ entries, e.1 = old.1 ∧ e.2.template = old.2.template ∧
      e.2.retainedBytes = old.2.retainedBytes ∧
      e.2.lastUsed = if e.1 = key then clock else old.2.lastUsed := by
  obtain ⟨old, hold, rfl⟩ := mem_touch.mp h
  refine ⟨old, hold, ?_⟩
  by_cases hkey : old.1 = key
  · rw [if_pos hkey]
    simp [hkey]
  · rw [if_neg hkey]
    simp [hkey]

theorem Stamped.touch {entries : List CacheEntry} {clock : Nat} {log : List Text}
    (h : Stamped entries clock log) (key : Text) :
    Stamped (touch key (clock + 1) entries) (clock + 1) (log ++ [key]) where
  past e he := by
    obtain ⟨old, hold, -, -, -, hstamp⟩ := touched he
    have hpast := h.past old hold
    rw [hstamp]
    by_cases hkey : e.1 = key
    · rw [if_pos hkey]
    · rw [if_neg hkey]
      omega
  ordered a ha b hb hne := by
    obtain ⟨a', hmema, hkeya, -, -, hstampa⟩ := touched ha
    obtain ⟨b', hmemb, hkeyb, -, -, hstampb⟩ := touched hb
    have hpasta := h.past a' hmema
    have hpastb := h.past b' hmemb
    by_cases hak : a.1 = key
    · right
      have hbk : b.1 ≠ key := fun hbk => hne (hak.trans hbk.symm)
      rw [if_pos hak] at hstampa
      rw [if_neg hbk] at hstampb
      refine ⟨by omega, hak ▸ UsedBefore.last (hak ▸ hbk)⟩
    · rw [if_neg hak] at hstampa
      by_cases hbk : b.1 = key
      · left
        rw [if_pos hbk] at hstampb
        refine ⟨by omega, hbk ▸ UsedBefore.last (hbk ▸ hak)⟩
      · -- neither is the key used now
        rw [if_neg hbk] at hstampb
        have hold := h.ordered a' hmema b' hmemb (by rw [← hkeya, ← hkeyb]; exact hne)
        rw [← hkeya, ← hkeyb] at hold
        rcases hold with ⟨hlt, hused⟩ | ⟨hlt, hused⟩
        · exact .inl ⟨by omega, hused.append (by simpa using hak)⟩
        · exact .inr ⟨by omega, hused.append (by simpa using hbk)⟩

theorem get_miss {cache : SqlTemplateCache} {sql : Text} (h : lookup sql cache.entries = none) :
    cache.get sql = ({ cache with clock := tick cache.clock }, none) ∧
      cache.used (.get sql) = none := by
  simp [SqlTemplateCache.get, used, h]

theorem get_hit {cache : SqlTemplateCache} {sql : Text} {entry : CachedSqlTemplate}
    (h : lookup sql cache.entries = some entry) :
    cache.get sql = ({ cache with
        clock := tick cache.clock, entries := touch sql (tick cache.clock) cache.entries },
      some entry.template) ∧ cache.used (.get sql) = some sql := by
  simp [SqlTemplateCache.get, used, h]

theorem Consistent.get {cache : SqlTemplateCache} {log : List Text} {n : Nat}
    (h : Consistent cache log n) (hn : n + 1 < 2 ^ 64) (sql : Text) :
    Consistent (cache.get sql).1 (log ++ (cache.used (.get sql)).toList) (n + 1) := by
  have hclock := Nat.succ_le_succ h.clock
  cases hfound : lookup sql cache.entries with
  | none =>
      obtain ⟨hget, hused⟩ := get_miss hfound
      rw [hget, hused, tick_eq h.clock hn, Option.toList_none, List.append_nil]
      refine ⟨h.keyed, h.sources, h.sizes, h.total, h.bytes, h.count, hclock, ?_,
        h.stamped.ordered⟩
      intro e he
      exact (h.stamped.past e he).trans (Nat.le_succ cache.clock)
  | some entry =>
      obtain ⟨hget, hused⟩ := get_hit hfound
      rw [hget, hused, tick_eq h.clock hn, Option.toList_some]
      refine ⟨?_, ?_, ?_, ?_, h.bytes, ?_, hclock, h.stamped.touch sql⟩
      · show ((touch sql (cache.clock + 1) cache.entries).map Prod.fst).Nodup
        rw [touch_keys]
        exact h.keyed
      · intro e he
        obtain ⟨old, hold, hkey, htemplate, -, -⟩ := touched he
        rw [htemplate, hkey]
        exact h.sources old hold
      · intro e he
        obtain ⟨old, hold, -, htemplate, hretained, -⟩ := touched he
        rw [htemplate, hretained]
        exact h.sizes old hold
      · show cache.retainedBytes = totalRetained (touch sql (cache.clock + 1) cache.entries)
        rw [touch_total]
        exact h.total
      · show (touch sql (cache.clock + 1) cache.entries).length ≤ _
        rw [touch_length]
        exact h.count

/-- A new entry with the next stamp is the one used last. -/
theorem Stamped.insert {entries : List CacheEntry} {clock : Nat} {log : List Text}
    (h : Stamped entries clock log) {e : CacheEntry} (hnew : ∀ old ∈ entries, old.1 ≠ e.1)
    (hstamp : e.2.lastUsed = clock + 1) :
    Stamped (entries ++ [e]) (clock + 1) (log ++ [e.1]) where
  past x hx := by
    rcases List.mem_append.mp hx with hold | hlast
    · exact (h.past x hold).trans (Nat.le_succ clock)
    · rw [List.mem_singleton.mp hlast, hstamp]
  ordered a ha b hb hne := by
    have before : ∀ x ∈ entries, x.2.lastUsed < e.2.lastUsed ∧
        UsedBefore (log ++ [e.1]) x.1 e.1 := by
      intro x hx
      have hpast := h.past x hx
      exact ⟨by omega, UsedBefore.last (hnew x hx)⟩
    rcases List.mem_append.mp ha with holda | hlasta
    · rcases List.mem_append.mp hb with holdb | hlastb
      · rcases h.ordered a holda b holdb hne with ⟨hlt, hused⟩ | ⟨hlt, hused⟩
        · exact .inl ⟨hlt, hused.append (by simpa using hnew a holda)⟩
        · exact .inr ⟨hlt, hused.append (by simpa using hnew b holdb)⟩
      · rw [List.mem_singleton.mp hlastb]
        exact .inl (before a holda)
    · rw [List.mem_singleton.mp hlasta] at hne ⊢
      rcases List.mem_append.mp hb with holdb | hlastb
      · exact .inr (before b holdb)
      · exact absurd (congrArg Prod.fst (List.mem_singleton.mp hlastb)).symm hne

/-- An insertion, of a template that was turned away or of one that is stored now. -/
structure Inserted (cache after : SqlTemplateCache) (template : SqlTemplate) (log : List Text) :
    Prop where
  present : ¬ Oversized template → ∃ entry, (template.source, entry) ∈ after.entries ∧
    ((∀ e ∈ cache.entries, e.1 ≠ template.source) → entry.template = template)
  oldest : ∀ gone ∈ cache.entries, gone ∉ after.entries → ∀ e ∈ after.entries,
    UsedBefore log gone.1 e.1

/-- The cache with `template` stored behind the entries that eviction has kept. -/
def stored (cache : SqlTemplateCache) (kept : List CacheEntry) (left : Nat)
    (template : SqlTemplate) : SqlTemplateCache where
  entries := kept ++ [(template.source,
    ⟨template, templateBytes template, cache.clock + 1⟩)]
  retainedBytes := left + templateBytes template
  clock := cache.clock + 1

section Storing

variable {cache : SqlTemplateCache} {log : List Text} {n : Nat} {template : SqlTemplate}
  {kept : List CacheEntry} {left : Nat}

theorem insert_stored {fuel : Nat} (h : Consistent cache log n) (hn : n + 1 < 2 ^ 64)
    (hnew : ¬ (Oversized template ∨ (lookup template.source cache.entries).isSome))
    (hrun : evict (templateBytes template) fuel cache.entries cache.retainedBytes =
      some (kept, left))
    (hkept : Evicted cache.entries kept left (templateBytes template)) :
    cache.insert fuel template = some (cache.stored kept left template) := by
  have hsat : saturatingAdd left (templateBytes template) = left + templateBytes template := by
    have hbytes := hkept.bytes
    simp only [saturatingAdd, sqlTemplateCacheBytes] at hbytes ⊢
    omega
  rw [not_or] at hnew
  rw [SqlTemplateCache.insert, if_neg hnew.1, if_neg hnew.2, hrun, Option.map_some]
  simp only [hsat, tick_eq h.clock hn, stored]

theorem Consistent.stored (h : Consistent cache log n)
    (habsent : ∀ e ∈ cache.entries, e.1 ≠ template.source)
    (hkept : Evicted cache.entries kept left (templateBytes template)) :
    Consistent (cache.stored kept left template) (log ++ [template.source]) (n + 1) := by
  have hnew : ∀ old ∈ kept, old.1 ≠ template.source := fun old hold =>
    habsent old (hkept.sub old hold)
  refine ⟨?_, ?_, ?_, ?_, hkept.bytes, ?_, Nat.succ_le_succ h.clock, ?_⟩
  · show ((kept ++ [_]).map Prod.fst).Nodup
    rw [List.map_append, List.map_singleton, List.nodup_append]
    refine ⟨hkept.keyed, List.nodup_singleton _, ?_⟩
    intro key hkey last hlast
    obtain ⟨old, hold, rfl⟩ := List.mem_map.mp hkey
    rw [List.mem_singleton.mp hlast]
    exact hnew old hold
  · intro e he
    rcases List.mem_append.mp he with hold | hlast
    · exact h.sources e (hkept.sub e hold)
    · rw [List.mem_singleton.mp hlast]
  · intro e he
    rcases List.mem_append.mp he with hold | hlast
    · exact h.sizes e (hkept.sub e hold)
    · rw [List.mem_singleton.mp hlast]
  · show left + templateBytes template = totalRetained (kept ++ [_])
    rw [hkept.total]
    simp [totalRetained]
  · have hcount := hkept.count
    simp only [SqlTemplateCache.stored, List.length_append, List.length_singleton]
    omega
  · exact (h.stamped.subset hkept.sub).insert hnew rfl

theorem Inserted.stored (h : Consistent cache log n)
    (habsent : ∀ e ∈ cache.entries, e.1 ≠ template.source)
    (hkept : Evicted cache.entries kept left (templateBytes template)) :
    Inserted cache (cache.stored kept left template) template (log ++ [template.source]) where
  present _ := ⟨_, List.mem_append_right _ (List.mem_singleton_self _), fun _ => rfl⟩
  oldest gone hgone hnot e he := by
    have hout : gone ∉ kept := fun hmem => hnot (List.mem_append_left _ hmem)
    rcases List.mem_append.mp he with hold | hlast
    · have hkey : gone.1 ≠ e.1 := fun heq =>
        hout (h.keyed.eq hgone (hkept.sub e hold) heq ▸ hold)
      have hused := h.stamped.usedBefore hgone (hkept.sub e hold)
        (hkept.oldest gone hgone hout e hold) hkey
      exact hused.append (by simpa using habsent gone hgone)
    · rw [List.mem_singleton.mp hlast]
      exact UsedBefore.last (habsent gone hgone)

end Storing

theorem Consistent.insert {cache : SqlTemplateCache} {log : List Text} {n fuel : Nat}
    (h : Consistent cache log n) (hn : n + 1 < 2 ^ 64) (hfuel : sqlTemplateCacheEntries < fuel)
    (template : SqlTemplate) :
    ∃ after, cache.insert fuel template = some after ∧
      Consistent after (log ++ (cache.used (.insert template)).toList) (n + 1) ∧
      Inserted cache after template (log ++ (cache.used (.insert template)).toList) := by
  by_cases hsame : Oversized template ∨ (lookup template.source cache.entries).isSome
  · -- both early returns leave the cache as it is
    have hused : cache.used (.insert template) = none := if_pos hsame
    have hrun : cache.insert fuel template = some cache := by
      unfold SqlTemplateCache.insert
      rcases hsame with hlarge | hknown
      · exact if_pos hlarge
      · rw [if_pos hknown, ite_self]
    rw [hused, Option.toList_none, List.append_nil]
    refine ⟨cache, hrun, { h with clock := h.clock.trans (Nat.le_succ n) }, ?_, ?_⟩
    · intro hsmall
      obtain ⟨entry, hentry⟩ :=
        Option.isSome_iff_exists.mp (hsame.resolve_left hsmall)
      refine ⟨entry, lookup_some hentry, ?_⟩
      intro habsent
      exact absurd rfl (habsent _ (lookup_some hentry))
    · intro gone hgone hnot
      exact absurd hgone hnot
  · have hused : cache.used (.insert template) = some template.source := if_neg hsame
    have hboth := not_or.mp hsame
    have habsent : ∀ e ∈ cache.entries, e.1 ≠ template.source :=
      lookup_none.mp (by simpa using hboth.2)
    have hsmall : templateBytes template ≤ sqlTemplateCacheBytes :=
      Nat.not_lt.mp (not_or.mp hboth.1).2
    obtain ⟨kept, left, hrun, hkept⟩ := evict_spec hsmall fuel cache.entries cache.retainedBytes
      (Nat.lt_of_le_of_lt h.count hfuel) h.keyed h.total h.bytes
    rw [hused, Option.toList_some]
    exact ⟨_, insert_stored h hn hsame hrun hkept, h.stored habsent hkept,
      .stored h habsent hkept⟩

theorem Consistent.run {fuel : Nat} (hfuel : sqlTemplateCacheEntries < fuel) (calls : List Call)
    {cache : SqlTemplateCache} {log : List Text} {n : Nat} (h : Consistent cache log n)
    (hn : n + calls.length < 2 ^ 64) :
    ∃ after log', SqlTemplateCache.run fuel calls cache log = some (after, log') ∧
      Consistent after log' (n + calls.length) := by
  induction calls generalizing cache log n with
  | nil => exact ⟨cache, log, rfl, h⟩
  | cons c calls ih =>
      rw [List.length_cons] at hn
      have hstep : ∃ next, cache.call fuel c = some next ∧
          Consistent next (log ++ (cache.used c).toList) (n + 1) := by
        cases c with
        | get sql => exact ⟨_, rfl, h.get (by omega) sql⟩
        | insert template =>
            obtain ⟨next, hrun, hnext, -⟩ := h.insert (by omega) hfuel template
            exact ⟨next, hrun, hnext⟩
      obtain ⟨next, hcall, hnext⟩ := hstep
      obtain ⟨after, log', hrun, hafter⟩ := ih hnext (by omega)
      refine ⟨after, log', ?_, ?_⟩
      · rw [SqlTemplateCache.run, hcall]
        exact hrun
      · rw [List.length_cons]
        have hcount : n + (calls.length + 1) = n + 1 + calls.length := by omega
        rw [hcount]
        exact hafter

/--
After any calls the cache is within its limits, and the next insertion ends,
keeps its template unless that is oversized, and drops only entries used before
every entry it keeps.
-/
theorem cache_within_limits (fuel : Nat) (hfuel : sqlTemplateCacheEntries < fuel)
    (calls : List Call) (hcalls : calls.length < 2 ^ 64) :
    ∃ cache log, run fuel calls {} [] = some (cache, log) ∧
      cache.retainedBytes = (cache.entries.map fun e => e.2.retainedBytes).sum ∧
      (∀ e ∈ cache.entries, e.2.retainedBytes = templateBytes e.2.template) ∧
      cache.retainedBytes ≤ sqlTemplateCacheBytes ∧
      cache.entries.length ≤ sqlTemplateCacheEntries ∧
      (∀ e ∈ cache.entries, e.1 = e.2.template.source) ∧
      (cache.entries.map Prod.fst).Nodup ∧
      (calls.length + 1 < 2 ^ 64 → ∀ template, ∃ after,
        cache.insert fuel template = some after ∧
        (¬ Oversized template → ∃ entry, (template.source, entry) ∈ after.entries ∧
          ((∀ e ∈ cache.entries, e.1 ≠ template.source) → entry.template = template)) ∧
        ∀ gone ∈ cache.entries, gone ∉ after.entries → ∀ e ∈ after.entries,
          UsedBefore (log ++ (cache.used (.insert template)).toList) gone.1 e.1) := by
  obtain ⟨cache, log, hrun, h⟩ := Consistent.empty.run hfuel calls (by omega)
  refine ⟨cache, log, hrun, h.total, h.sizes, h.bytes, h.count, ?_, h.keyed, ?_⟩
  · intro e he
    exact (h.sources e he).symm
  · intro hnext template
    obtain ⟨after, hinsert, -, hinserted⟩ := h.insert (by omega) hfuel template
    exact ⟨after, hinsert, hinserted.present, hinserted.oldest⟩

theorem cache_within_limits_short :
    ∃ cache log, run 129 [.insert ⟨['a'], []⟩, .get ['a']] {} [] = some (cache, log) ∧
      cache.retainedBytes ≤ sqlTemplateCacheBytes ∧
      ∃ after, cache.insert 129 ⟨['b'], []⟩ = some after ∧
        ∃ entry, (['b'], entry) ∈ after.entries := by
  obtain ⟨cache, log, hrun, -, -, hbytes, -, -, -, hinsert⟩ :=
    cache_within_limits 129 (by decide) [.insert ⟨['a'], []⟩, .get ['a']] (by decide)
  obtain ⟨after, hafter, hpresent, -⟩ := hinsert (by decide) ⟨['b'], []⟩
  obtain ⟨entry, hentry, -⟩ := hpresent (by decide)
  exact ⟨cache, log, hrun, hbytes, after, hafter, entry, hentry⟩

end SqlTemplateCache

end NzRust.Client
