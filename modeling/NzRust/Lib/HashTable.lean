import Mathlib.Data.List.Basic

/-!
# Hash tables

A hash table finds an entry by the hash that it was put in with. What a probe
visits besides is left open, so that the lookups below hold for any layout and
any hash function, as long as equal keys have equal hashes.
-/

namespace Hashed

/-- What a table holds, each entry under its hash, and what a probe visits. -/
structure Table (H E : Type) where
  State : Type
  empty : State
  insert : H → E → State → State
  entries : State → List (H × E)
  probe : H → State → List E
  entries_empty : entries empty = []
  mem_insert : ∀ {h x s p}, p ∈ entries (insert h x s) ↔ p = (h, x) ∨ p ∈ entries s
  mem_probe : ∀ {h x s}, (h, x) ∈ entries s → x ∈ probe h s
  of_mem_probe : ∀ {h x s}, x ∈ probe h s → ∃ g, (g, x) ∈ entries s

/-- Chains of entries whose hashes fall into one bucket. -/
def chained {H : Type} (E : Type) (bucket : H → Nat) : Table H E where
  State := List (H × E)
  empty := []
  insert h x s := (h, x) :: s
  entries s := s
  probe h s := (s.filter fun p => bucket p.1 == bucket h).map Prod.snd
  entries_empty := rfl
  mem_insert := List.mem_cons
  mem_probe {h x s} hmem := List.mem_map.mpr ⟨(h, x), List.mem_filter.mpr ⟨hmem, by simp⟩, rfl⟩
  of_mem_probe {h x s} hmem := by
    obtain ⟨p, hp, rfl⟩ := List.mem_map.mp hmem
    exact ⟨p.1, (List.mem_filter.mp hp).1⟩

variable {H K V Q : Type}

section Maps

variable (T : Table H (K × V))

/-- `get`: the value of the first entry visited whose key answers. -/
def get (h : H) (equivalent : K → Bool) (s : T.State) : Option V :=
  ((T.probe h s).find? fun e => equivalent e.1).map Prod.snd

/-- `entry(key).or_insert(value)`. -/
def orInsert (h : H) (same : K → Bool) (key : K) (value : V) (s : T.State) : T.State :=
  match (T.probe h s).find? fun e => same e.1 with
  | some _ => s
  | none => T.insert h (key, value) s

/-- A table filled entry by entry, in order. -/
def fill (hashOf : K → H) (same : K → K → Bool) (entries : List (K × V)) (s : T.State) : T.State :=
  entries.foldl (fun s e => orInsert T (hashOf e.1) (same e.1) e.1 e.2 s) s

end Maps

/-- Equality of keys, with hashes that follow it. -/
structure Lawful (hashOf : K → H) (same : K → K → Bool) : Prop where
  refl : ∀ a, same a a = true
  symm : ∀ {a b}, same a b = true → same b a = true
  trans : ∀ {a b c}, same a b = true → same b c = true → same a c = true
  hash : ∀ {a b}, same a b = true → hashOf a = hashOf b

/-- Lookup keys of another type, which agree with the stored ones. -/
structure Borrows (hashOf : K → H) (same : K → K → Bool) (hashQ : Q → H)
    (equivalent : Q → K → Bool) : Prop where
  hash : ∀ {q k}, equivalent q k = true → hashQ q = hashOf k
  same : ∀ {q k l}, equivalent q k = true → equivalent q l = same k l

/-- A table that keeps the first entry of each key among those seen. -/
def KeepsFirst (T : Table H (K × V)) (hashOf : K → H) (same : K → K → Bool)
    (seen : List (K × V)) (s : T.State) : Prop :=
  ∀ p, p ∈ T.entries s ↔
    p.1 = hashOf p.2.1 ∧ seen.find? (fun e => same p.2.1 e.1) = some p.2

variable {hashOf : K → H} {same : K → K → Bool}

namespace Lawful

theorem same_eq (law : Lawful hashOf same) {a b : K} (h : same a b = true) (c : K) :
    same a c = same b c := by
  rw [Bool.eq_iff_iff]
  exact ⟨law.trans (law.symm h), law.trans h⟩

theorem find_eq (law : Lawful hashOf same) {a b : K} (h : same a b = true)
    (seen : List (K × V)) :
    seen.find? (fun e => same a e.1) = seen.find? (fun e => same b e.1) := by
  congr 1
  exact funext fun e => law.same_eq h e.1

end Lawful

theorem KeepsFirst.empty (T : Table H (K × V)) : KeepsFirst T hashOf same [] T.empty := by
  intro p
  rw [T.entries_empty]
  exact iff_of_false List.not_mem_nil (by simp)

section Filling

variable {T : Table H (K × V)} (law : Lawful hashOf same)
include law

/-- The entry of a key is visited, if the key was seen. -/
theorem KeepsFirst.probed {seen : List (K × V)} {s : T.State}
    (h : KeepsFirst T hashOf same seen s) {k : K} {e : K × V}
    (hfind : seen.find? (fun e => same k e.1) = some e) : e ∈ T.probe (hashOf k) s := by
  have hsame : same k e.1 = true := by simpa using List.find?_some hfind
  rw [law.hash hsame]
  apply T.mem_probe
  rw [h]
  exact ⟨rfl, (law.find_eq hsame seen).symm.trans hfind⟩

/-- What is visited and answers to a key is its entry. -/
theorem KeepsFirst.answers {seen : List (K × V)} {s : T.State}
    (h : KeepsFirst T hashOf same seen s) {k : K} {g : H} {e : K × V}
    (hmem : e ∈ T.probe g s) (hsame : same k e.1 = true) :
    seen.find? (fun e => same k e.1) = some e := by
  obtain ⟨g', hentry⟩ := T.of_mem_probe hmem
  rw [law.find_eq hsame seen]
  exact ((h _).mp hentry).2

theorem KeepsFirst.probe_eq {seen : List (K × V)} {s : T.State}
    (h : KeepsFirst T hashOf same seen s) (k : K) :
    (T.probe (hashOf k) s).find? (fun e => same k e.1) = seen.find? (fun e => same k e.1) := by
  cases hprobe : (T.probe (hashOf k) s).find? (fun e => same k e.1) with
  | some e =>
      have hsame : same k e.1 = true := by simpa using List.find?_some hprobe
      exact (h.answers law (List.mem_of_find?_eq_some hprobe) hsame).symm
  | none =>
      cases hseen : seen.find? (fun e => same k e.1) with
      | none => rfl
      | some e =>
          have hsame : same k e.1 = true := by simpa using List.find?_some hseen
          have hmem := h.probed law hseen
          exact absurd hsame (List.find?_eq_none.mp hprobe e hmem)

/-- An entry is put in where its key was not seen, and is then the first of its key. -/
theorem KeepsFirst.orInsert {seen : List (K × V)} {s : T.State}
    (h : KeepsFirst T hashOf same seen s) (k : K) (v : V) :
    KeepsFirst T hashOf same (seen ++ [(k, v)]) (orInsert T (hashOf k) (same k) k v s) := by
  intro p
  rw [Hashed.orInsert, h.probe_eq law, List.find?_append]
  cases hseen : seen.find? (fun e => same k e.1) with
  | some e =>
      dsimp only
      rw [h]
      cases hp : seen.find? (fun e => same p.2.1 e.1) with
      | some d => simp
      | none =>
          have hne : same p.2.1 k = false := by
            rw [Bool.eq_false_iff]
            intro hsame
            rw [law.find_eq hsame, hseen] at hp
            cases hp
          simp [hne]
  | none =>
      dsimp only
      rw [T.mem_insert, h]
      by_cases hsame : same p.2.1 k = true
      · rw [law.find_eq hsame, hseen]
        obtain ⟨g, l, w⟩ := p
        have hnew : ((g, l, w) = (hashOf k, k, v)) ↔ g = hashOf l ∧ (k, v) = (l, w) := by
          constructor
          · rintro h
            cases h
            exact ⟨rfl, rfl⟩
          · rintro ⟨rfl, hkv⟩
            cases hkv
            rfl
        simpa [hsame] using hnew
      · have hne : p ≠ (hashOf k, k, v) := by
          rintro rfl
          exact hsame (law.refl k)
        simp [hne, hsame]

theorem KeepsFirst.fill {seen : List (K × V)} {s : T.State}
    (h : KeepsFirst T hashOf same seen s) (entries : List (K × V)) :
    KeepsFirst T hashOf same (seen ++ entries) (fill T hashOf same entries s) := by
  induction entries generalizing seen s with
  | nil => rwa [List.append_nil]
  | cons e entries ih =>
      rw [List.append_cons]
      exact ih (h.orInsert law e.1 e.2)

/-- A lookup finds the first entry, in the order of filling, whose key answers. -/
theorem get_fill {hashQ : Q → H} {equivalent : Q → K → Bool}
    (borrow : Borrows hashOf same hashQ equivalent) (entries : List (K × V)) (q : Q) :
    get T (hashQ q) (equivalent q) (fill T hashOf same entries T.empty) =
      (entries.find? fun e => equivalent q e.1).map Prod.snd := by
  have hkeeps : KeepsFirst T hashOf same ([] ++ entries) _ := (KeepsFirst.empty T).fill law entries
  rw [List.nil_append] at hkeeps
  rw [get]
  congr 1
  by_cases hany : ∃ e ∈ entries, equivalent q e.1 = true
  · obtain ⟨e, -, he⟩ := hany
    have hsame : equivalent q = same e.1 := funext fun l => borrow.same he
    rw [borrow.hash he, hsame]
    exact hkeeps.probe_eq law e.1
  · have hnone : ∀ e ∈ entries, ¬ equivalent q e.1 = true := fun e hmem he => hany ⟨e, hmem, he⟩
    rw [List.find?_eq_none.mpr hnone, List.find?_eq_none]
    intro e hprobe
    obtain ⟨g, hentry⟩ := T.of_mem_probe hprobe
    exact hnone e (List.mem_of_find?_eq_some ((hkeeps _).mp hentry).2)

end Filling

end Hashed
