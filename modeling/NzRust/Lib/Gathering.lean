import Mathlib.Data.List.Basic

/-!
# Gathering rows by key

One pass over rows that gathers them into a map, by a key that each row brings or
does not bring. What the map holds at a key is what a pass over the rows of that
key alone would have built, whatever rows stand between them.
-/

namespace Gathering

variable {K S R ε : Type} [DecidableEq K]

/-- `HashMap::get` on the entries of a map. -/
def get (k : K) : List (K × S) → Option S
  | [] => none
  | e :: m => if e.1 = k then some e.2 else get k m

/-- `HashMap::insert`. -/
def put (k : K) (s : S) : List (K × S) → List (K × S)
  | [] => [(k, s)]
  | e :: m => if e.1 = k then (k, s) :: m else e :: put k s m

/-- The pass. `visit` finds the key of a row, if it has one; `step` takes the row into what the map
holds there. -/
def gather (visit : R → Except ε (Option K)) (step : Option S → R → Except ε S) :
    List R → List (K × S) → Except ε (List (K × S))
  | [], m => .ok m
  | r :: rows, m =>
      match visit r with
      | .error e => .error e
      | .ok none => gather visit step rows m
      | .ok (some k) =>
          match step (get k m) r with
          | .error e => .error e
          | .ok s => gather visit step rows (put k s m)

/-! ## Maps -/

theorem get_put (k k' : K) (s : S) (m : List (K × S)) :
    get k (put k' s m) = if k' = k then some s else get k m := by
  induction m with
  | nil => rfl
  | cons e m ih =>
      rw [put]
      split
      next he =>
        rw [get, get, he]
        split <;> rfl
      next he =>
        rw [get, ih, get]
        by_cases hk : k' = k
        · rw [if_pos hk, if_neg (hk ▸ he), if_pos hk]
        · rw [if_neg hk, if_neg hk]

theorem map_fst_put (k : K) (s : S) (m : List (K × S)) :
    (put k s m).map Prod.fst =
      if k ∈ m.map Prod.fst then m.map Prod.fst else m.map Prod.fst ++ [k] := by
  induction m with
  | nil => rfl
  | cons e m ih =>
      rw [put]
      split
      next he =>
        rw [if_pos (by simp [he])]
        simp [he]
      next he =>
        rw [List.map_cons, ih, List.map_cons]
        by_cases hk : k ∈ m.map Prod.fst
        · rw [if_pos hk, if_pos (List.mem_cons_of_mem _ hk)]
        · rw [if_neg hk, if_neg (by simp_all [eq_comm]), List.cons_append]

theorem mem_keys_put {k k' : K} {s : S} {m : List (K × S)} :
    k ∈ (put k' s m).map Prod.fst ↔ k = k' ∨ k ∈ m.map Prod.fst := by
  rw [map_fst_put]
  split
  next hmem =>
    constructor
    · exact .inr
    · rintro (rfl | h)
      · exact hmem
      · exact h
  next => rw [List.mem_append, List.mem_singleton, or_comm]

theorem nodup_put {k : K} {s : S} {m : List (K × S)} (h : (m.map Prod.fst).Nodup) :
    ((put k s m).map Prod.fst).Nodup := by
  rw [map_fst_put]
  split
  · exact h
  next hnot =>
    refine List.nodup_append.mpr ⟨h, List.pairwise_singleton _ k, ?_⟩
    intro a ha b hb hab
    rw [List.mem_singleton.mp hb] at hab
    exact hnot (hab ▸ ha)

/-! ## The pass -/

section Pass

variable {visit : R → Except ε (Option K)} {step : Option S → R → Except ε S} {key : R → Option K}

/-- What the map holds at a key, from the rows of that key alone. -/
theorem gather_get {rows : List R} {m m' : List (K × S)}
    (hvisit : ∀ r ∈ rows, visit r = .ok (key r)) (h : gather visit step rows m = .ok m') (k : K) :
    (rows.filter fun r => key r = some k).foldlM (fun s r => (step s r).map some) (get k m) =
      .ok (get k m') := by
  induction rows generalizing m with
  | nil =>
      cases h
      rfl
  | cons r rows ih =>
      have hrest : ∀ r ∈ rows, visit r = .ok (key r) :=
        fun x hx => hvisit x (List.mem_cons_of_mem _ hx)
      rw [gather, hvisit r List.mem_cons_self] at h
      cases hkey : key r with
      | none =>
          rw [hkey] at h
          rw [List.filter_cons_of_neg (by simp [hkey])]
          exact ih hrest h
      | some k' =>
          rw [hkey] at h
          simp only at h
          cases hstep : step (get k' m) r with
          | error e =>
              rw [hstep] at h
              cases h
          | ok s =>
              rw [hstep] at h
              have htail := ih hrest h
              by_cases hk : k' = k
              · subst hk
                rw [get_put, if_pos rfl] at htail
                rw [List.filter_cons_of_pos (by simp [hkey]), List.foldlM_cons, hstep]
                exact htail
              · rw [get_put, if_neg hk] at htail
                rw [List.filter_cons_of_neg (by simp [hkey, hk])]
                exact htail

/-- The same pass over what the rows were made of. -/
theorem gather_map {Q : Type} (f : Q → R) (rows : List Q) (m : List (K × S)) :
    gather visit step (rows.map f) m =
      gather (fun q => visit (f q)) (fun s q => step s (f q)) rows m := by
  induction rows generalizing m with
  | nil => rfl
  | cons q rows ih =>
      rw [List.map_cons, gather, gather]
      split
      · rfl
      · exact ih m
      · split
        · rfl
        · exact ih _

/-- The keys of the map are those that a row has brought, each of them once. -/
theorem gather_keys {rows : List R} {m m' : List (K × S)}
    (hvisit : ∀ r ∈ rows, visit r = .ok (key r)) (h : gather visit step rows m = .ok m') :
    (∀ k, k ∈ m'.map Prod.fst ↔ k ∈ m.map Prod.fst ∨ ∃ r ∈ rows, key r = some k) ∧
      ((m.map Prod.fst).Nodup → (m'.map Prod.fst).Nodup) := by
  induction rows generalizing m with
  | nil =>
      cases h
      exact ⟨fun k => by simp, id⟩
  | cons r rows ih =>
      have hrest : ∀ r ∈ rows, visit r = .ok (key r) :=
        fun x hx => hvisit x (List.mem_cons_of_mem _ hx)
      rw [gather, hvisit r List.mem_cons_self] at h
      cases hkey : key r with
      | none =>
          rw [hkey] at h
          obtain ⟨hkeys, hnodup⟩ := ih hrest h
          refine ⟨fun k => ?_, hnodup⟩
          rw [hkeys k]
          simp [hkey]
      | some k' =>
          rw [hkey] at h
          simp only at h
          split at h
          · cases h
          · obtain ⟨hkeys, hnodup⟩ := ih hrest h
            refine ⟨fun k => ?_, fun hm => hnodup (nodup_put hm)⟩
            rw [hkeys k, mem_keys_put]
            simp only [List.mem_cons, exists_eq_or_imp, hkey, Option.some.injEq]
            tauto

end Pass

/-! ## Lists at the keys -/

/-- Where a missing entry counts as empty the pass is a fold from the empty list. -/
theorem foldlM_getD {f : List S → R → Except ε (List S)} {rows : List R} {s s' : Option (List S)}
    (h : rows.foldlM (fun s r => (f (s.getD []) r).map some) s = .ok s') :
    rows.foldlM f (s.getD []) = .ok (s'.getD []) := by
  induction rows generalizing s with
  | nil =>
      cases h
      rfl
  | cons r rows ih =>
      rw [List.foldlM_cons] at h ⊢
      cases hf : f (s.getD []) r with
      | error e =>
          rw [hf] at h
          cases h
      | ok t =>
          rw [hf] at h
          exact ih h

/-- A fold that pushes what it decodes is a map. -/
theorem mapM_of_foldlM {g : R → Except ε S} {rows : List R} {front all : List S}
    (h : rows.foldlM (fun s r => (g r).map fun c => s ++ [c]) front = .ok all) :
    ∃ cs, rows.mapM g = .ok cs ∧ all = front ++ cs := by
  induction rows generalizing front with
  | nil =>
      cases h
      exact ⟨[], rfl, (List.append_nil _).symm⟩
  | cons r rows ih =>
      rw [List.foldlM_cons] at h
      cases hg : g r with
      | error e =>
          rw [hg] at h
          cases h
      | ok c =>
          rw [hg] at h
          obtain ⟨cs, hcs, rfl⟩ := ih h
          refine ⟨c :: cs, ?_, by rw [List.append_assoc, List.singleton_append]⟩
          rw [List.mapM_cons, hg]
          show (rows.mapM g >>= fun cs => pure (c :: cs)) = _
          rw [hcs]
          rfl

/-! ## The first of a key -/

/-- Where an entry that is there stays as it is, the first row decides. -/
theorem foldlM_first {f : R → S} {step : Option S → R → Except ε S} {rows : List R}
    (hstep : ∀ r ∈ rows, ∀ s, step s r = .ok (s.getD (f r))) (s : Option S) :
    rows.foldlM (fun s r => (step s r).map some) s = .ok (s.or (rows.head?.map f)) := by
  induction rows generalizing s with
  | nil => exact congrArg _ (Option.or_none).symm
  | cons r rows ih =>
      rw [List.foldlM_cons, hstep r List.mem_cons_self]
      refine (ih (fun r hr => hstep r (List.mem_cons_of_mem _ hr)) _).trans ?_
      cases s <;> rfl

/-- It does not matter in which order rows are searched of which all hits are alike. -/
theorem findSome?_congr {A B : Type} {f : A → Option B} {l l' : List A}
    (hmem : ∀ a, f a ≠ none → (a ∈ l ↔ a ∈ l'))
    (honce : ∀ a ∈ l, ∀ b ∈ l', f a ≠ none → f b ≠ none → f a = f b) :
    l.findSome? f = l'.findSome? f := by
  cases hl : l.findSome? f with
  | none =>
      symm
      rw [List.findSome?_eq_none_iff] at hl ⊢
      intro a ha
      by_contra hf
      exact hf (hl a ((hmem a hf).mpr ha))
  | some b =>
      obtain ⟨a, ha, hb⟩ := List.exists_of_findSome?_eq_some hl
      have hf : f a ≠ none := by rw [hb]; exact Option.some_ne_none b
      cases hl' : l'.findSome? f with
      | none =>
          rw [List.findSome?_eq_none_iff] at hl'
          exact absurd (hl' a ((hmem a hf).mp ha)) hf
      | some b' =>
          obtain ⟨a', ha', hb'⟩ := List.exists_of_findSome?_eq_some hl'
          have hf' : f a' ≠ none := by rw [hb']; exact Option.some_ne_none b'
          rw [← hb, ← hb', honce a ha a' ha' hf hf']

end Gathering
