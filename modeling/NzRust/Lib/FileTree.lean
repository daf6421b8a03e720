import Mathlib.Algebra.Order.Ring.Int
import Mathlib.Data.List.Induction

/-!
# Path resolution in a tree of directories, files and symbolic links

A file system is a partial map from real paths, lists of names from the root.
`walk` follows a path the way the kernel does: one component at a time, with a
budget for the links on the way. Whether the last component is followed, and
whether it may be missing, are parameters.
-/

namespace FileTree

/-- One component of a path, as it stands between two separators. -/
abbrev Name := List Char

/-- A real path: the names from the root, free of links and of `.` and `..`. -/
abbrev Path := List Name

/-- The text of a link, absolute or relative, cut at its separators. -/
structure Target where
  absolute : Bool
  components : List Name
  deriving DecidableEq, Repr

inductive Node where
  | directory
  | file
  | link (target : Target)
  deriving DecidableEq, Repr

inductive Errno where
  | notFound
  | notADirectory
  | loop
  deriving DecidableEq, Repr

/-- A tree: the root is a directory, and so is the parent of every node. -/
structure FileSystem where
  node : Path → Option Node
  root : node [] = some .directory
  parent : ∀ p n, node (p ++ [n]) ≠ none → node p = some .directory

/-- Components that stay in the same directory: `.` and the empty one between two separators. -/
def isSkip (s : Name) : Bool :=
  s.isEmpty || s == ['.']

def isParent (s : Name) : Bool :=
  s == ['.', '.']

/-- A component that names an entry of a directory. -/
def isNormal (s : Name) : Bool :=
  !isSkip s && !isParent s

/-- What to do at the last component: follow a link there, and take a missing entry for one that
is about to be created. -/
structure Mode where
  follow : Bool
  create : Bool

variable (fs : FileSystem) (mode : Mode)

/-- Walks the components from a directory; `jump` goes on behind a link. -/
def walkFrom (jump : Path → List Name → Except Errno Path) :
    Path → List Name → Except Errno Path
  | current, [] => .ok current
  | current, s :: rest =>
      if fs.node current ≠ some .directory then .error .notADirectory
      else if isSkip s then walkFrom jump current rest
      else if isParent s then walkFrom jump current.dropLast rest
      else
        match fs.node (current ++ [s]) with
        | none =>
            if mode.create ∧ rest = [] then .ok (current ++ [s]) else .error .notFound
        | some (.link target) =>
            if rest = [] ∧ ¬ mode.follow then .ok (current ++ [s])
            else jump (if target.absolute then [] else current) (target.components ++ rest)
        | some .directory | some .file => walkFrom jump (current ++ [s]) rest

/-- Walks the components with at most `links` links. -/
def walk : Nat → Path → List Name → Except Errno Path
  | 0 => walkFrom fs mode fun _ _ => .error .loop
  | links + 1 => walkFrom fs mode (walk links)

/-- `lstat`: the last link is not followed. -/
def lstat (links : Nat) (components : List Name) : Except Errno Path :=
  walk fs ⟨false, false⟩ links [] components

/-- `realpath`: every link is followed. -/
def realpath (links : Nat) (components : List Name) : Except Errno Path :=
  walk fs ⟨true, false⟩ links [] components

/-- The node that opening a path for writing reaches or creates. -/
def createNode (links : Nat) (components : List Name) : Except Errno Path :=
  walk fs ⟨true, true⟩ links [] components

variable {fs mode}

/-! ## Laws of a walk -/

/-- What holds of the real paths on the way: their names are normal, and they lead to a directory
or a file. -/
structure Landed (fs : FileSystem) (p : Path) : Prop where
  normal : ∀ s ∈ p, isNormal s
  node : fs.node p = some .directory ∨ fs.node p = some .file

theorem Landed.root : Landed fs [] :=
  ⟨by simp, .inl fs.root⟩

theorem Landed.dropLast {p : Path} (h : Landed fs p) : Landed fs p.dropLast := by
  refine ⟨fun s hs => h.normal s ((List.dropLast_sublist p).mem hs), ?_⟩
  rcases List.eq_nil_or_concat p with rfl | ⟨q, n, rfl⟩
  · exact h.node
  · rw [List.concat_eq_append] at h ⊢
    rw [List.dropLast_concat]
    refine .inl (fs.parent q n ?_)
    rcases h.node with hn | hn <;> simp [hn]

theorem Landed.snoc {p : Path} {s : Name} (h : Landed fs p) (hs : isNormal s)
    (hnode : fs.node (p ++ [s]) = some .directory ∨ fs.node (p ++ [s]) = some .file) :
    Landed fs (p ++ [s]) := by
  refine ⟨?_, hnode⟩
  intro t ht
  rcases List.mem_append.mp ht with hmem | hmem
  · exact h.normal t hmem
  · rw [List.mem_singleton.mp hmem]
    exact hs

private theorem isNormal_of_not {s : Name} (hskip : ¬ isSkip s) (hparent : ¬ isParent s) :
    isNormal s := by
  simp [isNormal, hskip, hparent]

private theorem walkFrom_landed {jump : Path → List Name → Except Errno Path}
    (hjump : ∀ c r p, Landed fs c → jump c r = .ok p → Landed fs p) (current : Path)
    (components : List Name) :
    ∀ p, Landed fs current →
      walkFrom fs ⟨true, false⟩ jump current components = .ok p → Landed fs p := by
  fun_induction walkFrom fs ⟨true, false⟩ jump current components with
  | case1 current =>
      intro p hc h
      cases h
      exact hc
  | case2 => intro p hc h; cases h
  | case3 current s rest hdir hskip ih => exact ih
  | case4 current s rest hdir hskip hparent ih => exact fun p hc h => ih p hc.dropLast h
  | case5 current s rest hdir hskip hparent hnode hcreate => cases hcreate.1
  | case6 => intro p hc h; cases h
  | case7 current s rest hdir hskip hparent target hnode hlast => exact absurd rfl hlast.2
  | case8 current s rest hdir hskip hparent target hnode hlast =>
      intro p hc h
      refine hjump _ _ p ?_ h
      split
      · exact .root
      · exact hc
  | case9 current s rest hdir hskip hparent hnode ih =>
      exact fun p hc h => ih p (hc.snoc (isNormal_of_not hskip hparent) (.inl hnode)) h
  | case10 current s rest hdir hskip hparent hnode ih =>
      exact fun p hc h => ih p (hc.snoc (isNormal_of_not hskip hparent) (.inr hnode)) h

theorem walk_landed {links : Nat} {current p : Path} {components : List Name}
    (hc : Landed fs current) (h : walk fs ⟨true, false⟩ links current components = .ok p) :
    Landed fs p := by
  induction links generalizing current p components with
  | zero => exact walkFrom_landed (fun c r p _ hj => by cases hj) current components p hc h
  | succ links ih => exact walkFrom_landed (fun c r p hc hj => ih hc hj) current components p hc h

private theorem walkFrom_append {jump jump' : Path → List Name → Except Errno Path}
    {rest : List Name} (hrest : rest ≠ [])
    (hend : ∀ c, ∃ left, walkFrom fs mode jump' c rest = walk fs mode left c rest)
    (hjump : ∀ c r p, jump c r = .ok p →
      ∃ left, jump' c (r ++ rest) = walk fs mode left p rest) (current : Path)
    (components : List Name) :
    ∀ p, walkFrom fs ⟨true, false⟩ jump current components = .ok p →
      ∃ left, walkFrom fs mode jump' current (components ++ rest) = walk fs mode left p rest := by
  have hmore : ∀ r : List Name, r ++ rest ≠ [] := by simp [hrest]
  fun_induction walkFrom fs ⟨true, false⟩ jump current components with
  | case1 current =>
      intro p h
      cases h
      exact hend current
  | case2 => intro p h; cases h
  | case3 current s cs hdir hskip ih =>
      intro p h
      rw [List.cons_append, walkFrom, if_neg hdir, if_pos hskip]
      exact ih p h
  | case4 current s cs hdir hskip hparent ih =>
      intro p h
      rw [List.cons_append, walkFrom, if_neg hdir, if_neg hskip, if_pos hparent]
      exact ih p h
  | case5 current s cs hdir hskip hparent hnode hcreate => cases hcreate.1
  | case6 => intro p h; cases h
  | case7 current s cs hdir hskip hparent target hnode hlast => exact absurd rfl hlast.2
  | case8 current s cs hdir hskip hparent target hnode hlast =>
      intro p h
      have hnext := hjump _ _ p h
      rw [List.cons_append, walkFrom, if_neg hdir, if_neg hskip, if_neg hparent, hnode]
      simp only [hmore, false_and, if_false]
      rwa [List.append_assoc] at hnext
  | case9 current s cs hdir hskip hparent hnode ih =>
      intro p h
      rw [List.cons_append, walkFrom, if_neg hdir, if_neg hskip, if_neg hparent, hnode]
      exact ih p h
  | case10 current s cs hdir hskip hparent hnode ih =>
      intro p h
      rw [List.cons_append, walkFrom, if_neg hdir, if_neg hskip, if_neg hparent, hnode]
      exact ih p h

/-- A walk over a path with something behind it is the walk of what is behind from where the path
leads, with the links that are left. -/
theorem walk_append {links : Nat} {current p : Path} {components rest : List Name}
    (h : walk fs ⟨true, false⟩ links current components = .ok p) (hrest : rest ≠ []) :
    ∃ left, walk fs mode links current (components ++ rest) = walk fs mode left p rest := by
  induction links generalizing current p components with
  | zero =>
      exact walkFrom_append hrest (fun c => ⟨0, rfl⟩) (fun c r p hj => by cases hj) current
        components p h
  | succ links ih =>
      exact walkFrom_append hrest (fun c => ⟨links + 1, rfl⟩) (fun c r p hj => ih hj) current
        components p h

/-- A walk along directories reads no link. -/
theorem walk_directories {links : Nat} {current : Path} {names rest : List Name}
    (hnormal : ∀ s ∈ names, isNormal s)
    (hdirs : ∀ q, q <+: names → fs.node (current ++ q) = some .directory) :
    walk fs mode links current (names ++ rest) = walk fs mode links (current ++ names) rest := by
  induction names generalizing current with
  | nil => simp
  | cons s names ih =>
      have hhere : fs.node current = some .directory := by
        simpa using hdirs [] (List.nil_prefix)
      have hs := hnormal s List.mem_cons_self
      simp only [isNormal, Bool.and_eq_true, Bool.not_eq_true'] at hs
      have hnext : fs.node (current ++ [s]) = some .directory :=
        hdirs [s] (by simp)
      have hstep : walk fs mode links current (s :: names ++ rest) =
          walk fs mode links (current ++ [s]) (names ++ rest) := by
        cases links <;>
          rw [walk, List.cons_append, walkFrom, if_neg (by simp [hhere]), if_neg (by simp [hs.1]),
            if_neg (by simp [hs.2]), hnext]
      rw [hstep, ih (fun t ht => hnormal t (List.mem_cons_of_mem _ ht)), List.append_assoc,
        List.singleton_append]
      intro q hq
      have := hdirs (s :: q) (by simpa using hq)
      simpa using this

/-- The proper ancestors of a real path are directories. -/
theorem Landed.ancestors {p : Path} (h : Landed fs p) {q : Path} (hq : q <+: p) (hne : q ≠ p) :
    fs.node q = some .directory := by
  induction p using List.reverseRecOn with
  | nil => exact absurd (List.prefix_nil.mp hq) hne
  | append_singleton p n ih =>
      have hp : fs.node p = some .directory := by
        refine fs.parent p n ?_
        rcases h.node with hn | hn <;> simp [hn]
      rcases List.prefix_concat_iff.mp hq with heq | hpre
      · exact absurd heq hne
      · by_cases heq : q = p
        · rw [heq]
          exact hp
        · refine ih ⟨fun s hs => h.normal s (List.mem_append_left _ hs), .inl hp⟩ hpre heq

/-- The entry of a directory: itself when it is a directory or a file, or when it is a link that
is not followed, or when it is missing and about to be created. -/
theorem walk_entry {links : Nat} {current : Path} {s : Name}
    (hdir : fs.node current = some .directory) (hs : isNormal s)
    (hentry : match fs.node (current ++ [s]) with
      | none => mode.create
      | some (.link _) => !mode.follow
      | some .directory | some .file => true) :
    walk fs mode links current [s] = .ok (current ++ [s]) := by
  simp only [isNormal, Bool.and_eq_true, Bool.not_eq_true'] at hs
  have hstep : ∀ jump, walkFrom fs mode jump current [s] = .ok (current ++ [s]) := by
    intro jump
    rw [walkFrom, if_neg (by simp [hdir]), if_neg (by simp [hs.1]), if_neg (by simp [hs.2])]
    cases hnode : fs.node (current ++ [s]) with
    | none =>
        rw [hnode] at hentry
        exact if_pos ⟨hentry, rfl⟩
    | some node =>
        rw [hnode] at hentry
        cases node with
        | directory => rfl
        | file => rfl
        | link target => exact if_pos ⟨rfl, by simpa using hentry⟩
  cases links <;> exact hstep _

theorem walk_missing {links : Nat} {current : Path} {s : Name} {follow : Bool}
    (hdir : fs.node current = some .directory) (hs : isNormal s)
    (hnone : fs.node (current ++ [s]) = none) :
    walk fs ⟨follow, false⟩ links current [s] = .error .notFound := by
  simp only [isNormal, Bool.and_eq_true, Bool.not_eq_true'] at hs
  cases links <;>
    · rw [walk, walkFrom, if_neg (by simp [hdir]), if_neg (by simp [hs.1]),
        if_neg (by simp [hs.2]), hnone]
      simp

/-- Below a directory a real path is walked name by name. -/
theorem Landed.walk_snoc {p : Path} (h : Landed fs p) (hdir : fs.node p = some .directory)
    (links : Nat) (rest : List Name) :
    walk fs mode links [] (p ++ rest) = walk fs mode links p rest := by
  have hdirs : ∀ q, q <+: p → fs.node ([] ++ q) = some .directory := by
    intro q hq
    by_cases heq : q = p
    · rw [heq]
      exact hdir
    · exact h.ancestors hq heq
  rw [walk_directories h.normal hdirs, List.nil_append]

/-- A real path leads to itself. -/
theorem Landed.walk_self {p : Path} (h : Landed fs p) (links : Nat) :
    walk fs mode links [] p = .ok p := by
  rcases List.eq_nil_or_concat p with rfl | ⟨q, n, rfl⟩
  · cases links <;> rfl
  · rw [List.concat_eq_append] at *
    have hq : fs.node q = some .directory :=
      h.ancestors (List.prefix_append q [n]) (by simp)
    have hlanded : Landed fs q := by
      have := h.dropLast
      rwa [List.dropLast_concat] at this
    rw [hlanded.walk_snoc hq]
    refine walk_entry hq (h.normal n (by simp)) ?_
    rcases h.node with hn | hn <;> simp [hn]

/-- Components that stay in a directory change nothing before an entry of it. -/
theorem walk_skips {links : Nat} {current : Path} {skips rest : List Name}
    (hdir : fs.node current = some .directory) (hskips : ∀ s ∈ skips, isSkip s) :
    walk fs mode links current (skips ++ rest) = walk fs mode links current rest := by
  induction skips with
  | nil => rfl
  | cons s skips ih =>
      have hs := hskips s List.mem_cons_self
      rw [← ih fun t ht => hskips t (List.mem_cons_of_mem _ ht)]
      cases links <;> rw [walk, List.cons_append, walkFrom, if_neg (by simp [hdir]), if_pos hs]

private theorem walkFrom_create {jump jump' : Path → List Name → Except Errno Path}
    (hjump : ∀ c r p, jump c r = .ok p → jump' c r = .ok p) (current : Path)
    (components : List Name) :
    ∀ p, walkFrom fs ⟨true, false⟩ jump current components = .ok p →
      walkFrom fs ⟨true, true⟩ jump' current components = .ok p := by
  fun_induction walkFrom fs ⟨true, false⟩ jump current components with
  | case1 current => exact fun p h => h
  | case2 => intro p h; cases h
  | case3 current s cs hdir hskip ih =>
      intro p h
      rw [walkFrom, if_neg hdir, if_pos hskip]
      exact ih p h
  | case4 current s cs hdir hskip hparent ih =>
      intro p h
      rw [walkFrom, if_neg hdir, if_neg hskip, if_pos hparent]
      exact ih p h
  | case5 current s cs hdir hskip hparent hnode hcreate => cases hcreate.1
  | case6 => intro p h; cases h
  | case7 current s cs hdir hskip hparent target hnode hlast => exact absurd rfl hlast.2
  | case8 current s cs hdir hskip hparent target hnode hlast =>
      intro p h
      rw [walkFrom, if_neg hdir, if_neg hskip, if_neg hparent, hnode]
      simp only [not_true_eq_false, and_false, if_false]
      exact hjump _ _ p h
  | case9 current s cs hdir hskip hparent hnode ih =>
      intro p h
      rw [walkFrom, if_neg hdir, if_neg hskip, if_neg hparent, hnode]
      exact ih p h
  | case10 current s cs hdir hskip hparent hnode ih =>
      intro p h
      rw [walkFrom, if_neg hdir, if_neg hskip, if_neg hparent, hnode]
      exact ih p h

/-- Creating reaches what opening reaches. -/
theorem walk_create {links : Nat} {current p : Path} {components : List Name}
    (h : walk fs ⟨true, false⟩ links current components = .ok p) :
    walk fs ⟨true, true⟩ links current components = .ok p := by
  induction links generalizing current p components with
  | zero => exact walkFrom_create (fun c r p hj => by cases hj) current components p h
  | succ links ih => exact walkFrom_create (fun c r p hj => ih hj) current components p h

/-- Below a file there is nothing. -/
theorem walk_below_file {links : Nat} {current : Path} {s : Name} {rest : List Name}
    (hfile : fs.node current = some .file) :
    walk fs mode links current (s :: rest) = .error .notADirectory := by
  cases links <;> rw [walk, walkFrom, if_pos (by simp [hfile])]

end FileTree
