import Mathlib.Algebra.Order.Ring.Int
import Mathlib.Data.List.TakeWhile
import NzRust.Core.Error
import NzRust.Lib.FileTree

/-!
# Paths requested by the appliance

`ExternalFilePolicy::resolve` over a file tree. It mixes three readings of one
path: `lstat` walks it as the kernel does, `parent` and `file_name` cut it
lexically and drop a trailing separator or dot, and `canonicalize` returns the
real path. The last section decides when a path it accepts stays below the root.
-/

namespace NzRust

open FileTree

inductive ExternalFilePolicy where
  | disabled
  | directory (root : Text)
  | unrestricted
  deriving DecidableEq, Repr

/-- A path cut at its separators. -/
def pathOf : Text → Target
  | [] => ⟨false, [[]]⟩
  | c :: cs => if c = '/' then ⟨true, splitAt '/' cs⟩ else ⟨false, splitAt '/' (c :: cs)⟩

/-- The components up to the last one that counts, last one first. -/
def countedReverse (components : List Name) : List Name :=
  components.reverse.dropWhile isSkip

/-- `Path::parent` of an absolute path. -/
def parentOf (components : List Name) : Option (List Name) :=
  match countedReverse components with
  | [] => none
  | _ :: before => some (before.dropWhile isSkip).reverse

def fileName (components : List Name) : Option Name :=
  match countedReverse components with
  | [] => none
  | last :: _ => if isParent last then none else some last

def errorKind : Errno → IoErrorKind
  | .notFound => .notFound
  | .notADirectory => .notADirectory
  | .loop => .filesystemLoop

/-- The machine that resolves paths: its tree, its bound on links and the working directory. -/
structure Host where
  fs : FileSystem
  links : Nat
  cwd : Path

namespace Host

variable (host : Host)

def canonicalize (path : Target) : Except IoErrorKind Path :=
  (walk host.fs ⟨true, false⟩ host.links (if path.absolute then [] else host.cwd)
    path.components).mapError errorKind

/-- The branch for a target that is missing: the canonical parent and the file name. -/
def resolveMissing (candidate : List Name) : Except IoErrorKind Path :=
  match parentOf candidate with
  | none => .error .invalidInput
  | some parent =>
      match host.canonicalize ⟨true, parent⟩ with
      | .error e => .error e
      | .ok dir =>
          match fileName candidate with
          | none => .error .invalidInput
          | some name => .ok (dir ++ [name])

def resolveCandidate (candidate : List Name) : Except IoErrorKind Path :=
  match lstat host.fs host.links candidate with
  | .ok _ => host.canonicalize ⟨true, candidate⟩
  | .error .notFound => host.resolveMissing candidate
  | .error e => .error (errorKind e)

/-- The absolute path that is looked up for a request below the canonical root. -/
def candidateOf (root : Path) (path : Text) : List Name :=
  if (pathOf path).absolute then (pathOf path).components else root ++ (pathOf path).components

def resolve (policy : ExternalFilePolicy) (path : Text) : Except IoErrorKind Target :=
  if path.isEmpty then .error .invalidInput
  else
    match policy with
    | .disabled => .error .permissionDenied
    | .unrestricted => .ok (pathOf path)
    | .directory root =>
        match host.canonicalize (pathOf root) with
        | .error e => .error e
        | .ok root =>
            match host.resolveCandidate (candidateOf root path) with
            | .error e => .error e
            | .ok resolved =>
                if root.isPrefixOf resolved then .ok ⟨true, resolved⟩ else .error .permissionDenied

/-- The nodes that opening or creating a path touches, links followed. -/
def Touches (path : Target) (q : Path) : Prop :=
  ∃ create, walk host.fs ⟨true, create⟩ host.links (if path.absolute then [] else host.cwd)
    path.components = .ok q

/-- Only nodes at or below `root` are touched. -/
def Confined (root : Path) (path : Target) : Prop :=
  ∀ q, host.Touches path q → root <+: q

/-- The path ends in a separator or in a dot. -/
def endsInSkip (candidate : List Name) : Bool :=
  candidate.getLast?.any isSkip

/-- The path ends in `/` or `/.` and is missing, the name before its end is a link in the canonical
parent, and creating through that link touches a node outside the root. -/
def LinkEscapes (root : Path) (path : Text) : Prop :=
  endsInSkip (candidateOf root path) ∧
    lstat host.fs host.links (candidateOf root path) = .error .notFound ∧
    ∃ parent dir name target q,
      parentOf (candidateOf root path) = some parent ∧
      host.canonicalize ⟨true, parent⟩ = .ok dir ∧
      fileName (candidateOf root path) = some name ∧
      host.fs.node (dir ++ [name]) = some (.link target) ∧
      createNode host.fs host.links (dir ++ [name]) = .ok q ∧ ¬ root <+: q

/-! ## What an accepted path touches -/

variable {host}

theorem canonicalize_ok {path : Target} {p : Path} (h : host.canonicalize path = .ok p) :
    walk host.fs ⟨true, false⟩ host.links (if path.absolute then [] else host.cwd)
      path.components = .ok p := by
  unfold canonicalize at h
  cases hw : walk host.fs ⟨true, false⟩ host.links (if path.absolute then [] else host.cwd)
      path.components with
  | error e => rw [hw] at h; cases h
  | ok q =>
      rw [hw] at h
      cases h
      rfl

/-- A canonical path touches itself. -/
theorem touches_landed {p q : Path} (h : Landed host.fs p) (hq : host.Touches ⟨true, p⟩ q) :
    q = p := by
  obtain ⟨create, hwalk⟩ := hq
  have hself : walk host.fs ⟨true, create⟩ host.links [] p = .ok p := h.walk_self host.links
  simp only [if_true] at hwalk
  rw [hself] at hwalk
  cases hwalk
  rfl

/-- An entry of a canonical directory touches itself, unless it is a link. -/
theorem touches_entry {dir q : Path} {name : Name} (hdir : Landed host.fs dir)
    (hname : isNormal name) (hlink : ∀ target, host.fs.node (dir ++ [name]) ≠ some (.link target))
    (hq : host.Touches ⟨true, dir ++ [name]⟩ q) : q = dir ++ [name] := by
  obtain ⟨create, hwalk⟩ := hq
  simp only [if_true] at hwalk
  rcases hdir.node with hd | hf
  · rw [hdir.walk_snoc hd] at hwalk
    by_cases hmissing : host.fs.node (dir ++ [name]) = none ∧ create = false
    · -- opening a missing entry fails
      obtain ⟨hnone, rfl⟩ := hmissing
      exact absurd hwalk (by rw [walk_missing hd hname hnone]; simp)
    · rw [walk_entry hd hname] at hwalk
      · cases hwalk
        rfl
      · cases hnode : host.fs.node (dir ++ [name]) with
        | none => simpa [hnode] using hmissing
        | some node =>
            cases node with
            | directory => rfl
            | file => rfl
            | link target => exact absurd hnode (hlink target)
  · have hself : walk host.fs ⟨true, false⟩ host.links [] dir = .ok dir := hdir.walk_self host.links
    obtain ⟨left, happend⟩ : ∃ left, walk host.fs ⟨true, create⟩ host.links [] (dir ++ [name]) =
        walk host.fs ⟨true, create⟩ left dir [name] := walk_append hself (by simp)
    rw [happend, walk_below_file hf] at hwalk
    cases hwalk

/-- The file name of a path is a name. -/
theorem fileName_normal {candidate : List Name} {name : Name} (h : fileName candidate = some name) :
    isNormal name := by
  unfold fileName at h
  split at h
  · cases h
  case h_2 last before hcounted =>
    split_ifs at h with hparent
    cases h
    have hskip : ¬ isSkip name := by
      have := List.head?_dropWhile_not isSkip candidate.reverse
      rw [show candidate.reverse.dropWhile isSkip = _ from hcounted] at this
      simpa using this
    simp [isNormal, hskip, hparent]

/-- Without a trailing skip the path is its parent, components that skip, and its file name. -/
theorem candidate_split {candidate parent : List Name} {name : Name}
    (hend : endsInSkip candidate = false) (hparent : parentOf candidate = some parent)
    (hname : fileName candidate = some name) :
    ∃ skips, (∀ s ∈ skips, isSkip s) ∧ candidate = parent ++ (skips ++ [name]) := by
  have hcounted : countedReverse candidate = candidate.reverse := by
    unfold countedReverse
    cases hrev : candidate.reverse with
    | nil => rfl
    | cons s before =>
        have hlast : candidate.getLast? = some s := by
          rw [← List.head?_reverse, hrev]
          rfl
        rw [endsInSkip, hlast] at hend
        rw [List.dropWhile_cons, if_neg (by simpa using hend)]
  unfold parentOf at hparent
  unfold fileName at hname
  rw [hcounted] at hparent hname
  cases hrev : candidate.reverse with
  | nil => rw [hrev] at hparent; cases hparent
  | cons s before =>
      rw [hrev] at hparent hname
      cases hparent
      simp only at hname
      split_ifs at hname with hp
      cases hname
      refine ⟨(before.takeWhile isSkip).reverse, ?_, ?_⟩
      · intro t ht
        exact List.mem_takeWhile_imp (List.mem_reverse.mp ht)
      · have hcand : candidate = (name :: before).reverse := by rw [← hrev, List.reverse_reverse]
        have hbefore := List.takeWhile_append_dropWhile (p := isSkip) (l := before)
        rw [hcand, List.reverse_cons, ← List.append_assoc, ← List.reverse_append, hbefore]

/-- A missing path that does not end in a skip names no link of its canonical parent. -/
theorem no_link_of_missing {candidate parent : List Name} {dir : Path} {name : Name}
    (hend : endsInSkip candidate = false) (hparent : parentOf candidate = some parent)
    (hname : fileName candidate = some name)
    (hdir : walk host.fs ⟨true, false⟩ host.links [] parent = .ok dir)
    (hmissing : lstat host.fs host.links candidate = .error .notFound) (target : Target) :
    host.fs.node (dir ++ [name]) ≠ some (.link target) := by
  intro hlink
  obtain ⟨skips, hskips, rfl⟩ := candidate_split hend hparent hname
  have hd : host.fs.node dir = some .directory := host.fs.parent dir name (by simp [hlink])
  obtain ⟨left, happend⟩ : ∃ left,
      walk host.fs ⟨false, false⟩ host.links [] (parent ++ (skips ++ [name])) =
        walk host.fs ⟨false, false⟩ left dir (skips ++ [name]) := walk_append hdir (by simp)
  rw [lstat, happend, walk_skips hd hskips, walk_entry hd (fileName_normal hname)] at hmissing
  · cases hmissing
  · simp [hlink]

/-- The branch for a missing path: an entry of the canonical parent. -/
theorem resolveMissing_ok {candidate : List Name} {p : Path}
    (h : host.resolveMissing candidate = .ok p) :
    ∃ parent dir name, parentOf candidate = some parent ∧
      host.canonicalize ⟨true, parent⟩ = .ok dir ∧ fileName candidate = some name ∧
      p = dir ++ [name] := by
  unfold resolveMissing at h
  split at h
  · cases h
  case h_2 parent hparent =>
    split at h
    · cases h
    case h_2 dir hdir =>
      split at h
      · cases h
      case h_2 name hname =>
        cases h
        exact ⟨parent, dir, name, hparent, hdir, hname, rfl⟩

/-- The two branches of a lookup. -/
theorem resolveCandidate_ok {candidate : List Name} {p : Path}
    (h : host.resolveCandidate candidate = .ok p) :
    Landed host.fs p ∨
      (lstat host.fs host.links candidate = .error .notFound ∧
        host.resolveMissing candidate = .ok p) := by
  unfold resolveCandidate at h
  split at h
  · exact .inl (walk_landed .root (canonicalize_ok h))
  case h_2 hmissing => exact .inr ⟨hmissing, h⟩
  · cases h

/-- A path that the policy accepts stays below the root exactly when it is not a dangling link,
left to be followed by a trailing `/` or `/.`, whose target lies outside. -/
theorem confined_iff_no_link_escapes (host : Host) (root path : Text) (real : Path)
    (resolved : Target) (hroot : host.canonicalize (pathOf root) = .ok real)
    (h : host.resolve (.directory root) path = .ok resolved) :
    host.Confined real resolved ↔ ¬ host.LinkEscapes real path := by
  unfold resolve at h
  split_ifs at h with hempty
  simp only [hroot] at h
  cases hcand : host.resolveCandidate (candidateOf real path) with
  | error e => rw [hcand] at h; cases h
  | ok p =>
      simp only [hcand] at h
      split_ifs at h with hpre
      cases h
      have hbelow : real <+: p := List.isPrefixOf_iff_prefix.mp hpre
      constructor
      · intro hconf ⟨_, hmissing, parent, dir, name, target, q, hparent, hdir, hname, _, hq, hout⟩
        have hp : p = dir ++ [name] := by
          simp only [resolveCandidate, hmissing, resolveMissing, hparent, hdir, hname] at hcand
          cases hcand
          rfl
        subst hp
        exact hout (hconf q ⟨true, hq⟩)
      · intro hno q hq
        rcases resolveCandidate_ok hcand with hland | ⟨hmissing, hentry⟩
        · rw [touches_landed hland hq]
          exact hbelow
        · obtain ⟨parent, dir, name, hparent, hdir, hname, rfl⟩ := resolveMissing_ok hentry
          have hwalk := canonicalize_ok hdir
          by_cases hlink : ∃ target, host.fs.node (dir ++ [name]) = some (.link target)
          · obtain ⟨target, htarget⟩ := hlink
            by_contra hout
            refine hno ⟨?_, hmissing, parent, dir, name, target, q, hparent, hdir, hname, htarget,
              ?_, hout⟩
            · by_contra hend
              exact no_link_of_missing (by simpa using hend) hparent hname hwalk hmissing target
                htarget
            · obtain ⟨create, hreach⟩ := hq
              cases create with
              | true => exact hreach
              | false => exact walk_create hreach
          · rw [touches_entry (walk_landed .root hwalk) (fileName_normal hname)
              (fun target ht => hlink ⟨target, ht⟩) hq]
            exact hbelow

/-- A tree with a directory `r` that holds a link `l` to a missing entry of the root. -/
def danglingTree : FileSystem where
  node p :=
    if p = [] ∨ p = [['r']] then some .directory
    else if p = [['r'], ['l']] then some (.link ⟨true, [['o']]⟩)
    else none
  root := by decide
  parent := by
    intro p n h
    by_cases hp : p = [] ∨ p = [['r']]
    · rw [if_pos hp]
    · exfalso
      apply h
      have h₁ : ¬ (p ++ [n] = [] ∨ p ++ [n] = [['r']]) := by
        rintro (heq | heq)
        · simp at heq
        · exact hp (.inl (by cases p <;> simp_all))
      have h₂ : ¬ p ++ [n] = [['r'], ['l']] := by
        intro heq
        have hsplit : p ++ [n] = [['r']] ++ [['l']] := heq
        exact hp (.inr (List.append_inj' hsplit rfl).1)
      rw [if_neg h₁, if_neg h₂]

def danglingHost : Host := ⟨danglingTree, 40, []⟩

/-- A new file below the root stays there. -/
theorem new_file_confined :
    danglingHost.Confined [['r']] ⟨true, [['r'], ['n']]⟩ :=
  (confined_iff_no_link_escapes danglingHost "/r".toList "n".toList [['r']] _ (by decide)
    (by decide)).mpr fun h => absurd h.1 (by decide)

/-- The dangling link is refused as `l` and accepted as `l/`, and then created outside the root. -/
theorem dangling_link_escapes :
    ¬ ∀ (host : Host) (root path : Text) (real : Path) (resolved : Target),
      host.canonicalize (pathOf root) = .ok real →
      host.resolve (.directory root) path = .ok resolved → host.Confined real resolved := by
  intro h
  have hconf := h danglingHost "/r".toList "l/".toList [['r']] ⟨true, [['r'], ['l']]⟩ (by decide)
    (by decide)
  have hout := hconf [['o']] ⟨true, by decide⟩
  exact absurd hout (by decide)

end Host

end NzRust
