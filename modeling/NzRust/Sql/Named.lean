import NzRust.Sql.Substitution

/-!
# Named binding

The pieces of a text under named parameters, what each of them becomes, and
which elements of the parameter list are rendered.
-/

namespace NzRust.Sql

variable {N : Numerics}

/-- A piece of a text as named binding reads it. -/
inductive NamedPiece where
  | region (r : Region) (text : Text)
  | code (text : Text)
  | placeholder (sigil : Char) (name : Text)
  deriving DecidableEq, Repr

def NamedPiece.text : NamedPiece → Text
  | .region _ text => text
  | .code text => text
  | .placeholder sigil name => sigil :: name

/-- A sigil in front of the start of an identifier. -/
def opensName (c : Char) (cs : Text) : Prop :=
  (c = ':' ∨ c = '@') ∧ cs.head?.any isIdentifierStart = true

/--
How a text falls into pieces: the regions that the lexer skips, `::`, a sigil
with the longest identifier behind it, and single characters of code.
-/
inductive NamedPieced : Text → List NamedPiece → Prop where
  | nil : NamedPieced [] []
  | region {text : Text} {r : Region} {cut : Cut} {ps : List NamedPiece} (hopen : Opened r cut text)
      (rest : NamedPieced cut.rest ps) : NamedPieced text (.region r cut.1 :: ps)
  | cast {cs : Text} {ps : List NamedPiece} (rest : NamedPieced cs ps) :
      NamedPieced (':' :: ':' :: cs) (.code [':', ':'] :: ps)
  | placeholder {c : Char} {cs : Text} {ps : List NamedPiece} (hopen : openedSpan (c :: cs) = none)
      (hname : opensName c cs) (rest : NamedPieced (cs.dropWhile isIdentifierPart) ps) :
      NamedPieced (c :: cs) (.placeholder c (cs.takeWhile isIdentifierPart) :: ps)
  | char {c : Char} {cs : Text} {ps : List NamedPiece} (hopen : openedSpan (c :: cs) = none)
      (hcast : ¬ (c = ':' ∧ cs.head? = some ':')) (hname : ¬ opensName c cs)
      (rest : NamedPieced cs ps) : NamedPieced (c :: cs) (.code [c] :: ps)

/-- The pieces make up the text. -/
theorem NamedPieced.flatMap_text {text : Text} {ps : List NamedPiece} (h : NamedPieced text ps) :
    ps.flatMap NamedPiece.text = text := by
  induction h with
  | nil => rfl
  | region hopen rest ih =>
      rw [List.flatMap_cons, ih, NamedPiece.text]
      exact hopen.splits
  | cast rest ih =>
      rw [List.flatMap_cons, ih]
      rfl
  | placeholder hopen hname rest ih =>
      rw [List.flatMap_cons, ih, NamedPiece.text, List.cons_append,
        List.takeWhile_append_dropWhile]
  | char hopen hcast hname rest ih =>
      rw [List.flatMap_cons, ih]
      rfl

/-- A text has one decomposition. -/
theorem NamedPieced.unique {text : Text} {ps qs : List NamedPiece} (h : NamedPieced text ps)
    (h' : NamedPieced text qs) : ps = qs := by
  induction h generalizing qs with
  | nil =>
      cases h' with
      | nil => rfl
      | region hopen rest => cases hopen.openedSpan_eq
  | region hopen rest ih =>
      have hspan := hopen.openedSpan_eq
      cases h' with
      | nil => cases hspan
      | region hopen' rest' =>
          rw [hopen'.openedSpan_eq] at hspan
          cases hspan
          rw [ih rest']
      | cast rest' =>
          rw [openedSpan_of_isInert (by decide)] at hspan
          cases hspan
      | placeholder hnone hname rest' =>
          rw [hnone] at hspan
          cases hspan
      | char hnone hcast hname rest' =>
          rw [hnone] at hspan
          cases hspan
  | cast rest ih =>
      cases h' with
      | region hopen rest' =>
          have hspan := hopen.openedSpan_eq
          rw [openedSpan_of_isInert (by decide)] at hspan
          cases hspan
      | cast rest' => rw [ih rest']
      | placeholder hnone hname rest' =>
          have hstart := hname.2
          cases hstart
      | char hnone hcast hname rest' => exact absurd ⟨rfl, rfl⟩ hcast
  | placeholder hnone hname rest ih =>
      cases h' with
      | region hopen rest' =>
          rw [hopen.openedSpan_eq] at hnone
          cases hnone
      | cast rest' =>
          have hstart := hname.2
          cases hstart
      | placeholder _ _ rest' => rw [ih rest']
      | char _ _ hno rest' => exact absurd hname hno
  | char hnone hcast hname rest ih =>
      cases h' with
      | region hopen rest' =>
          rw [hopen.openedSpan_eq] at hnone
          cases hnone
      | cast rest' => exact absurd ⟨rfl, rfl⟩ hcast
      | placeholder _ hyes rest' => exact absurd hyes hname
      | char _ _ _ rest' => rw [ih rest']

/-- The parameter that `find` is after. -/
def matchesName (lookup : Text) (p : NzParameter N) : Bool :=
  !p.positional && p.name.any (eqIgnoreAsciiCase · lookup)

/-- The element of the list whose value a placeholder becomes. -/
def renderedIndex (params : List (NzParameter N)) (lookup : Text) : Option Nat :=
  params.findIdx? (matchesName lookup)

/-- What a piece becomes: a placeholder the literal of a value under its name, the rest itself. -/
def Replaced (params : List (NzParameter N)) : NamedPiece → Text → Prop
  | .placeholder _ name, t => ∃ k p, renderedIndex params name = some k ∧ params[k]? = some p ∧
      p.positional = false ∧ (∃ n, p.name = some n ∧ eqIgnoreAsciiCase n name = true) ∧
      escapeLiteral p.value = .ok t
  | .region _ text, t => t = text
  | .code text, t => t = text

/-- The names of the placeholders among some pieces. -/
def placeholderNames (ps : List NamedPiece) : List Text :=
  ps.filterMap fun p => match p with
    | .placeholder _ name => some name
    | _ => none

@[simp] theorem placeholderNames_nil : placeholderNames [] = [] := rfl

@[simp] theorem placeholderNames_region (r : Region) (t : Text) (ps : List NamedPiece) :
    placeholderNames (.region r t :: ps) = placeholderNames ps := rfl

@[simp] theorem placeholderNames_code (t : Text) (ps : List NamedPiece) :
    placeholderNames (.code t :: ps) = placeholderNames ps := rfl

@[simp] theorem placeholderNames_placeholder (c : Char) (name : Text) (ps : List NamedPiece) :
    placeholderNames (.placeholder c name :: ps) = name :: placeholderNames ps := rfl

/-! ## The scan -/

/-- What the scan does at a position of code when all parameters are named. -/
theorem leadAt_named (c : Char) (cs : Text) :
    (leadAt true false (c :: cs) = .doubleColon ∧ c = ':' ∧ ∃ ds, cs = ':' :: ds) ∨
    (leadAt true false (c :: cs) = .named (cs.takeWhile isIdentifierPart) ∧ opensName c cs) ∨
    (leadAt true false (c :: cs) = .code ∧ ¬ (c = ':' ∧ cs.head? = some ':') ∧
      ¬ opensName c cs) := by
  simp only [leadAt, Bool.false_eq_true, if_false, true_and, false_and]
  by_cases hcast : c = ':' ∧ cs.head? = some ':'
  · rw [if_pos hcast]
    exact .inl ⟨rfl, hcast.1, List.head?_eq_some_iff.mp hcast.2⟩
  · rw [if_neg hcast]
    by_cases hname : (c = ':' ∨ c = '@') ∧ cs.head?.any isIdentifierStart = true
    · rw [if_pos hname]
      exact .inr (.inl ⟨rfl, hname⟩)
    · rw [if_neg hname]
      exact .inr (.inr ⟨rfl, hcast, hname⟩)

theorem matchesName_iff {lookup : Text} {p : NzParameter N} :
    matchesName lookup p = true ↔
      p.positional = false ∧ ∃ n, p.name = some n ∧ eqIgnoreAsciiCase n lookup = true := by
  unfold matchesName
  cases p.name <;> simp

/-- The literal of a name is that of the first parameter with the name. -/
theorem namedLiteral_replaced {params : List (NzParameter N)} {c : Char} {name t : Text}
    (h : namedLiteral params (c :: name) = .ok t) : Replaced params (.placeholder c name) t := by
  unfold namedLiteral at h
  cases hfind : findNamed params name with
  | none =>
      simp only [List.tail_cons, hfind] at h
      cases h
  | some p =>
      simp only [List.tail_cons, hfind] at h
      obtain ⟨hmatch, k, hk, hp, hbefore⟩ := List.find?_eq_some_iff_getElem.mp hfind
      obtain ⟨hpositional, hname⟩ := matchesName_iff.mp hmatch
      refine ⟨k, p, ?_, ?_, hpositional, hname, h⟩
      · refine List.findIdx?_eq_some_iff_getElem.mpr ⟨hk, by rw [hp]; exact hmatch, ?_⟩
        intro j hj
        have hnot := hbefore j hj
        rw [Bool.not_eq_true'] at hnot
        rw [Bool.not_eq_true]
        exact hnot
      · rw [List.getElem?_eq_getElem hk, hp]

theorem outputOf_snoc (parts : List Part) (part : Part) :
    outputOf (parts ++ [part]) = outputOf parts ++ part.text := by
  rw [outputOf, List.flatMap_append, List.flatMap_singleton, outputOf]

/-- The scan under named parameters pushes what the pieces become and notes the names it met. -/
theorem boundLoop_named (params : List (NzParameter N)) {fuel : Nat} {text : Text}
    {scan scan' : BoundScan} (hfuel : text.length ≤ fuel)
    (h : boundLoop params true false fuel scan text = .ok scan') :
    ∃ pieces texts, NamedPieced text pieces ∧ List.Forall₂ (Replaced params) pieces texts ∧
      outputOf scan'.result = outputOf scan.result ++ texts.flatten ∧
      ∀ n, n ∈ scan'.usedNames ↔
        n ∈ scan.usedNames ∨ ∃ name ∈ placeholderNames pieces, asciiLower name = n := by
  induction fuel generalizing text scan with
  | zero =>
      obtain rfl : text = [] := List.length_eq_zero_iff.mp (by omega)
      cases h
      exact ⟨[], [], .nil, .nil, by simp, by simp⟩
  | succ fuel ih =>
      cases text with
      | nil =>
          cases h
          exact ⟨[], [], .nil, .nil, by simp, by simp⟩
      | cons c cs =>
          rw [List.length_cons] at hfuel
          rw [boundLoop] at h
          cases hopen : openedSpan (c :: cs) with
          | some span =>
              obtain ⟨r, cut⟩ := span
              rw [hopen] at h
              have hopened := openedSpan_eq_some hopen
              have hlt := hopened.rest_lt
              rw [List.length_cons] at hlt
              obtain ⟨pieces, texts, hpieced, hreplaced, hout, hused⟩ := ih (by omega) h
              refine ⟨_, cut.1 :: texts, .region hopened hpieced, .cons rfl hreplaced, ?_, hused⟩
              rw [hout, BoundScan.push, outputOf_snoc, List.flatten_cons, List.append_assoc]
              rfl
          | none =>
              rw [hopen] at h
              dsimp only at h
              obtain ⟨hlead, rfl, ds, rfl⟩ | ⟨hlead, hname⟩ | ⟨hlead, hcast, hname⟩ :=
                leadAt_named c cs
              · rw [hlead] at h
                rw [List.length_cons] at hfuel
                obtain ⟨pieces, texts, hpieced, hreplaced, hout, hused⟩ := ih (by simp; omega) h
                refine ⟨_, [':', ':'] :: texts, .cast hpieced, .cons rfl hreplaced, ?_, hused⟩
                rw [hout, BoundScan.push, outputOf_snoc, List.flatten_cons, List.append_assoc]
                rfl
              · rw [hlead] at h
                dsimp only at h
                cases hlit : namedLiteral params (c :: cs.takeWhile isIdentifierPart) with
                | error e =>
                    rw [hlit] at h
                    cases h
                | ok t =>
                    rw [hlit] at h
                    dsimp only at h
                    have hrest : cs.drop (cs.takeWhile isIdentifierPart).length =
                        cs.dropWhile isIdentifierPart := by
                      have hleft : (cs.takeWhile isIdentifierPart ++
                          cs.dropWhile isIdentifierPart).drop
                            (cs.takeWhile isIdentifierPart).length = _ := List.drop_left
                      rwa [List.takeWhile_append_dropWhile] at hleft
                    have hlen := (List.dropWhile_sublist (p := isIdentifierPart) (l := cs)).length_le
                    rw [hrest] at h
                    obtain ⟨pieces, texts, hpieced, hreplaced, hout, hused⟩ := ih (by omega) h
                    refine ⟨_, t :: texts, .placeholder hopen hname hpieced,
                      .cons (namedLiteral_replaced hlit) hreplaced, ?_, ?_⟩
                    · rw [hout, BoundScan.pushNamed, outputOf_snoc, List.flatten_cons,
                        List.append_assoc]
                      rfl
                    · intro n
                      rw [hused, BoundScan.pushNamed, placeholderNames_placeholder]
                      simp only [List.mem_cons, exists_eq_or_imp]
                      constructor
                      · rintro ((rfl | hold) | hnew)
                        · exact .inr (.inl rfl)
                        · exact .inl hold
                        · exact .inr (.inr hnew)
                      · rintro (hold | rfl | hnew)
                        · exact .inl (.inr hold)
                        · exact .inl (.inl rfl)
                        · exact .inr hnew
              · rw [hlead] at h
                obtain ⟨pieces, texts, hpieced, hreplaced, hout, hused⟩ := ih (by omega) h
                refine ⟨_, [c] :: texts, .char hopen hcast hname hpieced, .cons rfl hreplaced, ?_,
                  hused⟩
                rw [hout, BoundScan.push, outputOf_snoc, List.flatten_cons, List.append_assoc]
                rfl

/-- One character of code in which `first_placeholder` finds nothing. -/
theorem firstPlaceholderLoop_unopened {fuel : Nat} {c : Char} {cs : Text}
    (hopen : openedSpan (c :: cs) = none) (h : firstPlaceholderLoop (fuel + 1) (c :: cs) = none) :
    firstPlaceholderLoop fuel cs = none ∧
      (¬ (c = ':' ∧ cs.head? = some ':') → ¬ opensName c cs) := by
  rw [firstPlaceholderLoop, hopen] at h
  dsimp only at h
  cases hnumber : dollarNumber (c :: cs) with
  | some n =>
      rw [hnumber] at h
      cases h
  | none =>
      rw [hnumber] at h
      dsimp only at h
      by_cases hname : ((c = ':' ∧ cs.head? ≠ some ':') ∨ c = '@') ∧
          cs.head?.any isIdentifierStart = true
      · rw [if_pos hname] at h
        cases h
      · rw [if_neg hname] at h
        by_cases hquestion : c = '?'
        · rw [if_pos hquestion] at h
          cases h
        · rw [if_neg hquestion] at h
          refine ⟨h, ?_⟩
          intro hcast hopens
          apply hname
          refine ⟨?_, hopens.2⟩
          rcases hopens.1 with hcolon | hat
          · exact .inl ⟨hcolon, fun hnext => hcast ⟨hcolon, hnext⟩⟩
          · exact .inr hat

theorem openedSpan_colon (cs : Text) : openedSpan (':' :: cs) = none :=
  openedSpan_of_isInert (by decide) cs

/-- A text that is returned unchanged has no placeholder. -/
theorem firstPlaceholder_none {fuel : Nat} {text : Text} (hfuel : text.length ≤ fuel)
    (h : firstPlaceholderLoop fuel text = none) :
    ∃ pieces, NamedPieced text pieces ∧ placeholderNames pieces = [] := by
  induction fuel using Nat.strong_induction_on generalizing text with
  | h fuel ih =>
      cases text with
      | nil => exact ⟨[], .nil, rfl⟩
      | cons c cs =>
          rw [List.length_cons] at hfuel
          obtain ⟨fuel, rfl⟩ : ∃ f, fuel = f + 1 := ⟨fuel - 1, by omega⟩
          cases hopen : openedSpan (c :: cs) with
          | some span =>
              obtain ⟨r, cut⟩ := span
              rw [firstPlaceholderLoop, hopen] at h
              have hopened := openedSpan_eq_some hopen
              have hlt := hopened.rest_lt
              rw [List.length_cons] at hlt
              obtain ⟨pieces, hpieced, hnone⟩ := ih fuel (Nat.lt_succ_self fuel) (by omega) h
              exact ⟨_, .region hopened hpieced, hnone⟩
          | none =>
              obtain ⟨hrest, hname⟩ := firstPlaceholderLoop_unopened hopen h
              by_cases hcast : c = ':' ∧ cs.head? = some ':'
              · -- the source looks at the second colon on its own and passes it too
                obtain ⟨rfl, hhead⟩ := hcast
                obtain ⟨ds, rfl⟩ := List.head?_eq_some_iff.mp hhead
                rw [List.length_cons] at hfuel
                obtain ⟨fuel, rfl⟩ : ∃ f, fuel = f + 1 := ⟨fuel - 1, by omega⟩
                obtain ⟨hrest, -⟩ := firstPlaceholderLoop_unopened (openedSpan_colon ds) hrest
                obtain ⟨pieces, hpieced, hnone⟩ := ih fuel (by omega) (by omega) hrest
                exact ⟨_, .cast hpieced, hnone⟩
              · obtain ⟨pieces, hpieced, hnone⟩ := ih fuel (Nat.lt_succ_self fuel) (by omega) hrest
                exact ⟨_, .char hopen hcast (hname hcast) hpieced, hnone⟩

/-- Pieces without a placeholder stay as they are. -/
theorem replaced_unchanged (params : List (NzParameter N)) {pieces : List NamedPiece}
    (h : placeholderNames pieces = []) :
    List.Forall₂ (Replaced params) pieces (pieces.map NamedPiece.text) := by
  induction pieces with
  | nil => exact .nil
  | cons p pieces ih =>
      cases p with
      | region r t => exact .cons rfl (ih h)
      | code t => exact .cons rfl (ih h)
      | placeholder c name => cases h

/-! ## Every value is used -/

/-- A substitution as the pieces of its text and what each of them becomes. -/
structure Bound (sql : Text) (params : List (NzParameter N)) (out : Text)
    (pieces : List NamedPiece) (texts : List Text) : Prop where
  pieced : NamedPieced sql pieces
  replaced : List.Forall₂ (Replaced params) pieces texts
  output : out = texts.flatten

theorem substituteBoundParameters_named {sql out : Text} {params : List (NzParameter N)}
    (hnamed : ∀ p ∈ params, p.positional = false)
    (h : substituteBoundParameters sql params = .ok out) :
    ∃ pieces texts, Bound sql params out pieces texts ∧
      ∀ p ∈ params, ∀ n, p.name = some n →
        ∃ name ∈ placeholderNames pieces, asciiLower name = asciiLower n := by
  have hnone : hasPositional params = false := by
    rw [hasPositional, List.any_eq_false]
    intro p hp
    simpa using hnamed p hp
  simp only [substituteBoundParameters] at h
  split_ifs at h with hnul hempty hmixed
  · obtain rfl : params = [] := List.isEmpty_iff.mp hempty
    cases hfirst : firstPlaceholder sql with
    | some token =>
        simp only [hfirst] at h
        cases h
    | none =>
        simp only [hfirst] at h
        cases h
        obtain ⟨pieces, hpieced, hnames⟩ := firstPlaceholder_none (Nat.le_refl _) hfirst
        refine ⟨pieces, _, ⟨hpieced, replaced_unchanged [] hnames, ?_⟩, by simp⟩
        rw [← List.flatMap_def]
        exact hpieced.flatMap_text.symm
  · have hsome : hasNamed params = true := by
      obtain ⟨p, hp⟩ := List.exists_mem_of_ne_nil params (by simpa using hempty)
      rw [hasNamed, List.any_eq_true]
      exact ⟨p, hp, by simp [hnamed p hp]⟩
    rw [boundScan, hsome, hnone] at h
    cases hrun : boundLoop params true false sql.length {} sql with
    | error e =>
        simp only [hrun] at h
        cases h
    | ok scan =>
        simp only [hrun, checkUsed, hsome, if_true] at h
        cases hunused : unusedName params scan.usedNames with
        | some name =>
            simp only [hunused] at h
            cases h
        | none =>
            simp only [hunused] at h
            cases h
            obtain ⟨pieces, texts, hpieced, hreplaced, hout, hused⟩ :=
              boundLoop_named params (Nat.le_refl _) hrun
            refine ⟨pieces, texts, ⟨hpieced, hreplaced, by rw [hout]; rfl⟩, ?_⟩
            intro p hp n hn
            have hmem := List.find?_eq_none.mp hunused n (List.mem_filterMap.mpr ⟨p, hp, hn⟩)
            simpa using (hused (asciiLower n)).mp (by simpa using hmem)

/-- Every element has a name, and no two names are equal up to ASCII case. -/
def NamesApart (params : List (NzParameter N)) : Prop :=
  (∀ p ∈ params, p.name.isSome) ∧
    params.Pairwise fun p q => p.name.map asciiLower ≠ q.name.map asciiLower

/-- Every element of the list is the one that some placeholder is rendered from. -/
def EveryValueUsed (params : List (NzParameter N)) (pieces : List NamedPiece) : Prop :=
  ∀ k < params.length, ∃ name ∈ placeholderNames pieces, renderedIndex params name = some k

theorem renderedIndex_iff {params : List (NzParameter N)} {lookup : Text} {k : Nat} :
    renderedIndex params lookup = some k ↔
      ∃ h : k < params.length, matchesName lookup params[k] = true ∧
        ∀ j, ∀ hj : j < k, matchesName lookup (params.get ⟨j, Nat.lt_trans hj h⟩) ≠ true :=
  List.findIdx?_eq_some_iff_getElem

/-- Two elements that one placeholder matches have equal names, up to ASCII case. -/
theorem matchesName_map {lookup : Text} {p : NzParameter N} (h : matchesName lookup p = true) :
    p.name.map asciiLower = some (asciiLower lookup) := by
  obtain ⟨-, n, hn, heq⟩ := matchesName_iff.mp h
  rw [hn, Option.map_some]
  exact congrArg some (eq_of_beq heq)

theorem matchesName_of_map {lookup : Text} {p : NzParameter N} (hpositional : p.positional = false)
    (h : p.name.map asciiLower = some (asciiLower lookup)) : matchesName lookup p = true := by
  obtain ⟨n, hn, heq⟩ := Option.map_eq_some_iff.mp h
  exact matchesName_iff.mpr ⟨hpositional, n, hn, beq_iff_eq.mpr heq⟩

/-- The lookup of a placeholder ends at the first element, so a later one of its name is never met. -/
theorem namesApart_of_used {params : List (NzParameter N)}
    (hnamed : ∀ p ∈ params, p.positional = false) {pieces : List NamedPiece}
    (h : EveryValueUsed params pieces) : NamesApart params := by
  constructor
  · intro p hp
    obtain ⟨k, hk, rfl⟩ := List.mem_iff_getElem.mp hp
    obtain ⟨name, -, hindex⟩ := h k hk
    obtain ⟨_, hmatch, -⟩ := renderedIndex_iff.mp hindex
    obtain ⟨-, n, hn, -⟩ := matchesName_iff.mp hmatch
    exact Option.isSome_iff_exists.mpr ⟨n, hn⟩
  · rw [List.pairwise_iff_getElem]
    intro i j hi hj hij heq
    obtain ⟨name, -, hindex⟩ := h j hj
    obtain ⟨_, hmatch, hbefore⟩ := renderedIndex_iff.mp hindex
    apply hbefore i hij
    exact matchesName_of_map (hnamed _ (List.getElem_mem hi)) (heq.trans (matchesName_map hmatch))

/--
A substitution under named parameters replaces every placeholder by a value of
its name and nothing else; it uses every value it is given exactly when no two
elements share a name.
-/
theorem named_values_used_iff {sql out : Text} {params : List (NzParameter N)}
    (hnamed : ∀ p ∈ params, p.positional = false)
    (h : substituteBoundParameters sql params = .ok out) :
    (∃ pieces texts, Bound sql params out pieces texts ∧ EveryValueUsed params pieces) ↔
      NamesApart params := by
  constructor
  · rintro ⟨pieces, texts, -, hused⟩
    exact namesApart_of_used hnamed hused
  · rintro ⟨hsome, hapart⟩
    obtain ⟨pieces, texts, hbound, hmet⟩ := substituteBoundParameters_named hnamed h
    refine ⟨pieces, texts, hbound, ?_⟩
    intro k hk
    obtain ⟨n, hn⟩ := Option.isSome_iff_exists.mp (hsome params[k] (List.getElem_mem hk))
    obtain ⟨name, hname, hlower⟩ := hmet params[k] (List.getElem_mem hk) n hn
    have hmap : params[k].name.map asciiLower = some (asciiLower name) := by
      rw [hn, hlower, Option.map_some]
    refine ⟨name, hname, renderedIndex_iff.mpr ⟨hk, ?_, ?_⟩⟩
    · exact matchesName_of_map (hnamed _ (List.getElem_mem hk)) hmap
    · intro j hj hmatch
      have hne := List.pairwise_iff_getElem.mp hapart j k (Nat.lt_trans hj hk) hk hj
      exact hne ((matchesName_map hmatch).trans hmap.symm)

/-- Two parameters whose names differ in case only. -/
def caseVariants : List (NzParameter wholeNumbers) :=
  [.named ['a'] (.int4 1), .named ['A'] (.int4 2)]

theorem named_values_used_iff_apart :
    ∃ pieces texts, Bound [':', 'a'] [NzParameter.named ['a'] (NzValue.int4 (N := wholeNumbers) 1)]
        ['1'] pieces texts ∧
      EveryValueUsed [NzParameter.named ['a'] (NzValue.int4 (N := wholeNumbers) 1)] pieces := by
  refine (named_values_used_iff (by decide) (by decide +kernel)).mpr ⟨?_, ?_⟩
  · decide
  · exact List.pairwise_singleton _ _

theorem later_case_variant_ignored :
    substituteBoundParameters [':', 'a'] caseVariants = .ok ['1'] ∧
      ¬ ∃ pieces texts, Bound [':', 'a'] caseVariants ['1'] pieces texts ∧
        EveryValueUsed caseVariants pieces := by
  constructor
  · decide +kernel
  · rintro ⟨pieces, texts, -, hused⟩
    have hapart := (namesApart_of_used (by decide) hused).2
    exact (List.pairwise_cons.mp hapart).1 (.named ['A'] (.int4 2)) (List.mem_singleton_self _)
      (by decide)

end NzRust.Sql
