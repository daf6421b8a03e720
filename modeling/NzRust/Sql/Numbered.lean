import NzRust.Sql.Pieces
import NzRust.Sql.Substitution

/-!
# Numbered and bound substitution

Two ways to the same text: a template with `$n` placeholders is rendered, or it
is bound to positional parameters. Without a `?` in its code both read the same
pieces, and they fail on the same templates. Without parameters a template is
bound when it has no placeholder, read as the bound substitution reads it.
-/

namespace NzRust.Sql

variable {N : Numerics}

/-- No `?` stands in code. -/
def QuestionFree (sql : Text) : Prop :=
  ∀ c m, (c, m) ∈ sql.zip (lexMarks sql) → m.region = .code → c ≠ '?'

theorem Pieced.char_mem_zip {text : Text} {ps : List Piece} (h : Pieced text ps) {c : Char}
    (hc : .char c ∈ ps) : (c, codeMark) ∈ text.zip (lexMarks text) := by
  obtain ⟨last, hmarks⟩ := h.lexMarks_eq
  have htext := h.flatMap_text
  rw [hmarks, ← htext]
  clear h hmarks htext
  induction ps with
  | nil => cases hc
  | cons p ps ih =>
      rw [List.flatMap_cons, List.flatMap_cons, List.append_assoc,
        List.zip_append (by rw [Piece.marks_length])]
      rcases List.mem_cons.mp hc with rfl | hc
      · exact List.mem_append_left _ List.mem_cons_self
      · exact List.mem_append_right _ (ih hc)

/-! ## The bound scan on pieces -/

/-- The bound scan with positional parameters, where no `?` is met. -/
def boundPieces (params : List (NzParameter N)) :
    BoundScan → List Piece → Except String BoundScan
  | scan, [] => .ok scan
  | scan, .number digits :: ps =>
      match numberedLiteral params ('$' :: digits) with
      | .error e => .error e
      | .ok (index, literal) =>
          boundPieces params (scan.pushPositional index (.literal ('$' :: digits) literal)) ps
  | scan, .span r t :: ps => boundPieces params (scan.push (.copied r t)) ps
  | scan, .char c :: ps => boundPieces params (scan.push (.copied .code [c])) ps

theorem leadAt_positional (c : Char) (cs : Text) (hc : c ≠ '?') :
    leadAt false true (c :: cs) =
      match dollarNumber (c :: cs) with
      | some n => .numbered n
      | none => .code := by
  cases hnumber : dollarNumber (c :: cs) with
  | some n => simp [leadAt, hnumber]
  | none => simp [leadAt, hnumber, hc]

theorem boundLoop_pieces (params : List (NzParameter N)) (fuel : Nat) (scan : BoundScan)
    (text : Text) (hquestion : ∀ c, .char c ∈ piecesLoop fuel text → c ≠ '?') :
    boundLoop params false true fuel scan text = boundPieces params scan (piecesLoop fuel text) := by
  induction fuel generalizing scan text with
  | zero => rfl
  | succ fuel ih =>
      cases text with
      | nil => rfl
      | cons c cs =>
          rw [boundLoop]
          rw [piecesLoop] at hquestion ⊢
          cases hopen : openedSpan (c :: cs) with
          | some span =>
              simp only [hopen] at hquestion ⊢
              exact ih _ _ fun d hd => hquestion d (List.mem_cons_of_mem _ hd)
          | none =>
              simp only [hopen] at hquestion ⊢
              cases hnumber : dollarNumber (c :: cs) with
              | none =>
                  simp only [hnumber] at hquestion ⊢
                  have hc := hquestion c List.mem_cons_self
                  rw [leadAt_positional c cs hc, hnumber]
                  exact ih _ _ fun d hd => hquestion d (List.mem_cons_of_mem _ hd)
              | some n =>
                  obtain ⟨rfl, -, -, -, -⟩ := dollarNumber_spec hnumber
                  simp only [hnumber] at hquestion ⊢
                  rw [leadAt_positional _ cs (by decide), hnumber]
                  dsimp only [boundPieces]
                  cases numberedLiteral params ('$' :: cs.take n) with
                  | error e => rfl
                  | ok found => exact ih _ _ fun d hd => hquestion d (List.mem_cons_of_mem _ hd)

/-! ## Both substitutions on pieces -/

/-- The two outcomes say the same but for the error text. -/
def SameOutcome {α β : Type} (R : α → β → Prop) : Except String α → Except String β → Prop
  | .ok a, .ok b => R a b
  | .error _, .error _ => True
  | _, _ => False

theorem SameOutcome.map {α β γ : Type} {R : α → β → Prop} {R' : γ → β → Prop}
    {x : Except String α} {y : Except String β} (h : SameOutcome R x y) (f : α → γ)
    (hf : ∀ a b, R a b → R' (f a) b) : SameOutcome R' (x.map f) y := by
  cases x with
  | error e =>
      cases y with
      | error e' => trivial
      | ok b => exact h.elim
  | ok a =>
      cases y with
      | error e' => exact h.elim
      | ok b => exact hf a b h

theorem numberedLiteral_eq (params : List (NzParameter N)) (digits : Text) :
    SameOutcome (fun literal found => found = ((parseUsize digits).getD 0, literal))
      (if (parseUsize digits).getD 0 = 0 ∨ params.length < (parseUsize digits).getD 0 then
        .error (missingValue ('$' :: digits))
      else literalAt (params.map NzParameter.value) ((parseUsize digits).getD 0 - 1))
      (numberedLiteral params ('$' :: digits)) := by
  unfold numberedLiteral
  rw [List.tail_cons]
  cases parseUsize digits with
  | none =>
      rw [if_pos (.inl rfl)]
      trivial
  | some index =>
      dsimp only [Option.getD_some]
      by_cases hrange : index = 0 ∨ params.length < index
      · rw [if_pos hrange]
        have hnone : (if index = 0 then none else params[index - 1]?) = none := by
          by_cases hzero : index = 0
          · rw [if_pos hzero]
          · rw [if_neg hzero]
            exact List.getElem?_eq_none (by omega)
        rw [hnone]
        trivial
      · rw [if_neg hrange]
        have hin : index - 1 < params.length := by omega
        rw [if_neg (by omega), List.getElem?_eq_getElem hin, literalAt, List.getElem?_map,
          List.getElem?_eq_getElem hin]
        dsimp only [Option.map_some]
        cases escapeLiteral params[index - 1].value with
        | error e => trivial
        | ok literal => rfl

/-- The output so far, and the parameters used so far. -/
structure Alike (result : Text) (used : List Nat) (scan : BoundScan) : Prop where
  output : outputOf scan.result = result
  used : ∀ k, k ∈ used ↔ k + 1 ∈ scan.usedPositional

theorem Alike.push {result : Text} {used : List Nat} {scan : BoundScan} (h : Alike result used scan)
    (part : Part) : Alike (result ++ part.text) used (scan.push part) where
  output := by
    rw [BoundScan.push, ← h.output]
    simp [outputOf]
  used := h.used

theorem Alike.pushPositional {result : Text} {used : List Nat} {scan : BoundScan}
    (h : Alike result used scan) {index : Nat} (hindex : index ≠ 0) (part : Part) :
    Alike (result ++ part.text) ((index - 1) :: used) (scan.pushPositional index part) where
  output := by
    rw [BoundScan.pushPositional, ← h.output]
    simp [outputOf]
  used k := by
    rw [BoundScan.pushPositional, List.mem_cons, List.mem_cons, h.used]
    have heq : k = index - 1 ↔ k + 1 = index := by omega
    rw [heq]

theorem renderPieces_boundPieces (params : List (NzParameter N)) (ps : List Piece) {result : Text}
    {used : List Nat} {scan : BoundScan} (h : Alike result used scan) :
    SameOutcome (fun (found : Text × List Nat) scan' =>
        Alike (result ++ found.1) (found.2.reverse ++ used) scan')
      (renderPieces params.length (literalAt (params.map NzParameter.value)) ps)
      (boundPieces params scan ps) := by
  induction ps generalizing result used scan with
  | nil => exact by simpa [SameOutcome, renderPieces, boundPieces] using h
  | cons p ps ih =>
      -- What is copied is copied by both.
      have hcopied : ∀ part : Part, part.text = p.text →
          SameOutcome (fun (found : Text × List Nat) scan' =>
              Alike (result ++ found.1) (found.2.reverse ++ used) scan')
            ((renderPieces params.length (literalAt (params.map NzParameter.value)) ps).map
              fun rendered => (p.text ++ rendered.1, rendered.2))
            (boundPieces params (scan.push part) ps) := by
        intro part hpart
        have hrest := ih (h.push part)
        rw [hpart] at hrest
        refine hrest.map _ ?_
        rintro ⟨out, found⟩ scan' halike
        rwa [List.append_assoc] at halike
      cases p with
      | span r t => exact hcopied (.copied r t) rfl
      | char c => exact hcopied (.copied .code [c]) rfl
      | number digits =>
          have hliteral := numberedLiteral_eq params digits
          rw [renderPieces, boundPieces]
          by_cases hrange : (parseUsize digits).getD 0 = 0 ∨
              params.length < (parseUsize digits).getD 0
          · rw [if_pos hrange] at hliteral ⊢
            cases hnumbered : numberedLiteral params ('$' :: digits) with
            | error e => trivial
            | ok found =>
                rw [hnumbered] at hliteral
                exact hliteral.elim
          · rw [if_neg hrange] at hliteral ⊢
            revert hliteral
            cases literalAt (params.map NzParameter.value) ((parseUsize digits).getD 0 - 1) with
            | error e =>
                cases numberedLiteral params ('$' :: digits) with
                | error e => exact fun _ => trivial
                | ok found => exact False.elim
            | ok literal =>
                cases numberedLiteral params ('$' :: digits) with
                | error e => exact False.elim
                | ok found =>
                    intro hfound
                    obtain rfl : found = ((parseUsize digits).getD 0, literal) := hfound
                    dsimp only
                    have hindex : (parseUsize digits).getD 0 ≠ 0 := fun hzero => hrange (.inl hzero)
                    have hrest := ih (h.pushPositional hindex (.literal ('$' :: digits) literal))
                    refine hrest.map _ ?_
                    rintro ⟨out, found⟩ scan' halike
                    simpa [Part.text] using halike

/-- The two substitutions agree on positional parameters. -/
theorem substitutions_alike {sql : Text} {params : List (NzParameter N)} (hne : params ≠ [])
    (hpositional : ∀ p ∈ params, p.positional = true) (hquestion : QuestionFree sql) :
    SameOutcome Eq (substituteParameters sql (params.map NzParameter.value))
      (substituteBoundParameters sql params) := by
  have hnamed : hasNamed params = false := by
    rw [hasNamed, List.any_eq_false]
    intro p hp
    simp [hpositional p hp]
  have hhas : hasPositional params = true := by
    obtain ⟨p, ps, rfl⟩ := List.exists_cons_of_ne_nil hne
    simp [hasPositional, hpositional p List.mem_cons_self]
  unfold substituteParameters SqlTemplate.parse substituteBoundParameters
  by_cases hnul : sql.contains '\x00' = true
  · rw [if_pos hnul, if_pos hnul]
    trivial
  · rw [if_neg hnul, if_neg hnul, if_neg (by simpa using hne), if_neg (by simp [hnamed])]
    dsimp only
    have hpieces := pieces_pieced sql
    have hbound : boundScan sql params = boundPieces params {} (pieces sql) := by
      rw [boundScan, hnamed, hhas]
      refine boundLoop_pieces params _ _ _ fun c hc => ?_
      exact hquestion c codeMark (hpieces.char_mem_zip hc) rfl
    have hsame := renderPieces_boundPieces params (pieces sql)
      (show Alike [] [] {} from ⟨rfl, by simp⟩)
    rw [SqlTemplate.render, List.length_map, renderLoop_parse, hbound]
    revert hsame
    cases renderPieces params.length (literalAt (params.map NzParameter.value)) (pieces sql) with
    | error e =>
        cases boundPieces params {} (pieces sql) with
        | error e' => exact fun _ => trivial
        | ok scan => exact False.elim
    | ok found =>
        obtain ⟨out, used⟩ := found
        cases boundPieces params {} (pieces sql) with
        | error e' => exact False.elim
        | ok scan =>
            intro halike
            replace halike : Alike out used.reverse scan := by simpa [SameOutcome] using halike
            have hunused : (List.range params.length).any (fun k => !used.reverse.contains k) =
                (List.range params.length).any fun k => !scan.usedPositional.contains (k + 1) := by
              refine congrArg _ (funext fun k => ?_)
              have hiff := halike.used k
              rw [← List.contains_iff_mem, ← List.contains_iff_mem] at hiff
              rw [Bool.eq_iff_iff.mpr hiff]
            dsimp only [Except.map, checkUsed]
            rw [hunused, hnamed, if_neg Bool.false_ne_true]
            by_cases hany : (List.range params.length).any
                (fun k => !scan.usedPositional.contains (k + 1)) = true
            · rw [if_pos hany, if_pos hany]
              trivial
            · rw [if_neg hany, if_neg hany]
              exact halike.output.symm

/-! ## Without parameters -/

/-- A placeholder of any kind, as the bound substitution reads the text: behind a `::` nothing is
named. -/
def placeholderLoop : Nat → Text → Bool
  | 0, _ => false
  | _ + 1, [] => false
  | fuel + 1, c :: cs =>
      match openedSpan (c :: cs) with
      | some (_, cut) => placeholderLoop fuel cut.rest
      | none =>
          match leadAt true true (c :: cs) with
          | .code => placeholderLoop fuel cs
          | .doubleColon => placeholderLoop fuel cs.tail
          | _ => true

def hasPlaceholder (sql : Text) : Bool :=
  placeholderLoop sql.length sql

/-- No `::` of code stands right before the start of a name. -/
def castsApartLoop : Nat → Text → Bool
  | 0, _ => true
  | _ + 1, [] => true
  | fuel + 1, c :: cs =>
      match openedSpan (c :: cs) with
      | some (_, cut) => castsApartLoop fuel cut.rest
      | none =>
          if c = ':' ∧ cs.head? = some ':' then
            !cs.tail.head?.any isIdentifierStart && castsApartLoop fuel cs.tail
          else castsApartLoop fuel cs

def castsApart (sql : Text) : Bool :=
  castsApartLoop sql.length sql

theorem firstPlaceholderLoop_fuel {f g : Nat} {text : Text} (hf : text.length ≤ f)
    (hg : text.length ≤ g) : firstPlaceholderLoop f text = firstPlaceholderLoop g text := by
  induction f generalizing g text with
  | zero =>
      obtain rfl : text = [] := List.length_eq_zero_iff.mp (by omega)
      cases g <;> rfl
  | succ f ih =>
      cases text with
      | nil => cases g <;> rfl
      | cons c cs =>
          simp only [List.length_cons] at hf hg
          obtain ⟨g, rfl⟩ : ∃ k, g = k + 1 := ⟨g - 1, by omega⟩
          rw [firstPlaceholderLoop, firstPlaceholderLoop]
          cases hopen : openedSpan (c :: cs) with
          | some span =>
              have hlt := (openedSpan_eq_some hopen).rest_lt
              simp only [List.length_cons] at hlt
              exact ih (by omega) (by omega)
          | none =>
              have hrest : firstPlaceholderLoop f cs = firstPlaceholderLoop g cs :=
                ih (by omega) (by omega)
              dsimp only
              rw [hrest]

/-- `first_placeholder` at a position of code: it passes a `::` one colon at a time. -/
theorem firstPlaceholderLoop_code {c : Char} {cs : Text} (hopen : openedSpan (c :: cs) = none)
    (fuel : Nat) :
    firstPlaceholderLoop (fuel + 1) (c :: cs) =
      match leadAt true true (c :: cs) with
      | .numbered n => some (c :: cs.take n)
      | .named name => some (c :: name)
      | .question => some ['?']
      | .doubleColon => firstPlaceholderLoop fuel cs
      | .code => firstPlaceholderLoop fuel cs := by
  rw [firstPlaceholderLoop, hopen, leadAt]
  cases hnumber : dollarNumber (c :: cs) with
  | some n => rfl
  | none =>
      dsimp only
      by_cases hcast : c = ':' ∧ cs.head? = some ':'
      · obtain ⟨rfl, hhead⟩ := hcast
        simp [hhead]
      · by_cases hname : (c = ':' ∨ c = '@') ∧ cs.head?.any isIdentifierStart = true
        · have hfirst : ((c = ':' ∧ cs.head? ≠ some ':') ∨ c = '@') ∧
              cs.head?.any isIdentifierStart = true := by
            refine ⟨?_, hname.2⟩
            rcases hname.1 with hc | hc
            · exact .inl ⟨hc, fun hhead => hcast ⟨hc, hhead⟩⟩
            · exact .inr hc
          simp [hcast, hname, hfirst]
        · have hfirst : ¬(((c = ':' ∧ cs.head? ≠ some ':') ∨ c = '@') ∧
              cs.head?.any isIdentifierStart = true) := by
            rintro ⟨hc, hstart⟩
            refine hname ⟨?_, hstart⟩
            rcases hc with ⟨hc, -⟩ | hc
            · exact .inl hc
            · exact .inr hc
          by_cases hq : c = '?'
          · simp [hq]
          · simp [hcast, hname, hfirst, hq]

theorem colon_code (ds : Text) : openedSpan (':' :: ds) = none :=
  openedSpan_of_isInert (by decide) ds

/-- Behind the first colon of a `::` a name is taken for a placeholder. -/
theorem firstPlaceholderLoop_cast (fuel : Nat) (ds : Text) :
    firstPlaceholderLoop (fuel + 2) (':' :: ':' :: ds) =
      if ds.head?.any isIdentifierStart then some (':' :: ds.takeWhile isIdentifierPart)
      else firstPlaceholderLoop fuel ds := by
  have hcast : leadAt true true (':' :: ':' :: ds) = .doubleColon := rfl
  rw [firstPlaceholderLoop_code (colon_code _), hcast]
  dsimp only
  rw [firstPlaceholderLoop_code (colon_code ds)]
  have hnumber : dollarNumber (':' :: ds) = none := rfl
  by_cases hname : ds.head?.any isIdentifierStart = true
  · have hhead : ds.head? ≠ some ':' := by
      intro hcolon
      rw [hcolon] at hname
      exact absurd hname (by decide)
    simp [leadAt, hnumber, hname, hhead]
  · by_cases hhead : ds.head? = some ':'
    · have hstart : isIdentifierStart ':' = false := by decide
      simp [leadAt, hnumber, hhead, hstart]
    · simp [leadAt, hnumber, hhead, hname]

/-- A placeholder is found, at its place or at a cast before it. -/
theorem firstPlaceholderLoop_ne_none {n : Nat} {text : Text} (h : placeholderLoop n text = true)
    {fuel : Nat} (hfuel : text.length ≤ fuel) : firstPlaceholderLoop fuel text ≠ none := by
  induction n generalizing text fuel with
  | zero => cases h
  | succ n ih =>
      cases text with
      | nil => cases h
      | cons c cs =>
          simp only [List.length_cons] at hfuel
          obtain ⟨fuel, rfl⟩ : ∃ k, fuel = k + 1 := ⟨fuel - 1, by omega⟩
          rw [placeholderLoop] at h
          cases hopen : openedSpan (c :: cs) with
          | some span =>
              rw [firstPlaceholderLoop]
              rw [hopen] at h ⊢
              have hlt := (openedSpan_eq_some hopen).rest_lt
              simp only [List.length_cons] at hlt
              exact ih h (by omega)
          | none =>
              rw [hopen] at h
              rcases leadAt_cases true true c cs with
                hlead | ⟨hlead, rfl, ds, rfl⟩ | ⟨k, hlead, -, -, -⟩ | ⟨hlead, -⟩ | ⟨hlead, -⟩
              · rw [firstPlaceholderLoop_code hopen, hlead]
                simp only [hlead] at h
                exact ih h (by omega)
              · simp only [hlead, List.tail_cons] at h
                simp only [List.length_cons] at hfuel
                obtain ⟨fuel, rfl⟩ : ∃ k, fuel = k + 1 := ⟨fuel - 1, by omega⟩
                rw [firstPlaceholderLoop_cast]
                split
                · exact Option.some_ne_none _
                · exact ih h (by omega)
              · rw [firstPlaceholderLoop_code hopen, hlead]
                exact Option.some_ne_none _
              · rw [firstPlaceholderLoop_code hopen, hlead]
                exact Option.some_ne_none _
              · rw [firstPlaceholderLoop_code hopen, hlead]
                exact Option.some_ne_none _

/-- Without placeholders and with casts apart from names nothing is found. -/
theorem firstPlaceholderLoop_eq_none {n : Nat} {text : Text} (hlen : text.length ≤ n)
    (h : placeholderLoop n text = false) {m : Nat} (hm : text.length ≤ m)
    (hcasts : castsApartLoop m text = true) {fuel : Nat} (hfuel : text.length ≤ fuel) :
    firstPlaceholderLoop fuel text = none := by
  induction n generalizing text fuel m with
  | zero =>
      obtain rfl : text = [] := List.length_eq_zero_iff.mp (by omega)
      cases fuel <;> rfl
  | succ n ih =>
      cases text with
      | nil => cases fuel <;> rfl
      | cons c cs =>
          simp only [List.length_cons] at hlen hm hfuel
          obtain ⟨fuel, rfl⟩ : ∃ k, fuel = k + 1 := ⟨fuel - 1, by omega⟩
          obtain ⟨m, rfl⟩ : ∃ k, m = k + 1 := ⟨m - 1, by omega⟩
          rw [placeholderLoop] at h
          rw [castsApartLoop] at hcasts
          cases hopen : openedSpan (c :: cs) with
          | some span =>
              rw [firstPlaceholderLoop]
              rw [hopen] at h hcasts ⊢
              have hlt := (openedSpan_eq_some hopen).rest_lt
              simp only [List.length_cons] at hlt
              exact ih (by omega) h (by omega) hcasts (by omega)
          | none =>
              rw [hopen] at h hcasts
              rcases leadAt_cases true true c cs with
                hlead | ⟨hlead, rfl, ds, rfl⟩ | ⟨k, hlead, -, -, -⟩ | ⟨hlead, -⟩ | ⟨hlead, -⟩
              · rw [firstPlaceholderLoop_code hopen, hlead]
                simp only [hlead] at h
                have hcast : ¬(c = ':' ∧ cs.head? = some ':') := by
                  rintro ⟨rfl, hhead⟩
                  have hnumber : dollarNumber (':' :: cs) = none := rfl
                  simp [leadAt, hnumber, hhead] at hlead
                dsimp only at hcasts
                rw [if_neg hcast] at hcasts
                exact ih (by omega) h (by omega) hcasts (by omega)
              · simp only [hlead, List.tail_cons] at h
                simp only [List.length_cons] at hlen hm hfuel
                obtain ⟨fuel, rfl⟩ : ∃ k, fuel = k + 1 := ⟨fuel - 1, by omega⟩
                have hapart : ds.head?.any isIdentifierStart = false ∧
                    castsApartLoop m ds = true := by simpa using hcasts
                rw [firstPlaceholderLoop_cast, if_neg (by simp [hapart.1])]
                exact ih (by omega) h (by omega) hapart.2 (by omega)
              · simp [hlead] at h
              · simp [hlead] at h
              · simp [hlead] at h

/-- What the two substitutions promise together. With positional parameters and no `?` in code they
agree; without parameters a NUL or a placeholder is refused, and a text with neither is returned as
it is, as far as its casts stand apart from names. -/
theorem substitution_agreement (sql : Text) :
    (∀ params : List (NzParameter N), params ≠ [] → (∀ p ∈ params, p.positional = true) →
      QuestionFree sql →
      SameOutcome Eq (substituteParameters sql (params.map NzParameter.value))
        (substituteBoundParameters sql params)) ∧
    ('\x00' ∈ sql ∨ hasPlaceholder sql = true →
      ∃ e, substituteBoundParameters sql ([] : List (NzParameter N)) = .error e) ∧
    ('\x00' ∉ sql → hasPlaceholder sql = false → castsApart sql = true →
      substituteBoundParameters sql ([] : List (NzParameter N)) = .ok sql) := by
  refine ⟨fun params hne hpositional hquestion =>
    substitutions_alike hne hpositional hquestion, ?_, ?_⟩
  · intro h
    unfold substituteBoundParameters
    by_cases hnul : sql.contains '\x00' = true
    · exact ⟨_, if_pos hnul⟩
    · rw [if_neg hnul, if_pos List.isEmpty_nil]
      have hplaceholder : hasPlaceholder sql = true := by
        rcases h with hmem | h
        · exact absurd (List.contains_iff_mem.mpr hmem) hnul
        · exact h
      have hfound : firstPlaceholder sql ≠ none :=
        firstPlaceholderLoop_ne_none hplaceholder (Nat.le_refl _)
      cases hfirst : firstPlaceholder sql with
      | none => exact absurd hfirst hfound
      | some token => exact ⟨_, rfl⟩
  · intro hnul hplaceholder hcasts
    have hfirst : firstPlaceholder sql = none :=
      firstPlaceholderLoop_eq_none (Nat.le_refl _) hplaceholder (Nat.le_refl _) hcasts (Nat.le_refl _)
    unfold substituteBoundParameters
    rw [if_neg (by rwa [List.contains_iff_mem]), if_pos List.isEmpty_nil, hfirst]

theorem question_free_select : QuestionFree "SELECT $1, '?'".toList := by
  have hall : ∀ x ∈ "SELECT $1, '?'".toList.zip (lexMarks "SELECT $1, '?'".toList),
      x.2.region = .code → x.1 ≠ '?' := by
    decide
  intro c m hmem
  exact hall (c, m) hmem

theorem select_one_agrees :
    SameOutcome Eq
      (substituteParameters "SELECT $1, '?'".toList
        ([.ofPosition (.int4 1)].map (NzParameter.value (N := wholeNumbers))))
      (substituteBoundParameters "SELECT $1, '?'".toList
        [.ofPosition (.int4 1 : NzValue wholeNumbers)]) ∧
    (∃ e, substituteBoundParameters "SELECT $1".toList ([] : List (NzParameter wholeNumbers)) =
      .error e) ∧
    substituteBoundParameters "SELECT ':x'".toList ([] : List (NzParameter wholeNumbers)) =
      .ok "SELECT ':x'".toList := by
  refine ⟨(substitution_agreement _).1 _ (by simp) (by simp [NzParameter.ofPosition])
    question_free_select, (substitution_agreement _).2.1 (.inr (by decide)),
    (substitution_agreement _).2.2 (by decide) (by decide) (by decide)⟩

/-- A text without a placeholder that is not returned. -/
theorem nul_refused :
    ¬(substituteBoundParameters "a\x00".toList ([] : List (NzParameter wholeNumbers)) =
        .ok "a\x00".toList ↔ hasPlaceholder "a\x00".toList = false) := by
  intro h
  have hok := h.mpr (by decide)
  cases hok

end NzRust.Sql
