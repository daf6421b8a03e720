import NzRust.Sql.Split

/-!
# The splitter against the parameter lexer

The code characters of the splitter's statements, with their positions, against
the code characters between the semicolons that the parameter lexer sees in
code. One more difference shows here: the newline that ends a line comment is
part of the comment for the lexer and code for the splitter.
-/

namespace NzRust.Sql

def Push.codeChar : Push → Option (Nat × Char)
  | .code position c => some (position, c)
  | .quoted _ | .blank => none

def codeOf (statement : List Push) : List (Nat × Char) :=
  statement.filterMap Push.codeChar

/-- The newline that ends a line comment. -/
def endsLine (c : Char) (m : Mark) (next : List Mark) : Bool :=
  c == '\n' && m.region == .comment && inCode next

def isCodeChar (newlines : Bool) (c : Char) (m : Mark) (next : List Mark) : Bool :=
  m.region == .code || (newlines && endsLine c m next)

def addFirst (x : Nat × Char) : List (List (Nat × Char)) → List (List (Nat × Char))
  | [] => [[x]]
  | segment :: segments => (x :: segment) :: segments

/-- The code characters between the semicolons of code, with the newlines that end line comments or
without them. -/
def codeSegments (newlines : Bool) : Nat → Text → List Mark → List (List (Nat × Char))
  | i, c :: cs, m :: ms =>
      let segments := codeSegments newlines (i + 1) cs ms
      if isCodeChar newlines c m ms then
        if c = ';' then [] :: segments else addFirst (i, c) segments
      else segments
  | _, _, _ => [[]]

/-- No position of code at which the word `BEGIN_PROC` stands. -/
def noProcWord : Option Char → Text → List Mark → Bool
  | prev, c :: cs, m :: ms =>
      !(m.region == .code && atWordStart prev && lexerRules.opensProc (c :: cs)) &&
        noProcWord (some c) cs ms
  | _, _, _ => true

def hasLineEnd : Text → List Mark → Bool
  | c :: cs, m :: ms => endsLine c m ms || hasLineEnd cs ms
  | _, _ => false

def codeSemicolons : Text → List Mark → Nat
  | c :: cs, m :: ms =>
      (if m.region = .code ∧ c = ';' then 1 else 0) + codeSemicolons cs ms
  | _, _ => 0

/-! ## Skipping a region -/

/-- Inside a region no character counts as code, but for a newline at the end of a comment. -/
private theorem isCodeChar_span (newlines b : Bool) {r : Region} (hr : r ≠ .code) (c : Char)
    (cs : Text) (ms : List Mark)
    (hlast : (c :: cs).getLast? = some '\n' → r = .comment → inCode ms = false) :
    isCodeChar newlines c ⟨r, b⟩ (List.replicate cs.length ⟨r, false⟩ ++ ms) = false := by
  have hend : endsLine c ⟨r, b⟩ (List.replicate cs.length ⟨r, false⟩ ++ ms) = false := by
    cases cs with
    | nil =>
        simp only [endsLine, List.length_nil, List.replicate_zero, List.nil_append]
        by_cases hc : c = '\n' ∧ r = .comment
        · rw [hlast (by simp [hc.1]) hc.2, Bool.and_false]
        · simpa using fun h₁ h₂ => absurd ⟨h₁, h₂⟩ hc
    | cons d ds => simp [endsLine, inCode, List.replicate_succ]
  rw [isCodeChar, hend]
  simpa using hr

private theorem codeSegments_inside (newlines b : Bool) {r : Region} (hr : r ≠ .code) (c : Char)
    (cs rest : Text) (ms : List Mark)
    (hlast : (c :: cs).getLast? = some '\n' → r = .comment → inCode ms = false) (i : Nat) :
    codeSegments newlines i (c :: (cs ++ rest))
        (⟨r, b⟩ :: (List.replicate cs.length ⟨r, false⟩ ++ ms)) =
      codeSegments newlines (i + (cs.length + 1)) rest ms := by
  induction cs generalizing c b i with
  | nil =>
      have hcode := isCodeChar_span newlines b hr c [] ms hlast
      simp only [List.length_nil, List.replicate_zero, List.nil_append] at hcode ⊢
      rw [codeSegments, hcode]
      rfl
  | cons d ds ih =>
      rw [codeSegments, isCodeChar_span newlines b hr c (d :: ds) ms hlast, List.length_cons,
        List.replicate_succ, List.cons_append, List.cons_append,
        ih false d (fun hl => hlast (by rwa [List.getLast?_cons_cons]))]
      simp only [Bool.false_eq_true, if_false]
      congr 1
      omega

theorem codeSegments_span (newlines : Bool) {r : Region} (hr : r ≠ .code) (t rest : Text)
    (ms : List Mark) (hlast : t.getLast? = some '\n' → r = .comment → inCode ms = false) (i : Nat) :
    codeSegments newlines i (t ++ rest) (spanMarks r t ++ ms) =
      codeSegments newlines (i + t.length) rest ms := by
  cases t with
  | nil => rfl
  | cons c cs => exact codeSegments_inside newlines true hr c cs rest ms hlast i

theorem noProcWord_append {prev : Option Char} {t rest : Text} {ms ns : List Mark}
    (hlen : ms.length = t.length) (h : noProcWord prev (t ++ rest) (ms ++ ns)) (ht : t ≠ []) :
    noProcWord t.getLast? rest ns := by
  induction t generalizing prev ms with
  | nil => exact absurd rfl ht
  | cons c cs ih =>
      obtain ⟨m, ms, rfl⟩ : ∃ m ms', ms = m :: ms' := by
        cases ms with
        | nil => cases hlen
        | cons m ms => exact ⟨m, ms, rfl⟩
      rw [List.cons_append, List.cons_append, noProcWord, Bool.and_eq_true] at h
      cases cs with
      | nil =>
          obtain rfl : ms = [] := List.length_eq_zero_iff.mp (by simpa using hlen)
          exact h.2
      | cons d ds =>
          rw [List.getLast?_cons_cons]
          exact ih (by simpa using hlen) h.2 (by simp)

/-! ## One step of the splitter with the lexer's rules -/

theorem lineCommentCut_eq (text : Text) :
    lineCommentCut text =
      match text.dropWhile (· != '\n') with
      | [] => (text.takeWhile (· != '\n'), none)
      | c :: rest => (text.takeWhile (· != '\n') ++ [c], some rest) := by
  fun_induction lineCommentCut text with
  | case1 => rfl
  | case2 cs => simp
  | case3 c cs hc ih =>
      rw [ih]
      simp only [List.dropWhile_cons, List.takeWhile_cons, bne_iff_ne, ne_eq, hc,
        not_false_eq_true, if_true]
      split <;> rfl

theorem blockCommentCut_getLast {depth : Nat} {text t rest : Text}
    (h : blockCommentCut depth text = (t, some rest)) : t.getLast? = some '/' := by
  have happend : ∀ (u v : Text), v.getLast? = some '/' → (u ++ v).getLast? = some '/' := by
    intro u v hv
    rw [List.getLast?_append, hv]
    rfl
  fun_induction blockCommentCut depth text generalizing t with
  | case1 depth a b cs _ ih =>
      obtain ⟨v, hv, rfl⟩ := Cut.push_eq_closed h
      exact happend _ _ (ih hv)
  | case2 a b cs _ hclose =>
      cases h
      simp [hclose]
  | case3 depth a b cs _ _ _ ih =>
      obtain ⟨v, hv, rfl⟩ := Cut.push_eq_closed h
      exact happend _ _ (ih hv)
  | case4 depth a b cs _ _ ih =>
      obtain ⟨v, hv, rfl⟩ := Cut.push_eq_closed h
      exact happend _ _ (ih hv)
  | case5 => cases h

/-- The splitter's step at a position of code that opens nothing. -/
theorem splitStep_code {position : Nat} {prev : Option Char} {c : Char} {cs : Text}
    (hopen : openedSpan (c :: cs) = none)
    (hproc : ¬ (atWordStart prev ∧ lexerRules.opensProc (c :: cs))) :
    splitStep lexerRules position prev c cs =
      if c = ';' then ⟨none, [c], cs⟩ else ⟨some (.code position c), [c], cs⟩ := by
  have htag : lexerRules.dollarTag (c :: cs) = none := by
    cases htag : lexerRules.dollarTag (c :: cs) with
    | none => rfl
    | some tag =>
        have hstr : dollarTagStr (c :: cs) = some tag := htag
        obtain ⟨tail, rest, rfl, heq, hall⟩ := dollarTagStr_eq_some hstr
        have hsome := (Opened.dollarBody tail rest hall).openedSpan_eq
        rw [heq, hsome] at hopen
        cases hopen
  rw [openedSpan_eq_none_iff] at hopen
  obtain ⟨hline, hblock, hstring, hident, -⟩ := hopen
  rw [splitStep, if_neg (by simp [hstring, hident]), if_neg (fun h => hproc h.2), htag]
  simp only [if_neg hline, if_neg hblock]

/-- Over a region other than a line comment the splitter passes what the lexer passes. -/
theorem splitStep_opened (position : Nat) (prev : Option Char) {c : Char} {cs : Text} {r : Region}
    {cut : Cut} (h : Opened r cut (c :: cs)) (hline : ¬ (c = '-' ∧ cs.head? = some '-')) :
    ∃ push, push.codeChar = none ∧
      splitStep lexerRules position prev c cs = ⟨some push, cut.1, cut.rest⟩ := by
  generalize htext : c :: cs = text at h
  cases h with
  | lineComment ds =>
      cases htext
      exact absurd ⟨rfl, rfl⟩ hline
  | blockComment ds =>
      cases htext
      exact ⟨.blank, rfl, rfl⟩
  | string ds =>
      cases htext
      exact ⟨.quoted _, rfl, rfl⟩
  | quotedIdentifier ds =>
      cases htext
      exact ⟨.quoted _, rfl, rfl⟩
  | dollarBody tail ds htag =>
      rw [List.cons_append] at htext
      cases htext
      have hstr : lexerRules.dollarTag ('$' :: (tail ++ ds)) = some ('$' :: tail) := htag ds
      refine ⟨.blank, rfl, ?_⟩
      rw [splitStep, if_neg (by decide), if_neg (by rintro ⟨h | h, -⟩ <;> cases h), hstr]
      simp only [← List.cons_append, List.drop_left]
      rfl

theorem splitStep_lineComment {position : Nat} {prev : Option Char} (cs : Text) :
    splitStep lexerRules position prev '-' ('-' :: cs) =
      ⟨some .blank, '-' :: '-' :: cs.takeWhile (· != '\n'), cs.dropWhile (· != '\n')⟩ := rfl

theorem Opened.getLast_comment {c : Char} {cs t rest : Text}
    (h : Opened .comment (t, some rest) (c :: cs)) (hline : ¬ (c = '-' ∧ cs.head? = some '-')) :
    t.getLast? = some '/' := by
  generalize hcut : (t, some rest) = cut at h
  generalize htext : c :: cs = text at h
  cases h with
  | lineComment ds =>
      cases htext
      exact absurd ⟨rfl, rfl⟩ hline
  | blockComment ds =>
      obtain ⟨v, hv, rfl⟩ := Cut.push_eq_closed hcut.symm
      rw [List.getLast?_append, blockCommentCut_getLast hv]
      rfl

/-! ## Whole texts -/

theorem splitLoop_ne_nil (rules : SplitRules) (fuel position : Nat) (prev : Option Char)
    (text : Text) : splitLoop rules fuel position prev text ≠ [] := by
  cases fuel with
  | zero => simp [splitLoop]
  | succ fuel =>
      cases text with
      | nil => simp [splitLoop]
      | cons c cs =>
          simp only [splitLoop]
          split
          · generalize splitLoop rules fuel _ _ _ = statements
            cases statements <;> simp [pushFirst]
          · simp

private theorem codeOf_pushFirst_blank {push : Push} (h : push.codeChar = none)
    {statements : List (List Push)} (hne : statements ≠ []) :
    (pushFirst push statements).map codeOf = statements.map codeOf := by
  obtain ⟨first, others, rfl⟩ := List.exists_cons_of_ne_nil hne
  simp [pushFirst, codeOf, h]

private theorem codeOf_pushFirst_code (position : Nat) (c : Char)
    (statements : List (List Push)) :
    (pushFirst (.code position c) statements).map codeOf =
      addFirst (position, c) (statements.map codeOf) := by
  cases statements <;> rfl

/-- A region that is no line comment, before a rest that is split as the lexer reads it. -/
private theorem codeSegments_opened (position : Nat) {prev : Option Char} {c : Char} {cs : Text}
    {r : Region} {cut : Cut} (h : Opened r cut (c :: cs))
    (hline : ¬ (c = '-' ∧ cs.head? = some '-'))
    (hproc : noProcWord prev (c :: cs) (lexMarks (c :: cs))) :
    noProcWord cut.1.getLast? cut.rest (lexMarks cut.rest) ∧
      codeSegments true position (c :: cs) (lexMarks (c :: cs)) =
        codeSegments true (position + cut.1.length) cut.rest (lexMarks cut.rest) := by
  obtain ⟨d, w, hw, hopener⟩ := h.head
  have hr : r ≠ .code := by
    intro hr
    subst hr
    exact hopener
  have hsplit := h.splits
  obtain ⟨t, rest⟩ := cut
  simp only [Cut.Splits] at hsplit hw
  have hne : t ≠ [] := by simp [hw]
  cases rest with
  | none =>
      simp only [Cut.rest, Option.getD_none, List.append_nil] at hsplit
      refine ⟨rfl, ?_⟩
      have hskip := codeSegments_span true hr t [] [⟨r, false⟩] (fun _ _ => rfl) position
      rw [List.append_nil] at hskip
      rw [lexMarks_unclosed h, ← hsplit, hskip]
      rfl
  | some rest =>
      simp only [Cut.rest, Option.getD_some] at hsplit ⊢
      rw [lexMarks_closed h] at hproc ⊢
      rw [← hsplit] at hproc ⊢
      refine ⟨noProcWord_append (spanMarks_length r t) hproc hne, ?_⟩
      apply codeSegments_span true hr
      intro hlast hcomment
      subst hcomment
      rw [h.getLast_comment hline] at hlast
      cases hlast

private theorem spanMarks_concat (r : Region) (c d : Char) (cs : Text) :
    spanMarks r (c :: cs ++ [d]) = spanMarks r (c :: cs) ++ [⟨r, false⟩] := by
  simp [spanMarks, List.replicate_succ']

/-- A line comment, whose newline the splitter leaves to the next step. -/
private theorem codeSegments_lineComment (position : Nat) {prev : Option Char} {cs : Text}
    (hproc : noProcWord prev ('-' :: '-' :: cs) (lexMarks ('-' :: '-' :: cs))) :
    noProcWord ('-' :: '-' :: cs.takeWhile (· != '\n')).getLast? (cs.dropWhile (· != '\n'))
        (lexMarks (cs.dropWhile (· != '\n'))) ∧
      codeSegments true position ('-' :: '-' :: cs) (lexMarks ('-' :: '-' :: cs)) =
        codeSegments true (position + (cs.takeWhile (· != '\n')).length.succ.succ)
          (cs.dropWhile (· != '\n')) (lexMarks (cs.dropWhile (· != '\n'))) := by
  have hopened := Opened.lineComment cs
  have htext := List.takeWhile_append_dropWhile (p := (· != '\n')) (l := cs)
  rw [lineCommentCut_eq] at hopened
  generalize hv : cs.takeWhile (· != '\n') = v at *
  cases hdrop : cs.dropWhile (· != '\n') with
  | nil =>
      rw [hdrop] at hopened htext
      rw [List.append_nil] at htext
      subst htext
      refine ⟨rfl, ?_⟩
      have hskip := codeSegments_span true (r := .comment) (by decide) ('-' :: '-' :: v) []
        [⟨.comment, false⟩] (fun _ _ => rfl) position
      rw [List.append_nil] at hskip
      have hmarks := lexMarks_unclosed hopened
      simp only [List.cons_append, List.nil_append] at hmarks
      rw [hmarks, hskip]
      rfl
  | cons d rest =>
      have hd : d = '\n' := by
        have := List.head?_dropWhile_not (· != '\n') cs
        rw [hdrop] at this
        simpa using this
      subst hd
      rw [hdrop] at hopened htext
      subst htext
      have hmarks := lexMarks_closed hopened
      simp only [List.cons_append, List.nil_append] at hmarks
      have hconcat := spanMarks_concat .comment '-' '\n' ('-' :: v)
      simp only [List.cons_append] at hconcat
      have hcode : openedSpan ('\n' :: rest) = none := openedSpan_of_isInert (by decide) rest
      have hrest : noProcWord (some '\n') rest (lexMarks rest) := by
        rw [hmarks] at hproc
        have hlast : noProcWord ('-' :: '-' :: (v ++ ['\n'])).getLast? rest (lexMarks rest) :=
          noProcWord_append (spanMarks_length .comment _) (by simpa using hproc) (by simp)
        rwa [← List.cons_append, ← List.cons_append, List.getLast?_concat] at hlast
      constructor
      · have hopens : lexerRules.opensProc ('\n' :: rest) = false := by
          have hword := startsWithCi_beginProc (c := '\n') (by decide) rest
          simp only [lexerRules, hword, Bool.false_and]
        rw [lexMarks_code hcode, noProcWord, hrest, hopens, Bool.and_false]
        rfl
      · rw [hmarks, hconcat, List.append_assoc, List.singleton_append]
        have hskip := codeSegments_span true (r := .comment) (by decide) ('-' :: '-' :: v)
          ('\n' :: rest) (⟨.comment, false⟩ :: lexMarks rest) (fun _ _ => rfl) position
        simp only [List.cons_append] at hskip
        rw [hskip, lexMarks_code hcode]
        simp [codeSegments, isCodeChar, endsLine, inCode_lexMarks, codeMark]

/-- With the lexer's rules, and without procedure bodies, the statements hold the code between the
semicolons. -/
theorem splitLoop_codeSegments (fuel position : Nat) (prev : Option Char) (text : Text)
    (hfuel : text.length ≤ fuel) (hproc : noProcWord prev text (lexMarks text)) :
    (splitLoop lexerRules fuel position prev text).map codeOf =
      codeSegments true position text (lexMarks text) := by
  induction fuel generalizing position prev text with
  | zero =>
      obtain rfl : text = [] := List.length_eq_zero_iff.mp (by omega)
      rfl
  | succ fuel ih =>
      cases text with
      | nil => rfl
      | cons c cs =>
          simp only [List.length_cons] at hfuel
          rw [splitLoop]
          cases hopen : openedSpan (c :: cs) with
          | none =>
              rw [lexMarks_code hopen] at hproc ⊢
              rw [noProcWord, Bool.and_eq_true] at hproc
              have hstep := @splitStep_code position prev c cs hopen
                (fun h => by simp [codeMark, h.1, h.2] at hproc)
              have hrest := ih (position + 1) (some c) cs (by omega) hproc.2
              have hcode : isCodeChar true c codeMark (lexMarks cs) := by simp [isCodeChar, codeMark]
              rw [hstep, codeSegments, if_pos hcode]
              by_cases hsemi : c = ';'
              · simp only [if_pos hsemi]
                rw [← hrest]
                rfl
              · simp only [if_neg hsemi]
                rw [codeOf_pushFirst_code, ← hrest]
                rfl
          | some span =>
              obtain ⟨r, cut⟩ := span
              have h := openedSpan_eq_some hopen
              have hlt := h.rest_lt
              simp only [List.length_cons] at hlt
              by_cases hline : c = '-' ∧ cs.head? = some '-'
              · obtain ⟨rfl, hcs⟩ := hline
                obtain ⟨ds, rfl⟩ := List.head?_eq_some_iff.mp hcs
                obtain ⟨hproc', hsegments⟩ := codeSegments_lineComment position hproc
                have hshort := (List.dropWhile_sublist (p := (· != '\n')) (l := ds)).length_le
                simp only [List.length_cons] at hfuel
                have hrest := ih (position + (ds.takeWhile (· != '\n')).length.succ.succ) _ _
                  (by omega) hproc'
                rw [splitStep_lineComment, hsegments, ← hrest]
                exact codeOf_pushFirst_blank rfl (splitLoop_ne_nil _ _ _ _ _)
              · obtain ⟨push, hpush, hstep⟩ := splitStep_opened position prev h hline
                obtain ⟨hproc', hsegments⟩ := codeSegments_opened position h hline hproc
                rw [hstep, hsegments, ← ih _ _ _ (by omega) hproc']
                exact codeOf_pushFirst_blank hpush (splitLoop_ne_nil _ _ _ _ _)

/-! ## With and without the newlines of line comments -/

private theorem codeSegments_ne_nil (newlines : Bool) (i : Nat) (text : Text) (ms : List Mark) :
    codeSegments newlines i text ms ≠ [] := by
  induction text generalizing i ms with
  | nil => simp [codeSegments]
  | cons c cs ih =>
      cases ms with
      | nil => simp [codeSegments]
      | cons m ms =>
          simp only [codeSegments]
          have hrest := ih (i + 1) ms
          generalize codeSegments newlines (i + 1) cs ms = segments at hrest
          split
          · split
            · simp
            · cases segments <;> simp [addFirst]
          · exact hrest

theorem codeSegments_length (i : Nat) (text : Text) (ms : List Mark) :
    (codeSegments false i text ms).length = codeSemicolons text ms + 1 := by
  induction text generalizing i ms with
  | nil => rfl
  | cons c cs ih =>
      cases ms with
      | nil => rfl
      | cons m ms =>
          simp only [codeSegments, codeSemicolons, isCodeChar, Bool.false_and, Bool.or_false,
            beq_iff_eq]
          have hrest := ih (i + 1) ms
          have hne := codeSegments_ne_nil false (i + 1) cs ms
          obtain ⟨first, others, hsegments⟩ := List.exists_cons_of_ne_nil hne
          rw [hsegments] at hrest ⊢
          by_cases hcode : m.region = .code
          · by_cases hsemi : c = ';'
            · simp only [hcode, hsemi, if_true, and_self, List.length_cons] at hrest ⊢
              omega
            · simpa [hcode, hsemi, addFirst] using hrest
          · simpa [hcode] using hrest

/-- How many code characters the segments hold. -/
def codeCount (segments : List (List (Nat × Char))) : Nat :=
  (segments.map List.length).sum

private theorem codeCount_addFirst (x : Nat × Char) (segments : List (List (Nat × Char))) :
    codeCount (addFirst x segments) = codeCount segments + 1 := by
  cases segments with
  | nil => rfl
  | cons first others =>
      simp only [codeCount, addFirst, List.map_cons, List.sum_cons, List.length_cons]
      omega

/-- Counting the newlines in changes nothing or adds characters. -/
theorem codeSegments_newlines (i : Nat) (text : Text) (ms : List Mark) :
    (hasLineEnd text ms = false ∧ codeSegments true i text ms = codeSegments false i text ms) ∨
      (hasLineEnd text ms ∧
        codeCount (codeSegments false i text ms) < codeCount (codeSegments true i text ms)) := by
  induction text generalizing i ms with
  | nil => exact .inl ⟨rfl, rfl⟩
  | cons c cs ih =>
      cases ms with
      | nil => exact .inl ⟨rfl, rfl⟩
      | cons m ms =>
          simp only [hasLineEnd, codeSegments, isCodeChar, Bool.false_and, Bool.or_false,
            Bool.true_and]
          have hrest := ih (i + 1) ms
          generalize codeSegments true (i + 1) cs ms = withNewlines at hrest ⊢
          generalize codeSegments false (i + 1) cs ms = without at hrest ⊢
          cases hend : endsLine c m ms with
          | true =>
              have hparts : c = '\n' ∧ m.region = .comment := by
                simp only [endsLine, Bool.and_eq_true, beq_iff_eq] at hend
                exact hend.1
              refine .inr ⟨by simp, ?_⟩
              rcases hrest with ⟨-, heq⟩ | ⟨-, hlt⟩
              · simp [hparts, heq, codeCount_addFirst]
              · have hadd := codeCount_addFirst (i, '\n') withNewlines
                simp only [hparts, Bool.or_true, if_true]
                simp
                omega
          | false =>
              rcases hrest with ⟨hnone, heq⟩ | ⟨hsome, hlt⟩
              · exact .inl ⟨by simp [hnone], by simp [heq]⟩
              · refine .inr ⟨by simp [hsome], ?_⟩
                by_cases hcode : m.region = .code
                · by_cases hsemi : c = ';'
                  · simpa [hcode, hsemi, codeCount] using hlt
                  · simpa [hcode, hsemi, codeCount_addFirst] using hlt
                · simpa [hcode] using hlt

/-! ## One notion of regions -/

/-- The code characters of the statements that `split_statements` returns. -/
def statementCode (sql : Text) : List (List (Nat × Char)) :=
  (splitPushes splitterRules sql).map codeOf

theorem statementCode_length (sql : Text) :
    (statementCode sql).length = (splitStatements sql).length := by
  simp [statementCode, splitStatements]

/-- One more statement than semicolons of code, and the same code in each. -/
def SplitsLikeLexer (sql : Text) : Prop :=
  (splitStatements sql).length = codeSemicolons sql (lexMarks sql) + 1 ∧
    statementCode sql = codeSegments false 0 sql (lexMarks sql)

instance (sql : Text) : Decidable (SplitsLikeLexer sql) :=
  inferInstanceAs (Decidable (_ ∧ _))

/-- Where the two lexers agree on comments, tags and words, their statements are the same up to the
newlines that end line comments, and the same exactly when there are none. -/
theorem splits_like_lexer_iff (sql : Text)
    (hproc : noProcWord none sql (lexMarks sql)) (halike : alike sql) :
    statementCode sql = codeSegments true 0 sql (lexMarks sql) ∧
      (SplitsLikeLexer sql ↔ hasLineEnd sql (lexMarks sql) = false) := by
  have hcode : statementCode sql = codeSegments true 0 sql (lexMarks sql) := by
    rw [statementCode, splitPushes_alike halike]
    exact splitLoop_codeSegments sql.length 0 none sql (Nat.le_refl _) hproc
  refine ⟨hcode, ?_⟩
  rw [SplitsLikeLexer, ← statementCode_length, hcode, ← codeSegments_length 0]
  rcases codeSegments_newlines 0 sql (lexMarks sql) with ⟨hnone, heq⟩ | ⟨hsome, hlt⟩
  · simp [hnone, heq]
  · constructor
    · intro ⟨_, heq⟩
      rw [heq] at hlt
      exact absurd hlt (Nat.lt_irrefl _)
    · intro hnone
      rw [hsome] at hnone
      cases hnone

/-- A comment that opens no other one hides its semicolon from both. -/
theorem comment_hides_semicolon : SplitsLikeLexer "a/*;*/;'b;'".toList :=
  (splits_like_lexer_iff _ (by decide) (by decide)).2.mpr (by decide)

/-- The splitter leaves a nested comment at its first `*/`. -/
theorem nested_comment_splits :
    ¬ ∀ sql : Text, '\x00' ∉ sql → noProcWord none sql (lexMarks sql) → SplitsLikeLexer sql := by
  intro h
  exact absurd (h "/*/**/;*/".toList (by decide) (by decide)) (by decide)

end NzRust.Sql
