import NzRust.Sql.Injection

/-!
# Regions kept by the substitutions

Both substitutions cut their template as `Scanned` says. For `$n` templates the
parts are read off the placeholders that `parse` found, for named and `?`
parameters they are the pushes of the scan itself. The last section decides
when the output keeps the regions of the template.
-/

namespace NzRust.Sql

variable {N : Numerics}

/-- The template text that a part stands for. -/
def Part.source : Part → Text
  | .copied _ text => text
  | .literal token _ => token

def sourceOf (parts : List Part) : Text :=
  parts.flatMap Part.source

/-- The copied parts lie in the regions of the template. -/
def aligned : List Part → List Mark → Bool
  | [], _ => true
  | .copied r t :: parts, marks =>
      (marks.take t.length).all (·.region == r) && aligned parts (marks.drop t.length)
  | .literal token _ :: parts, marks => aligned parts (marks.drop token.length)

@[simp] theorem sourceOf_nil : sourceOf [] = [] := rfl

@[simp] theorem sourceOf_cons (part : Part) (parts : List Part) :
    sourceOf (part :: parts) = part.source ++ sourceOf parts := rfl

theorem Scanned.sourceOf_eq {text : Text} {parts : List Part} (h : Scanned text parts) :
    sourceOf parts = text := by
  induction h with
  | nil => rfl
  | closed h _ ih =>
      have hsplit := h.splits
      rw [sourceOf_cons, ih]
      exact hsplit
  | unclosed h =>
      have hsplit := h.splits
      rw [sourceOf_cons, sourceOf_nil]
      exact hsplit
  | code _ _ ih => rw [sourceOf_cons, ih]; rfl
  | doubleColon _ ih => rw [sourceOf_cons, ih]; rfl
  | literal _ _ _ _ ih => rw [sourceOf_cons, ih]; rfl

/-- A scan goes on behind a region, closed or not. -/
theorem Scanned.opened {text : Text} {r : Region} {cut : Cut} {parts : List Part}
    (h : Opened r cut text) (tail : Scanned cut.rest parts) :
    Scanned text (.copied r cut.1 :: parts) := by
  obtain ⟨t, rest⟩ := cut
  cases rest with
  | some rest => exact .closed h tail
  | none =>
      generalize hnil : Cut.rest (t, none) = text' at tail
      cases tail with
      | nil => exact .unclosed h
      | closed h' | unclosed h' =>
          have hlt := h'.rest_lt
          rw [← hnil] at hlt
          cases hlt
      | code | doubleColon => cases hnil
      | literal _ htoken => cases htoken <;> cases hnil

/-! ## The template's own regions -/

private theorem isInert_of_isIdentifierPart {c : Char} (h : isIdentifierPart c) (hc : c ≠ '$') :
    isInert c := by
  by_contra hn
  simp only [isInert, Bool.not_eq_true', Bool.not_eq_false, Bool.or_eq_true, beq_iff_eq] at hn
  rcases hn with (((rfl | rfl) | rfl) | rfl) | rfl
  · exact absurd h (by decide)
  · exact absurd h (by decide)
  · exact absurd h (by decide)
  · exact absurd h (by decide)
  · exact hc rfl

/-- A placeholder is code for the lexer, unless its name holds a `$`. -/
theorem Placeholder.lexMarks_token {token rest : Text} (htoken : Placeholder token)
    (h : openedSpan (token ++ rest) = none) (hname : '$' ∉ token.tail) :
    lexMarks (token ++ rest) = List.replicate token.length codeMark ++ lexMarks rest := by
  cases htoken with
  | @numbered digits hdigits =>
      rw [List.cons_append] at h ⊢
      have hinert : digits.all isInert := by
        rw [List.all_eq_true] at *
        intro c hc
        exact isInert_of_isDigit (hdigits c hc)
      rw [lexMarks_code h, lexMarks_inert hinert]
      rfl
  | question => exact lexMarks_inert (by decide) rest
  | @named c name hc hpart =>
      have hinert : (c :: name).all isInert := by
        rw [List.all_cons, Bool.and_eq_true, List.all_eq_true]
        rw [List.all_eq_true] at hpart
        refine ⟨by rcases hc with rfl | rfl <;> decide, fun d hd => ?_⟩
        exact isInert_of_isIdentifierPart (hpart d hd) fun heq => hname (heq ▸ hd)
      exact lexMarks_inert hinert rest

/-- No `$` behind the first character of a placeholder. -/
def Part.plainName : Part → Bool
  | .copied _ _ => true
  | .literal token _ => !token.tail.contains '$'

def plainNames (parts : List Part) : Bool :=
  parts.all Part.plainName

private theorem aligned_copied {r : Region} {t : Text} {parts : List Part} {marks ms : List Mark}
    (hlen : ms.length = t.length) (hall : ∀ m ∈ ms, m.region = r) :
    aligned (.copied r t :: parts) (ms ++ marks) = aligned parts marks := by
  have hregion : ms.all (·.region == r) := by
    rw [List.all_eq_true]
    intro m hm
    simp [hall m hm]
  rw [aligned, ← hlen, List.take_left, List.drop_left, hregion, Bool.true_and]

theorem Scanned.aligned_lexMarks {text : Text} {parts : List Part} (h : Scanned text parts)
    (hname : plainNames parts) : aligned parts (lexMarks text) := by
  induction h with
  | nil => rfl
  | closed h _ ih =>
      rw [lexMarks_closed h, aligned_copied (spanMarks_length _ _) (fun m hm => spanMarks_region hm)]
      exact ih hname
  | unclosed h =>
      rw [lexMarks_unclosed h,
        aligned_copied (spanMarks_length _ _) (fun m hm => spanMarks_region hm)]
      rfl
  | code h _ ih =>
      rw [lexMarks_code h]
      exact ih hname
  | @doubleColon cs parts _ ih =>
      have hmarks := lexMarks_inert (t := [':', ':']) (by decide) cs
      simp only [List.cons_append, List.nil_append] at hmarks
      rw [hmarks]
      exact ih hname
  | @literal token t rest parts h htoken ht _ ih =>
      simp only [plainNames, List.all_cons, Bool.and_eq_true] at hname
      have hplain : '$' ∉ token.tail := by simpa [Part.plainName] using hname.1
      rw [htoken.lexMarks_token h hplain, aligned, List.drop_left' (by simp)]
      exact ih hname.2

/-! ## Numbered templates -/

/-- The parts of a `$n` template. A literal that the rendering would refuse is left empty. -/
def numberedLoop (params : List (NzValue N)) : Nat → Text → List Part
  | 0, _ => []
  | _ + 1, [] => []
  | fuel + 1, c :: cs =>
      match openedSpan (c :: cs) with
      | some (r, cut) => .copied r cut.1 :: numberedLoop params fuel cut.rest
      | none =>
          match dollarNumber (c :: cs) with
          | some n =>
              let index := (parseUsize (cs.take n)).getD 0
              .literal (c :: cs.take n) ((literalAt params (index - 1)).toOption.getD []) ::
                numberedLoop params fuel (cs.drop n)
          | none => .copied .code [c] :: numberedLoop params fuel cs

def numberedParts (sql : Text) (params : List (NzValue N)) : List Part :=
  numberedLoop params sql.length sql

private theorem dollarNumber_eq_some {c : Char} {cs : Text} {n : Nat}
    (h : dollarNumber (c :: cs) = some n) :
    c = '$' ∧ n ≤ cs.length ∧ (cs.take n).all Char.isDigit := by
  simp only [dollarNumber] at h
  split_ifs at h with hc
  cases h
  refine ⟨hc, (List.takeWhile_prefix _).length_le, ?_⟩
  rw [← List.prefix_iff_eq_take.mp (List.takeWhile_prefix _)]
  exact List.all_takeWhile

theorem literalAt_literal (hN : PrintsNumbers N) {params : List (NzValue N)} {k : Nat} {t : Text}
    (h : literalAt params k = .ok t) : Literal t := by
  unfold literalAt at h
  split at h
  · exact escapeLiteral_literal hN h
  · cases h

private theorem slice_extend {source t rest : Text} {i previous : Nat} (hi : i ≤ source.length)
    (hdrop : source.drop i = t ++ rest) (hprev : previous ≤ i) :
    (source.take (i + t.length)).drop previous = (source.take i).drop previous ++ t ∧
      source.drop (i + t.length) = rest ∧ i + t.length ≤ source.length := by
  have hlen : source.length - i = t.length + rest.length := by
    rw [← List.length_drop, hdrop, List.length_append]
  refine ⟨?_, ?_, by omega⟩
  · rw [List.take_add, hdrop, List.take_left, List.drop_append_of_le_length (by simp; omega)]
  · rw [← List.drop_drop, hdrop, List.drop_left]

/-- The rendering of the placeholders found from position `i` on. -/
theorem renderLoop_eq (hN : PrintsNumbers N) (params : List (NzValue N)) (source : Text) :
    ∀ (fuel i previous : Nat) (text result : Text) (used : List Nat) (out : Text × List Nat),
      text.length ≤ fuel → i ≤ source.length → source.drop i = text → previous ≤ i →
      renderLoop source params.length (literalAt params) (parseLoop fuel i text) previous result
        used = .ok out →
      Scanned text (numberedLoop params fuel text) ∧
        out.1 = result ++ (source.take i).drop previous ++
          outputOf (numberedLoop params fuel text) := by
  intro fuel
  induction fuel with
  | zero =>
      intro i previous text result used out hlen hi hdrop hprev h
      obtain rfl : text = [] := List.length_eq_zero_iff.mp (by omega)
      cases h
      have hend : source.length ≤ i := List.drop_eq_nil_iff.mp hdrop
      exact ⟨.nil, by simp [numberedLoop, List.take_of_length_le hend]⟩
  | succ fuel ih =>
      intro i previous text result used out hlen hi hdrop hprev h
      cases text with
      | nil =>
          cases h
          have hend : source.length ≤ i := List.drop_eq_nil_iff.mp hdrop
          exact ⟨.nil, by simp [numberedLoop, List.take_of_length_le hend]⟩
      | cons c cs =>
          rw [parseLoop] at h
          rw [numberedLoop]
          cases hopen : openedSpan (c :: cs) with
          | some span =>
              obtain ⟨r, cut⟩ := span
              simp only [hopen] at h ⊢
              have hopened := openedSpan_eq_some hopen
              have hrest := hopened.rest_lt
              obtain ⟨hslice, hdrop', hi'⟩ :=
                slice_extend hi (hdrop.trans hopened.splits.symm) hprev
              obtain ⟨hscan, hout⟩ := ih _ previous cut.rest result used out
                (by simp only [List.length_cons] at hlen hrest; omega) hi' hdrop' (by omega) h
              refine ⟨Scanned.opened hopened hscan, ?_⟩
              rw [hout, hslice, outputOf_cons, Part.text]
              simp only [List.append_assoc]
          | none =>
              simp only [hopen] at h ⊢
              cases hnum : dollarNumber (c :: cs) with
              | none =>
                  simp only [hnum] at h ⊢
                  obtain ⟨hslice, hdrop', hi'⟩ :=
                    slice_extend hi (show source.drop i = [c] ++ cs from hdrop) hprev
                  obtain ⟨hscan, hout⟩ := ih _ previous cs result used out
                    (by simp only [List.length_cons] at hlen; omega) hi' hdrop'
                    (Nat.le_add_right_of_le hprev) h
                  refine ⟨.code hopen hscan, ?_⟩
                  rw [hout, hslice, outputOf_cons, Part.text]
                  simp only [List.append_assoc]
              | some n =>
                  simp only [hnum] at h ⊢
                  obtain ⟨rfl, hn, hdigits⟩ := dollarNumber_eq_some hnum
                  rw [renderLoop] at h
                  split_ifs at h with hrange
                  have htoken : ('$' :: cs.take n) ++ cs.drop n = '$' :: cs := by simp
                  have hlength : ('$' :: cs.take n).length = 1 + n := by
                    simp only [List.length_cons, List.length_take]
                    omega
                  obtain ⟨-, hdrop', hi'⟩ := slice_extend hi (hdrop.trans htoken.symm) hprev
                  rw [hlength, ← Nat.add_assoc] at hdrop' hi'
                  cases hlit : literalAt params ((parseUsize (cs.take n)).getD 0 - 1) with
                  | error e => simp only [hlit] at h; cases h
                  | ok t =>
                      simp only [hlit] at h ⊢
                      obtain ⟨hscan, hout⟩ := ih _ _ _ _ _ out
                        (by simp only [List.length_cons, List.length_drop] at hlen ⊢; omega)
                        hi' hdrop' (Nat.le_refl _) h
                      refine ⟨?_, ?_⟩
                      · have hpart := Scanned.literal (htoken ▸ hopen) (.numbered hdigits)
                          (literalAt_literal hN hlit) hscan
                        rwa [htoken] at hpart
                      · have hnone : (source.take (i + 1 + n)).drop (i + 1 + n) = [] :=
                          List.drop_of_length_le (List.length_take_le _ _)
                        rw [hout, hnone, outputOf_cons, Part.text]
                        simp [Except.toOption]

theorem substituteParameters_parts (hN : PrintsNumbers N) {sql : Text} {params : List (NzValue N)}
    {out : Text} (h : substituteParameters sql params = .ok out) :
    Scanned sql (numberedParts sql params) ∧ outputOf (numberedParts sql params) = out := by
  simp only [substituteParameters, SqlTemplate.parse] at h
  split_ifs at h with hnul
  simp only [SqlTemplate.render] at h
  cases hloop : renderLoop sql params.length (literalAt params) (parseLoop sql.length 0 sql) 0 [] []
    with
  | error e => simp only [hloop] at h; cases h
  | ok result =>
      simp only [hloop] at h
      split_ifs at h with hused
      cases h
      obtain ⟨hscan, hout⟩ := renderLoop_eq hN params sql sql.length 0 0 sql [] [] result
        (Nat.le_refl _) (Nat.zero_le _) rfl (Nat.le_refl _) hloop
      exact ⟨hscan, by simpa [numberedParts] using hout.symm⟩

/-! ## Named and question-mark parameters -/

/-- The parts that the scan of `substitute_bound_parameters` pushes. -/
def boundParts (sql : Text) (params : List (NzParameter N)) : List Part :=
  ((boundScan sql params).toOption.map BoundScan.result).getD []

/-- The shapes behind the leads of a scan. -/
theorem leadAt_cases (named positional : Bool) (c : Char) (cs : Text) :
    (leadAt named positional (c :: cs) = .code) ∨
    (leadAt named positional (c :: cs) = .doubleColon ∧ c = ':' ∧ ∃ ds, cs = ':' :: ds) ∨
    (∃ n, leadAt named positional (c :: cs) = .numbered n ∧ c = '$' ∧ n ≤ cs.length ∧
      (cs.take n).all Char.isDigit) ∨
    (leadAt named positional (c :: cs) = .named (cs.takeWhile isIdentifierPart) ∧
      (c = ':' ∨ c = '@')) ∨
    (leadAt named positional (c :: cs) = .question ∧ c = '?') := by
  simp only [leadAt]
  cases hnum : (if positional then dollarNumber (c :: cs) else none) with
  | some n =>
      split_ifs at hnum
      exact .inr (.inr (.inl ⟨n, rfl, dollarNumber_eq_some hnum⟩))
  | none =>
      simp only
      split_ifs with hcolon hname hquestion
      · exact .inr (.inl ⟨rfl, hcolon.2.1, List.head?_eq_some_iff.mp hcolon.2.2⟩)
      · exact .inr (.inr (.inr (.inl ⟨rfl, hname.2.1⟩)))
      · exact .inr (.inr (.inr (.inr ⟨rfl, hquestion.2⟩)))
      · exact .inl rfl

theorem numberedLiteral_literal (hN : PrintsNumbers N) {params : List (NzParameter N)}
    {token t : Text} {k : Nat} (h : numberedLiteral params token = .ok (k, t)) : Literal t := by
  unfold numberedLiteral at h
  split at h
  · cases h
  · split at h
    · cases h
    case h_2 param _ =>
      cases hlit : escapeLiteral param.value with
      | error e => rw [hlit] at h; cases h
      | ok u =>
          rw [hlit] at h
          cases h
          exact escapeLiteral_literal hN hlit

theorem namedLiteral_literal (hN : PrintsNumbers N) {params : List (NzParameter N)}
    {token t : Text} (h : namedLiteral params token = .ok t) : Literal t := by
  unfold namedLiteral at h
  split at h
  · cases h
  · exact escapeLiteral_literal hN h

theorem questionLiteral_literal (hN : PrintsNumbers N) {params : List (NzParameter N)} {k : Nat}
    {t : Text} (h : questionLiteral params k = .ok t) : Literal t := by
  unfold questionLiteral at h
  split at h
  · cases h
  · exact escapeLiteral_literal hN h

theorem boundLoop_parts (hN : PrintsNumbers N) (params : List (NzParameter N))
    (named positional : Bool) :
    ∀ (fuel : Nat) (text : Text) (scan scan' : BoundScan), text.length ≤ fuel →
      boundLoop params named positional fuel scan text = .ok scan' →
      ∃ parts, scan'.result = scan.result ++ parts ∧ Scanned text parts := by
  intro fuel
  induction fuel with
  | zero =>
      intro text scan scan' hlen h
      obtain rfl : text = [] := List.length_eq_zero_iff.mp (by omega)
      cases h
      exact ⟨[], by simp, .nil⟩
  | succ fuel ih =>
      intro text scan scan' hlen h
      cases text with
      | nil =>
          cases h
          exact ⟨[], by simp, .nil⟩
      | cons c cs =>
          simp only [List.length_cons] at hlen
          rw [boundLoop] at h
          cases hopen : openedSpan (c :: cs) with
          | some span =>
              obtain ⟨r, cut⟩ := span
              simp only [hopen] at h
              have hopened := openedSpan_eq_some hopen
              have hlt := hopened.rest_lt
              simp only [List.length_cons] at hlt
              obtain ⟨parts, hres, hscan⟩ := ih _ _ _ (by omega) h
              exact ⟨_, by rw [hres, BoundScan.push, List.append_assoc, List.singleton_append],
                Scanned.opened hopened hscan⟩
          | none =>
              simp only [hopen] at h
              rcases leadAt_cases named positional c cs with
                hlead | ⟨hlead, rfl, ds, rfl⟩ | ⟨n, hlead, rfl, hn, hdigits⟩ | ⟨hlead, hc⟩ |
                ⟨hlead, rfl⟩
              · simp only [hlead] at h
                obtain ⟨parts, hres, hscan⟩ := ih _ _ _ (by omega) h
                exact ⟨_, by rw [hres, BoundScan.push, List.append_assoc, List.singleton_append],
                  .code hopen hscan⟩
              · simp only [hlead, List.tail_cons] at h
                simp only [List.length_cons] at hlen
                obtain ⟨parts, hres, hscan⟩ := ih _ _ _ (by omega) h
                exact ⟨_, by rw [hres, BoundScan.push, List.append_assoc, List.singleton_append],
                  .doubleColon hscan⟩
              · simp only [hlead] at h
                have htoken : ('$' :: cs.take n) ++ cs.drop n = '$' :: cs := by simp
                cases hlit : numberedLiteral params ('$' :: cs.take n) with
                | error e => simp only [hlit] at h; cases h
                | ok found =>
                    obtain ⟨index, t⟩ := found
                    simp only [hlit] at h
                    obtain ⟨parts, hres, hscan⟩ := ih _ _ _ (by simp only [List.length_drop]; omega) h
                    refine ⟨_, by rw [hres, BoundScan.pushPositional, List.append_assoc,
                      List.singleton_append], ?_⟩
                    have hpart := Scanned.literal (htoken ▸ hopen) (.numbered hdigits)
                      (numberedLiteral_literal hN hlit) hscan
                    rwa [htoken] at hpart
              · simp only [hlead] at h
                have hname : cs.drop (cs.takeWhile isIdentifierPart).length =
                    cs.dropWhile isIdentifierPart := by
                  conv_lhs => arg 2; rw [← List.takeWhile_append_dropWhile (p := isIdentifierPart) (l := cs)]
                  rw [List.drop_left]
                have htoken : (c :: cs.takeWhile isIdentifierPart) ++ cs.dropWhile isIdentifierPart =
                    c :: cs := by simp
                cases hlit : namedLiteral params (c :: cs.takeWhile isIdentifierPart) with
                | error e => simp only [hlit] at h; cases h
                | ok t =>
                    simp only [hlit, hname] at h
                    obtain ⟨parts, hres, hscan⟩ := ih _ _ _
                      (by have := (List.dropWhile_sublist (p := isIdentifierPart) (l := cs)).length_le
                          omega) h
                    refine ⟨_, by rw [hres, BoundScan.pushNamed, List.append_assoc,
                      List.singleton_append], ?_⟩
                    have hpart := Scanned.literal (htoken ▸ hopen) (.named hc List.all_takeWhile)
                      (namedLiteral_literal hN hlit) hscan
                    rwa [htoken] at hpart
              · simp only [hlead] at h
                cases hlit : questionLiteral params scan.positionalIndex with
                | error e => simp only [hlit] at h; cases h
                | ok t =>
                    simp only [hlit] at h
                    obtain ⟨parts, hres, hscan⟩ := ih _ _ _ (by omega) h
                    refine ⟨_, by rw [hres, BoundScan.pushQuestion, List.append_assoc,
                      List.singleton_append], ?_⟩
                    have htoken : Placeholder ['?'] := .question
                    exact Scanned.literal hopen htoken (questionLiteral_literal hN hlit) hscan

/-- Without parameters the scan copies the template. -/
theorem boundLoop_no_params :
    ∀ (fuel : Nat) (text : Text) (scan : BoundScan),
      ∃ scan' parts, boundLoop ([] : List (NzParameter N)) false false fuel scan text = .ok scan' ∧
        scan'.result = scan.result ++ parts ∧ outputOf parts = sourceOf parts := by
  intro fuel
  induction fuel with
  | zero => exact fun text scan => ⟨scan, [], by simp [boundLoop], by simp, rfl⟩
  | succ fuel ih =>
      intro text scan
      cases text with
      | nil => exact ⟨scan, [], by simp [boundLoop], by simp, rfl⟩
      | cons c cs =>
          cases hopen : openedSpan (c :: cs) with
          | some span =>
              obtain ⟨r, cut⟩ := span
              obtain ⟨scan', parts, hrun, hres, hout⟩ := ih cut.rest (scan.push (.copied r cut.1))
              refine ⟨scan', .copied r cut.1 :: parts, by simp only [boundLoop, hopen, hrun], ?_, ?_⟩
              · rw [hres, BoundScan.push, List.append_assoc, List.singleton_append]
              · rw [outputOf_cons, sourceOf_cons, hout]
                rfl
          | none =>
              obtain ⟨scan', parts, hrun, hres, hout⟩ := ih cs (scan.push (.copied .code [c]))
              refine ⟨scan', .copied .code [c] :: parts, ?_, ?_, ?_⟩
              · simp only [boundLoop, hopen]
                exact hrun
              · rw [hres, BoundScan.push, List.append_assoc, List.singleton_append]
              · rw [outputOf_cons, sourceOf_cons, hout]
                rfl

theorem boundParts_scanned (hN : PrintsNumbers N) {sql : Text} {params : List (NzParameter N)}
    {scan : BoundScan} (h : boundScan sql params = .ok scan) :
    Scanned sql (boundParts sql params) ∧ boundParts sql params = scan.result := by
  obtain ⟨parts, hres, hscan⟩ := boundLoop_parts hN params _ _ sql.length sql {} scan
    (Nat.le_refl _) h
  have hparts : boundParts sql params = scan.result := by
    rw [boundParts, h]
    rfl
  rw [hparts, hres]
  exact ⟨hscan, rfl⟩

theorem substituteBoundParameters_parts (hN : PrintsNumbers N) {sql : Text}
    {params : List (NzParameter N)} {out : Text}
    (h : substituteBoundParameters sql params = .ok out) :
    Scanned sql (boundParts sql params) ∧ outputOf (boundParts sql params) = out := by
  simp only [substituteBoundParameters] at h
  split_ifs at h with hnul hempty hmixed
  · -- no parameters: the text is returned as it is
    obtain rfl : params = [] := List.isEmpty_iff.mp hempty
    obtain ⟨scan, parts, hrun, hres, hout⟩ := boundLoop_no_params (N := N) sql.length sql {}
    obtain ⟨hscan, hparts⟩ := boundParts_scanned hN hrun
    have hcopy : outputOf (boundParts sql ([] : List (NzParameter N))) = sql := by
      rw [hparts, hres]
      have hsource := hscan.sourceOf_eq
      rw [hparts, hres] at hsource
      exact hout.trans hsource
    cases hfirst : firstPlaceholder sql with
    | some token => simp only [hfirst] at h; cases h
    | none =>
        simp only [hfirst] at h
        cases h
        exact ⟨hscan, hcopy⟩
  · cases hrun : boundScan sql params with
    | error e => simp only [hrun] at h; cases h
    | ok scan =>
        simp only [hrun] at h
        obtain ⟨hscan, hparts⟩ := boundParts_scanned hN hrun
        cases hused : checkUsed params scan with
        | error e => simp only [hused] at h; cases h
        | ok u =>
            simp only [hused] at h
            cases h
            exact ⟨hscan, by rw [hparts]⟩

/-! ## When the regions are kept -/

/-- The parts account for every character of the template and of the output, and the copied ones
lie in the template's regions. -/
structure Accounts (sql out : Text) (parts : List Part) : Prop where
  source : sourceOf parts = sql
  output : outputOf parts = out
  regions : plainNames parts → aligned parts (lexMarks sql)

theorem Scanned.accounts {sql : Text} {parts : List Part} (h : Scanned sql parts) {out : Text}
    (hout : outputOf parts = out) : Accounts sql out parts :=
  ⟨h.sourceOf_eq, hout, h.aligned_lexMarks⟩

/-- A substitution keeps the regions of its template exactly when no two neighbouring parts
clash. -/
theorem regions_kept_iff_clash_free (hN : PrintsNumbers N) (sql : Text) :
    (∀ (params : List (NzValue N)) (out : Text), substituteParameters sql params = .ok out →
      Accounts sql out (numberedParts sql params) ∧
        (regionsKept (numberedParts sql params) (lexMarks out) ↔
          clashFree (numberedParts sql params))) ∧
    (∀ (params : List (NzParameter N)) (out : Text),
      substituteBoundParameters sql params = .ok out →
      Accounts sql out (boundParts sql params) ∧
        (regionsKept (boundParts sql params) (lexMarks out) ↔
          clashFree (boundParts sql params))) := by
  constructor
  · intro params out h
    obtain ⟨hscan, hout⟩ := substituteParameters_parts hN h
    refine ⟨hscan.accounts hout, ?_⟩
    rw [← hout, hscan.regionsKept_iff]
  · intro params out h
    obtain ⟨hscan, hout⟩ := substituteBoundParameters_parts hN h
    refine ⟨hscan.accounts hout, ?_⟩
    rw [← hout, hscan.regionsKept_iff]

/-- Numbers without fractions, which `Display` prints like integers. -/
def wholeNumbers : Numerics where
  F32 := Int
  F64 := Int
  Decimal := Int
  f32ToF64 := id
  f64IsFinite _ := true
  displayF64 := displayInt
  displayDecimal := displayInt

theorem wholeNumbers_prints : PrintsNumbers wholeNumbers :=
  ⟨fun x _ => validNumericLiteral_displayInt x, validNumericLiteral_displayInt⟩

/-- A quoted name goes into a comparison, first as `$1` and then as `:name`. -/
theorem quoted_name_stays_apart :
    regionsKept (numberedParts "a = $1 -- b".toList
        [NzValue.text (N := wholeNumbers) "O'B".toList])
      (lexMarks "a = 'O''B' -- b".toList) ∧
    regionsKept (boundParts "a = :b".toList
        [NzParameter.named "b".toList (NzValue.text (N := wholeNumbers) "O'B".toList)])
      (lexMarks "a = 'O''B'".toList) :=
  ⟨(((regions_kept_iff_clash_free wholeNumbers_prints _).1 _ _ (by decide)).2).mpr (by decide),
    (((regions_kept_iff_clash_free wholeNumbers_prints _).2 _ _ (by decide)).2).mpr (by decide)⟩

/-- A negative number behind a minus sign turns the rest of the line into a comment. -/
theorem negative_literal_opens_comment :
    substituteParameters "5-$1".toList [NzValue.int4 (N := wholeNumbers) (-3)] =
        .ok "5--3".toList ∧
      ¬ ∀ (sql : Text) (params : List (NzValue wholeNumbers)) (out : Text),
        substituteParameters sql params = .ok out →
        regionsKept (numberedParts sql params) (lexMarks out) := by
  have hsub : substituteParameters "5-$1".toList [NzValue.int4 (N := wholeNumbers) (-3)] =
      .ok "5--3".toList := by decide
  refine ⟨hsub, fun h => ?_⟩
  have hkept := h _ _ _ hsub
  exact absurd hkept (by decide)

end NzRust.Sql
