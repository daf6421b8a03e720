import NzRust.Sql.Literals

/-!
# Substitution and the regions of a template

A substituted text is a list of parts, copies of the template and literals.
`regionsKept` says that lexing the whole text gives every copied character the
region in which the substituting scan passed it and brings the lexer to rest in
code at both ends of every literal. Literals are escaped one by one and the
text is lexed as a whole, so neighbours can clash: `clash` lists the pairs that do.
-/

namespace NzRust.Sql

variable {N : Numerics}

/-- Copied characters have their region, and literals begin and end in code. -/
def regionsKept : List Part → List Mark → Bool
  | [], _ => true
  | .copied r t :: parts, marks =>
      (marks.take t.length).all (·.region == r) && regionsKept parts (marks.drop t.length)
  | .literal _ t :: parts, marks =>
      inCode marks && inCode (marks.drop t.length) && regionsKept parts (marks.drop t.length)

/-- The text in front of the parts would read on as a dollar tag. -/
def tagAhead : List Part → Bool
  | .copied .code [c] :: parts => c == '$' || (isTagChar c && tagAhead parts)
  | .copied .dollarBody _ :: _ => true
  | .literal _ t :: parts => t.all isTagChar && tagAhead parts
  | _ => false

/-- The next part is a literal that opens with this character. -/
def literalOpens (c : Char) : List Part → Bool
  | .literal _ t :: _ => t.head? == some c
  | _ => false

/-- A part whose reading depends on what was put behind it: a minus sign or a `$` of the template
before a literal, and two quotations that touch. -/
def clash : Part → List Part → Bool
  | .copied .code t, parts =>
      (t == ['-'] && literalOpens '-' parts) || (t == ['$'] && tagAhead parts)
  | .copied .string _, parts => literalOpens '\'' parts
  | .copied _ _, _ => false
  | .literal _ t, parts => endsQuoted t && (outputOf parts).head? == some '\''

def clashFree : List Part → Bool
  | [] => true
  | part :: parts => !clash part parts && clashFree parts

/-- A placeholder as the scans cut it. -/
inductive Placeholder : Text → Prop where
  | numbered {digits : Text} (h : digits.all Char.isDigit) : Placeholder ('$' :: digits)
  | question : Placeholder ['?']
  | named {c : Char} {name : Text} (hc : c = ':' ∨ c = '@') (h : name.all isIdentifierPart) :
      Placeholder (c :: name)

/-- How both substitutions cut a template into parts. -/
inductive Scanned : Text → List Part → Prop where
  | nil : Scanned [] []
  | closed {text t rest : Text} {r : Region} {parts : List Part}
      (h : Opened r (t, some rest) text) (tail : Scanned rest parts) :
      Scanned text (.copied r t :: parts)
  | unclosed {text t : Text} {r : Region} (h : Opened r (t, none) text) :
      Scanned text [.copied r t]
  | code {c : Char} {cs : Text} {parts : List Part} (h : openedSpan (c :: cs) = none)
      (tail : Scanned cs parts) : Scanned (c :: cs) (.copied .code [c] :: parts)
  | doubleColon {cs : Text} {parts : List Part} (tail : Scanned cs parts) :
      Scanned (':' :: ':' :: cs) (.copied .code [':', ':'] :: parts)
  | literal {token t rest : Text} {parts : List Part} (h : openedSpan (token ++ rest) = none)
      (htoken : Placeholder token) (ht : Literal t) (tail : Scanned rest parts) :
      Scanned (token ++ rest) (.literal token t :: parts)

@[simp] theorem outputOf_nil : outputOf [] = [] := rfl

@[simp] theorem outputOf_cons (part : Part) (parts : List Part) :
    outputOf (part :: parts) = part.text ++ outputOf parts := rfl

/-! ## What a part sees behind it -/

private theorem tagTail_opener {r : Region} {c : Char} (h : r.opener c) (t cs : Text)
    (parts : List Part) : (tagTail (c :: cs)).isSome = tagAhead (.copied r t :: parts) := by
  cases r with
  | code => exact h.elim
  | string => cases h; rfl
  | quotedIdentifier => cases h; rfl
  | comment => rcases h with rfl | rfl <;> rfl
  | dollarBody => cases h; rfl

private theorem tagTail_tagChars {t : Text} (h : t.all isTagChar) (rest : Text) :
    (tagTail (t ++ rest)).isSome = (tagTail rest).isSome := by
  induction t with
  | nil => rfl
  | cons c cs ih =>
      simp only [List.all_cons, Bool.and_eq_true] at h
      have hc : c ≠ '$' := by
        intro hc
        rw [hc] at h
        exact absurd h.1 (by decide)
      rw [List.cons_append, tagTail, if_neg hc, if_pos h.1, Option.isSome_map, ih h.2]

theorem Scanned.tagTail_isSome {text : Text} {parts : List Part} (h : Scanned text parts) :
    (tagTail (outputOf parts)).isSome = tagAhead parts := by
  induction h with
  | nil => rfl
  | @closed text t rest r parts h _ ih =>
      obtain ⟨c, w, hw, hc⟩ := h.head
      simp only at hw
      rw [outputOf_cons, Part.text, hw, List.cons_append]
      exact tagTail_opener hc _ _ _
  | @unclosed text t r h =>
      obtain ⟨c, w, hw, hc⟩ := h.head
      simp only at hw
      rw [outputOf_cons, Part.text, hw, List.cons_append]
      exact tagTail_opener hc _ _ _
  | @code c cs parts h _ ih =>
      rw [outputOf_cons, Part.text, List.singleton_append, tagTail, tagAhead]
      by_cases hc : c = '$'
      · simp [hc]
      by_cases ht : isTagChar c
      · simp [hc, ht, ih]
      · simp [hc, ht]
  | doubleColon _ ih => rfl
  | @literal token t rest parts h htoken ht _ ih =>
      obtain ⟨c, cs, hcs, -, hdollar, -, htag⟩ := ht.head
      rw [outputOf_cons, Part.text, tagAhead]
      rcases htag with hall | hc
      · rw [tagTail_tagChars hall, ih, hall, Bool.true_and]
      · rw [hcs, List.cons_append, tagTail, if_neg hdollar, hc]
        simp [hc]

/-- Behind a part the output opens as the template does, or with a literal. -/
theorem Scanned.head_output {text : Text} {parts : List Part} (h : Scanned text parts) {q : Char}
    (hq : text.head? ≠ some q) : ((outputOf parts).head? == some q) = literalOpens q parts := by
  cases h with
  | nil => rfl
  | @closed _ t rest r parts h _ =>
      obtain ⟨c, w, hw, -⟩ := h.head
      have hsplit := h.splits
      simp only [Cut.Splits] at hw hsplit
      subst hw
      rw [← hsplit, List.cons_append, List.head?_cons] at hq
      simpa [Part.text, literalOpens] using hq
  | @unclosed _ t r h =>
      obtain ⟨c, w, hw, -⟩ := h.head
      have hsplit := h.splits
      simp only [Cut.Splits] at hw hsplit
      subst hw
      rw [← hsplit, List.cons_append, List.head?_cons] at hq
      simpa [Part.text, literalOpens] using hq
  | code => simpa [Part.text, literalOpens] using hq
  | doubleColon => simpa [Part.text, literalOpens] using hq
  | @literal token t rest parts h htoken ht _ =>
      obtain ⟨c, cs, rfl, -⟩ := ht.head
      rfl

theorem Scanned.literalOpens_false {text : Text} {parts : List Part} (h : Scanned text parts)
    {q : Char} (hq : q = '*' ∨ q = '"') : literalOpens q parts = false := by
  cases h with
  | literal h htoken ht _ =>
      obtain ⟨c, cs, rfl, hstar, -, hquote, -⟩ := ht.head
      rcases hq with rfl | rfl <;> simpa [literalOpens]
  | nil | closed | unclosed | code | doubleColon => rfl

/-! ## One part -/

theorem regionsKept_closed {text t rest : Text} {r : Region} {parts : List Part}
    (h : Opened r (t, some rest) text) (tail : Scanned rest parts) :
    regionsKept (.copied r t :: parts) (lexMarks (t ++ outputOf parts)) =
      (!clash (.copied r t) parts && regionsKept parts (lexMarks (outputOf parts))) := by
  by_cases hquote : r = .string ∧ literalOpens '\'' parts
  · -- a quoted literal directly behind a string continues it
    obtain ⟨rfl, hopens⟩ := hquote
    cases parts with
    | nil => cases hopens
    | cons part parts =>
        cases part with
        | copied => cases hopens
        | literal token u =>
            have hu : u.head? = some '\'' := by simpa [literalOpens] using hopens
            obtain ⟨us, rfl⟩ := List.head?_eq_some_iff.mp hu
            have hin := inCode_extended h (us ++ outputOf parts)
            simp only [regionsKept, clash, hopens, outputOf_cons, Part.text, List.cons_append, hin]
            simp
  · have hclash : clash (.copied r t) parts = false := by
      cases r with
      | code => exact absurd h.head (by rintro ⟨_, _, _, h⟩; exact h)
      | string => simpa [clash] using hquote
      | quotedIdentifier | comment | dollarBody => rfl
    have hnext : ∀ q, r.quote = some q → (outputOf parts).head? ≠ some q := by
      intro q hq hhead
      have hopens := tail.head_output (h.rest_head hq)
      rw [hhead] at hopens
      cases r with
      | string =>
          cases hq
          exact hquote ⟨rfl, by simpa using hopens.symm⟩
      | quotedIdentifier =>
          cases hq
          rw [tail.literalOpens_false (.inr rfl)] at hopens
          simp at hopens
      | code | comment | dollarBody => cases hq
    have hmarks := lexMarks_closed (h.closed hnext)
    rw [hmarks, regionsKept, hclash]
    have htake : (spanMarks r t ++ lexMarks (outputOf parts)).take t.length = spanMarks r t := by
      rw [List.take_append_of_le_length (by simp), ← spanMarks_length r t, List.take_length]
    have hdrop : (spanMarks r t ++ lexMarks (outputOf parts)).drop t.length =
        lexMarks (outputOf parts) := by
      rw [← spanMarks_length r t, List.drop_left]
    have hall : (spanMarks r t).all (·.region == r) := by
      rw [List.all_eq_true]
      intro m hm
      simp [spanMarks_region hm]
    rw [htake, hdrop, hall, Bool.not_false]

theorem regionsKept_unclosed {text t : Text} {r : Region} (h : Opened r (t, none) text) :
    regionsKept [.copied r t] (lexMarks t) = !clash (.copied r t) [] := by
  have htext : t = text := by simpa [Cut.Splits, Cut.rest] using h.splits
  subst htext
  have hclash : clash (.copied r t) [] = false := by
    cases r <;> simp [clash, literalOpens, tagAhead]
  have hall : (spanMarks r t).all (·.region == r) := by
    rw [List.all_eq_true]
    intro m hm
    simp [spanMarks_region hm]
  rw [lexMarks_unclosed h, hclash, regionsKept, regionsKept,
    List.take_append_of_le_length (by simp), List.take_of_length_le (by simp), hall]
  rfl

/-- A character of code keeps its reading exactly when it does not clash. -/
theorem openedSpan_output {c : Char} {cs : Text} {parts : List Part}
    (h : openedSpan (c :: cs) = none) (tail : Scanned cs parts) :
    openedSpan (c :: outputOf parts) = none ↔ clash (.copied .code [c]) parts = false := by
  rw [openedSpan_eq_none_iff] at h ⊢
  obtain ⟨hline, hblock, hstring, hident, hdollar⟩ := h
  have hstar : c = '/' → (outputOf parts).head? ≠ some '*' := by
    intro hc hhead
    have hopens := tail.head_output (q := '*') (fun hcs => hblock ⟨hc, hcs⟩)
    rw [hhead, tail.literalOpens_false (.inl rfl)] at hopens
    simp at hopens
  have htag : tagTail (outputOf parts) = none ↔ tagAhead parts = false := by
    rw [← tail.tagTail_isSome]
    simp
  have hminus : c = '-' → ((outputOf parts).head? = some '-' ↔ literalOpens '-' parts) := by
    intro hc
    have hopens := tail.head_output (q := '-') (fun hcs => hline ⟨hc, hcs⟩)
    rw [← hopens, beq_iff_eq]
  by_cases hdash : c = '-'
  · subst hdash
    simp [clash, hminus rfl]
  by_cases hd : c = '$'
  · subst hd
    simp [clash, htag]
  · simp only [clash, hdash, hd, hstring, hident, false_and, not_false_eq_true, true_and, ne_eq,
      List.cons.injEq, and_true, IsEmpty.forall_iff, beq_eq_false_iff_ne, Bool.or_eq_false_iff,
      Bool.and_eq_false_iff, not_and, true_or, and_self, iff_true]
    exact hstar

theorem regionsKept_code {c : Char} {cs : Text} {parts : List Part}
    (h : openedSpan (c :: cs) = none) (tail : Scanned cs parts) :
    regionsKept (.copied .code [c] :: parts) (lexMarks (c :: outputOf parts)) =
      (!clash (.copied .code [c]) parts && regionsKept parts (lexMarks (outputOf parts))) := by
  cases hout : openedSpan (c :: outputOf parts) with
  | none =>
      rw [lexMarks_code hout, (openedSpan_output h tail).mp hout]
      rfl
  | some span =>
      obtain ⟨r, t, rest⟩ := span
      have hclash : clash (.copied .code [c]) parts = true := by
        by_contra hne
        rw [(openedSpan_output h tail).mpr (by simpa using hne)] at hout
        cases hout
      have hopen := openedSpan_eq_some hout
      obtain ⟨d, w, hw, hd⟩ := hopen.head
      simp only at hw
      subst hw
      have hr : (r == Region.code) = false := by
        cases r with
        | code => exact hd.elim
        | string | quotedIdentifier | comment | dollarBody => rfl
      -- the character now opens a region, so its mark is not one of code
      have hmark : ∃ ms, lexMarks (c :: outputOf parts) = ⟨r, true⟩ :: ms := by
        cases rest with
        | none => exact ⟨_, lexMarks_unclosed hopen⟩
        | some rest => exact ⟨_, lexMarks_closed hopen⟩
      obtain ⟨ms, hms⟩ := hmark
      rw [hms, hclash, regionsKept]
      simp [hr]

theorem regionsKept_doubleColon (parts : List Part) :
    regionsKept (.copied .code [':', ':'] :: parts) (lexMarks (':' :: ':' :: outputOf parts)) =
      regionsKept parts (lexMarks (outputOf parts)) := by
  have hmarks := lexMarks_inert (t := [':', ':']) (by decide) (outputOf parts)
  simp only [List.cons_append, List.nil_append] at hmarks
  rw [hmarks]
  rfl

theorem regionsKept_literal {token t : Text} (parts : List Part) (ht : Literal t) :
    regionsKept (.literal token t :: parts) (lexMarks (t ++ outputOf parts)) =
      (!clash (.literal token t) parts && regionsKept parts (lexMarks (outputOf parts))) := by
  rw [regionsKept, inCode_lexMarks, Bool.true_and, clash]
  by_cases hq : endsQuoted t ∧ (outputOf parts).head? = some '\''
  · have hnot := ht.not_inCode hq.1 hq.2
    simp [hq.1, hq.2, hnot]
  · have hpass : Passes t (outputOf parts) := ht.passes fun he hhead => hq ⟨he, hhead⟩
    have hclash : (endsQuoted t && (outputOf parts).head? == some '\'') = false := by
      simpa using hq
    rw [hpass.inCode, hclash]
    obtain ⟨ms, hlen, hlex⟩ := hpass
    rw [hlex, ← hlen, List.drop_left]
    rfl

/-- The output keeps every region exactly when no two neighbours clash. -/
theorem Scanned.regionsKept_iff {text : Text} {parts : List Part} (h : Scanned text parts) :
    regionsKept parts (lexMarks (outputOf parts)) = clashFree parts := by
  induction h with
  | nil => rfl
  | closed h tail ih => rw [outputOf_cons, Part.text, regionsKept_closed h tail, ih]; rfl
  | unclosed h =>
      rw [outputOf_cons, Part.text, outputOf_nil, List.append_nil, regionsKept_unclosed h]
      simp [clashFree]
  | code h tail ih =>
      rw [outputOf_cons, Part.text, List.singleton_append, regionsKept_code h tail, ih]
      rfl
  | doubleColon tail ih =>
      rw [outputOf_cons, Part.text, List.cons_append, List.singleton_append,
        regionsKept_doubleColon, ih]
      rfl
  | literal h htoken ht tail ih =>
      rw [outputOf_cons, Part.text, regionsKept_literal _ ht, ih]
      rfl

end NzRust.Sql
