import Mathlib.Data.List.Forall2
import NzRust.Core.Digits
import NzRust.Sql.Literals

/-!
# What a text literal stands for

The evaluator of the driver's own property tests: quotations with doubled
quotes, and parenthesised chains of them around `chr(92)`. Every text literal
evaluates to the value it was written for, wherever quotes and backslashes
stand in it, and the lexer passes it as closed strings.
-/

namespace NzRust.Sql

/-! ## The evaluator -/

/-- The value behind an opening quote, up to the closing one, and what follows that. -/
def evalBody : Text → Option (Text × Text)
  | [] => none
  | [c] => if c = '\'' then some ([], []) else none
  | c :: d :: cs =>
      if c = '\'' then
        if d = '\'' then (evalBody cs).map fun (value, rest) => (c :: value, rest)
        else some ([], d :: cs)
      else (evalBody (d :: cs)).map fun (value, rest) => (c :: value, rest)

/-- `quoted` of `eval_literal`. -/
def evalQuoted : Text → Option (Text × Text)
  | [] => none
  | c :: cs => if c = '\'' then evalBody cs else none

def joiner : Text := " || chr(92) || ".toList

/-- The pieces of a chain behind its parenthesis, at most `fuel` of them. -/
def evalChain : Nat → Text → Option (Text × Text)
  | 0, _ => none
  | fuel + 1, text =>
      match evalQuoted text with
      | none => none
      | some (part, rest) =>
          if joiner.isPrefixOf rest then
            (evalChain fuel (rest.drop joiner.length)).map fun (value, rest) =>
              (part ++ '\\' :: value, rest)
          else if rest.head? = some ')' then some (part, rest.tail)
          else none

/-- `eval_literal`, with the text that it leaves. -/
def evalLiteral : Text → Option (Text × Text)
  | [] => none
  | c :: cs => if c = '(' then evalChain cs.length cs else evalQuoted (c :: cs)

/-! ## Evaluating a rendering -/

theorem evalBody_doubleQuotes (value : Text) {rest : Text} (h : rest.head? ≠ some '\'') :
    evalBody (doubleQuotes value ++ '\'' :: rest) = some (value, rest) := by
  fun_induction doubleQuotes value with
  | case1 =>
      cases rest with
      | nil => rfl
      | cons c cs =>
          have hc : c ≠ '\'' := by simpa using h
          simp [evalBody, hc]
  | case2 cs ih => simp [evalBody, ih]
  | case3 c cs hc ih =>
      obtain ⟨d, ds, hds⟩ : ∃ d ds, doubleQuotes cs ++ '\'' :: rest = d :: ds :=
        List.exists_cons_of_ne_nil (by simp)
      rw [hds] at ih
      simp [hds, evalBody, hc, ih]

theorem evalQuoted_append (value rest : Text) (h : rest.head? ≠ some '\'') :
    evalQuoted (appendQuotedText value ++ rest) = some (value, rest) := by
  simp only [appendQuotedText, List.cons_append, List.append_assoc, List.nil_append, evalQuoted,
    if_true]
  exact evalBody_doubleQuotes value h

theorem evalChain_last (fuel : Nat) (part rest : Text) :
    evalChain (fuel + 1) (appendQuotedText part ++ ')' :: rest) = some (part, rest) := by
  rw [evalChain, evalQuoted_append part (')' :: rest) (by simp)]
  rfl

theorem evalChain_joiner (fuel : Nat) (part rest : Text) :
    evalChain (fuel + 1) (appendQuotedText part ++ (joiner ++ rest)) =
      (evalChain fuel rest).map fun (value, rest) => (part ++ '\\' :: value, rest) := by
  have hlead : joiner.isPrefixOf (joiner ++ rest) = true := by
    rw [List.isPrefixOf_iff_prefix]
    exact List.prefix_append _ _
  have hhead : (joiner ++ rest).head? ≠ some '\'' := by
    show some ' ' ≠ some '\''
    decide
  rw [evalChain, evalQuoted_append part _ hhead]
  dsimp only
  rw [if_pos hlead, List.drop_left]

/-- The pieces of a value with the backslashes between them put back. -/
def joinPieces : List Text → Text
  | [] => []
  | [part] => part
  | part :: parts => part ++ '\\' :: joinPieces parts

theorem evalChain_joinQuoted (part : Text) (parts : List Text) {fuel : Nat}
    (hfuel : parts.length < fuel) (rest : Text) :
    evalChain fuel (joinQuoted (part :: parts) ++ ')' :: rest) =
      some (joinPieces (part :: parts), rest) := by
  induction parts generalizing part fuel with
  | nil =>
      obtain ⟨fuel, rfl⟩ : ∃ k, fuel = k + 1 := ⟨fuel - 1, by omega⟩
      exact evalChain_last fuel part rest
  | cons next parts ih =>
      obtain ⟨fuel, rfl⟩ : ∃ k, fuel = k + 1 := ⟨fuel - 1, by omega⟩
      have hrest := ih next (show parts.length < fuel by simpa using hfuel)
      have hjoin : joinQuoted (part :: next :: parts) ++ ')' :: rest =
          appendQuotedText part ++ (joiner ++ (joinQuoted (next :: parts) ++ ')' :: rest)) := by
        rw [joinQuoted, List.append_assoc, List.append_assoc]
        · rfl
        · exact nofun
      rw [hjoin, evalChain_joiner, hrest]
      rfl

theorem joinQuoted_length (parts : List Text) : parts.length ≤ (joinQuoted parts).length := by
  fun_induction joinQuoted parts with
  | case1 => exact Nat.le_refl _
  | case2 part => simp [appendQuotedText]
  | case3 part parts _ ih =>
      simp only [appendQuotedText, List.length_append, List.length_cons]
      omega

theorem joinPieces_cons (c : Char) (part : Text) (parts : List Text) :
    joinPieces ((c :: part) :: parts) = c :: joinPieces (part :: parts) := by
  cases parts <;> rfl

theorem joinPieces_splitAt (value : Text) : joinPieces (splitAt '\\' value) = value := by
  induction value with
  | nil => rfl
  | cons c cs ih =>
      obtain ⟨part, parts, hparts⟩ := List.exists_cons_of_ne_nil (splitAt_ne_nil '\\' cs)
      rw [hparts] at ih
      have hsplit : splitWhere (· == '\\') cs = part :: parts := hparts
      by_cases hc : c = '\\'
      · subst hc
        have hcut : splitAt '\\' ('\\' :: cs) = [] :: part :: parts := by
          simp [splitAt, splitWhere, hsplit]
        rw [hcut, joinPieces, ih]
        · rfl
        · intro h
          cases h
      · have hcut : splitAt '\\' (c :: cs) = (c :: part) :: parts := by
          simp [splitAt, splitWhere, hsplit, hc]
        rw [hcut, joinPieces_cons, ih]

/-! ## Backslashes -/

theorem mem_doubleQuotes {c : Char} {value : Text} (h : c ∈ doubleQuotes value) : c ∈ value := by
  induction value with
  | nil => exact h
  | cons d ds ih =>
      unfold doubleQuotes at h
      split_ifs at h with hd
      · rcases List.mem_cons.mp h with rfl | h
        · exact List.mem_cons_self
        · rcases List.mem_cons.mp h with rfl | h
          · exact List.mem_cons_self
          · exact List.mem_cons_of_mem _ (ih h)
      · rcases List.mem_cons.mp h with rfl | h
        · exact List.mem_cons_self
        · exact List.mem_cons_of_mem _ (ih h)

theorem not_mem_quoted {c : Char} (hc : c ≠ '\'') {value : Text} (h : c ∉ value) :
    c ∉ appendQuotedText value := by
  simp only [appendQuotedText, List.cons_append, List.mem_cons, List.mem_append, List.not_mem_nil,
    or_false, not_or]
  exact ⟨hc, fun hmem => h (mem_doubleQuotes hmem), hc⟩

theorem not_mem_joined {c : Char} (hc : c ≠ '\'') (hjoin : c ∉ " || chr(92) || ".toList)
    {parts : List Text} (h : ∀ part ∈ parts, c ∉ part) : c ∉ joinQuoted parts := by
  fun_induction joinQuoted parts with
  | case1 => exact List.not_mem_nil
  | case2 part => exact not_mem_quoted hc (h part List.mem_cons_self)
  | case3 part parts _ ih =>
      have hpart := not_mem_quoted hc (h part List.mem_cons_self)
      have hparts := ih fun p hp => h p (List.mem_cons_of_mem _ hp)
      simp only [List.mem_append, not_or]
      exact ⟨⟨hpart, hjoin⟩, hparts⟩

/-! ## The lexer on a text literal -/

/-- What a chain has outside its quotations. -/
def chainChars : Text := "()|chr92 ".toList

/-- The character lies in a string, or is code that chains are made of. -/
def LiteralMark (c : Char) (m : Mark) : Prop :=
  m.region = .string ∨ m.region = .code ∧ c ∈ chainChars

/-- Before `rest` the lexer passes `t` as closed strings and chain characters. -/
def LexedLiteral (t rest : Text) : Prop :=
  ∃ ms, List.Forall₂ LiteralMark t ms ∧ lexMarks (t ++ rest) = ms ++ lexMarks rest

theorem LexedLiteral.append {t u rest : Text} (ht : LexedLiteral t (u ++ rest))
    (hu : LexedLiteral u rest) : LexedLiteral (t ++ u) rest := by
  obtain ⟨ms, hms, ht⟩ := ht
  obtain ⟨ns, hns, hu⟩ := hu
  refine ⟨ms ++ ns, List.rel_append hms hns, ?_⟩
  rw [List.append_assoc, ht, hu, List.append_assoc]

theorem forall₂_spanMarks (t : Text) : List.Forall₂ LiteralMark t (spanMarks .string t) := by
  rw [List.forall₂_iff_zip]
  refine ⟨(spanMarks_length _ _).symm, ?_⟩
  intro c m hmem
  exact .inl (spanMarks_region (List.of_mem_zip hmem).2)

theorem LexedLiteral.quotedText (value : Text) {rest : Text} (h : rest.head? ≠ some '\'') :
    LexedLiteral (appendQuotedText value) rest := by
  have hopen : Opened .string (appendQuotedText value, some rest) (appendQuotedText value ++ rest) := by
    apply (appendQuotedText_opened value).closed
    intro q hq
    cases hq
    exact h
  exact ⟨_, forall₂_spanMarks _, lexMarks_closed hopen⟩

theorem LexedLiteral.chars {t : Text} (hchain : t.all (chainChars.contains ·) = true)
    (rest : Text) : LexedLiteral t rest := by
  have h : ∀ c ∈ t, c ∈ chainChars := by
    intro c hc
    exact List.contains_iff_mem.mp (List.all_eq_true.mp hchain c hc)
  have hinert : t.all isInert := by
    rw [List.all_eq_true]
    intro c hc
    have hall : chainChars.all isInert := by decide
    exact List.all_eq_true.mp hall c (h c hc)
  refine ⟨_, ?_, lexMarks_inert hinert rest⟩
  rw [List.forall₂_iff_zip]
  refine ⟨by simp, ?_⟩
  intro c m hmem
  obtain ⟨hc, hm⟩ := List.of_mem_zip hmem
  rw [List.eq_of_mem_replicate hm]
  exact .inr ⟨rfl, h c hc⟩

theorem LexedLiteral.joinQuoted (parts : List Text) {rest : Text} (h : rest.head? ≠ some '\'') :
    LexedLiteral (joinQuoted parts) rest := by
  fun_induction Sql.joinQuoted parts with
  | case1 => exact ⟨[], .nil, rfl⟩
  | case2 part => exact .quotedText part h
  | case3 part parts _ ih =>
      refine LexedLiteral.append (.append (.quotedText part ?_) (.chars (by decide) _)) ih
      simp

/-- The text literal `t` of the value `v`. -/
structure TextLiteral (v t : Text) : Prop where
  noBackslash : '\\' ∉ t
  lexed : ∀ rest : Text, rest.head? ≠ some '\'' → LexedLiteral t rest
  value : evalLiteral t = some (v, [])

theorem textLiteral_quoted {v : Text} (h : '\\' ∉ v) : TextLiteral v (appendQuotedText v) where
  noBackslash := not_mem_quoted (by decide) h
  lexed _ hrest := .quotedText v hrest
  value := by
    have hvalue := evalQuoted_append v [] (by simp)
    rwa [List.append_nil] at hvalue

theorem textLiteral_chained (v : Text) :
    TextLiteral v ('(' :: joinQuoted (splitAt '\\' v) ++ [')']) where
  noBackslash := by
    have hjoined := not_mem_joined (by decide) (by decide) (sep_not_mem_splitAt '\\' v)
    simp only [List.cons_append, List.mem_cons, List.mem_append, List.not_mem_nil, or_false, not_or]
    exact ⟨by decide, hjoined, by decide⟩
  lexed rest hrest := by
    refine LexedLiteral.append (t := ['(']) (.chars (by decide) _)
      (.append (.joinQuoted _ (by simp)) (.chars (by decide) _))
  value := by
    obtain ⟨part, parts, hparts⟩ := List.exists_cons_of_ne_nil (splitAt_ne_nil '\\' v)
    have hfuel : parts.length < (joinQuoted (part :: parts) ++ [')']).length := by
      have hlength := joinQuoted_length (part :: parts)
      simp only [List.length_append, List.length_cons, List.length_nil] at hlength ⊢
      omega
    have hchain := evalChain_joinQuoted part parts hfuel []
    rw [← hparts, joinPieces_splitAt] at hchain
    exact hchain

/-- A text literal is refused exactly for a NUL. Otherwise it has no backslash, the lexer passes it
as closed strings, and it evaluates to the value, with nothing left over. -/
theorem text_literal_evaluates (v : Text) :
    match writeTextLiteral v with
    | .error _ => '\x00' ∈ v
    | .ok t => '\x00' ∉ v ∧ TextLiteral v t := by
  unfold writeTextLiteral
  by_cases hnul : '\x00' ∈ v
  · rw [if_pos (List.contains_iff_mem.mpr hnul)]
    exact hnul
  · rw [if_neg (by rwa [List.contains_iff_mem])]
    by_cases hback : '\\' ∈ v
    · rw [if_pos (List.contains_iff_mem.mpr hback)]
      exact ⟨hnul, textLiteral_chained v⟩
    · rw [if_neg (by rwa [List.contains_iff_mem])]
      exact ⟨hnul, textLiteral_quoted hback⟩

end NzRust.Sql
