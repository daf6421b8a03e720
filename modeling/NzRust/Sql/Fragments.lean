import NzRust.Sql.Evaluation
import NzRust.Sql.Pieces
import NzRust.Sql.Split
import NzRust.Sql.Template

/-!
# Statements built around literals

A statement that is put together from fixed code and from text literals. Code
that opens no region, ends no statement and begins no procedure body leaves both
lexers at rest, and a literal brings them back to rest behind it. So the splitter
finds one statement, the template no placeholder, and the code that the lexer
sees is the fixed one.
-/

namespace NzRust.Sql

open Checked

/-- The characters of a text that the lexer passes in code. -/
def codeText (sql : Text) : Text :=
  ((sql.zip (lexMarks sql)).filter (·.2.region = .code)).map Prod.fst

/-- From a text of its own the splitter makes one statement, the text itself. -/
def StaysOne (text : Text) : Prop :=
  ∀ fuel position prev, text.length ≤ fuel →
    ∃ statement, splitLoop splitterRules fuel position prev text = [statement] ∧
      statementText statement = text

/-- What the two lexers make of a text: one statement, with this code in it. -/
structure Reads (text code : Text) : Prop where
  one : StaysOne text
  code : codeText text = code

/-! ## Code -/

/-- A character that is code for both lexers. -/
def isPlain (c : Char) : Bool :=
  isInert c && c != ';'

/-- A text that cannot go on with the opening of a procedure body. -/
def outsideWord (text : Text) : Bool :=
  text.head?.all fun c => !beginProc.contains c.toLower

/-- No part of a text begins with the opening of a procedure body. -/
def opensNoProc : Text → Bool
  | [] => true
  | c :: cs => !startsWithCi beginProc (c :: cs) && opensNoProc cs

/-- Code that may stand in front of a literal or behind it. -/
def isFixedCode (text : Text) : Bool :=
  !text.isEmpty && text.all isPlain && opensNoProc text && outsideWord text

theorem codeText_nil : codeText [] = [] := rfl

theorem codeText_code {c : Char} {cs : Text} (h : openedSpan (c :: cs) = none) :
    codeText (c :: cs) = c :: codeText cs := by
  rw [codeText, lexMarks_code h, List.zip_cons_cons, List.filter_cons_of_pos (by rfl)]
  rfl

theorem codeText_closed {text t rest : Text} {r : Region} (h : Opened r (t, some rest) text) :
    codeText text = codeText rest := by
  have htext : text = t ++ rest := h.splits.symm
  have hmarks := lexMarks_closed h
  have hzip : text.zip (lexMarks text) = t.zip (spanMarks r t) ++ rest.zip (lexMarks rest) := by
    rw [hmarks, htext, List.zip_append (spanMarks_length r t).symm]
  have hnone : (t.zip (spanMarks r t)).filter (·.2.region = .code) = [] := by
    rw [List.filter_eq_nil_iff]
    rintro ⟨c, mark⟩ hmem
    rw [spanMarks_region (List.of_mem_zip hmem).2, decide_eq_true_eq]
    exact h.not_code
  rw [codeText, hzip, List.filter_append, hnone, List.nil_append, codeText]

/-- A word that a text does not begin with does not begin it further on either. -/
theorem startsWithCi_append {text rest : Text} (h : startsWithCi beginProc text = false)
    (hrest : outsideWord rest = true) : startsWithCi beginProc (text ++ rest) = false := by
  have hword : beginProc.length = 10 := rfl
  by_cases hlen : 10 ≤ text.length
  · rwa [startsWithCi, hword, List.take_append_of_le_length hlen, ← hword]
  · cases rest with
    | nil => rwa [List.append_nil]
    | cons d ds =>
        rw [startsWithCi, hword, beq_eq_false_iff_ne]
        intro heq
        have hmem : d ∈ (text ++ d :: ds).take 10 := by
          obtain ⟨k, hk⟩ : ∃ k, 10 - text.length = k + 1 := ⟨9 - text.length, by omega⟩
          rw [List.take_append, hk, List.take_succ_cons]
          exact List.mem_append_right _ List.mem_cons_self
        have hcontains : d.toLower ∈ beginProc := by
          rw [← heq]
          exact List.mem_map_of_mem hmem
        rw [outsideWord, List.head?_cons, Option.all_some, List.contains_iff_mem.mpr hcontains] at hrest
        cases hrest

theorem StaysOne.nil : StaysOne [] := by
  intro fuel position prev _
  refine ⟨[], ?_, rfl⟩
  cases fuel <;> rfl

theorem splitStep_plain {c : Char} (hc : isPlain c = true) {cs : Text}
    (hproc : startsWithCi beginProc (c :: cs) = false) (position : Nat) (prev : Option Char) :
    splitStep splitterRules position prev c cs = ⟨some (.code position c), [c], cs⟩ := by
  simp only [isPlain, isInert, Bool.and_eq_true, Bool.not_eq_true', Bool.or_eq_false_iff,
    beq_eq_false_iff_ne, bne_iff_ne] at hc
  obtain ⟨⟨⟨⟨⟨hminus, hslash⟩, hquote⟩, hident⟩, hdollar⟩, hsemicolon⟩ := hc
  have htag : splitterRules.dollarTag (c :: cs) = none := by
    show dollarTag (c :: cs) = none
    rw [dollarTag, if_neg hdollar]
  have hopens : splitterRules.opensProc (c :: cs) = false := hproc
  simp [splitStep, hquote, hident, hopens, htag, hminus, hslash, hsemicolon]

theorem StaysOne.code {c : Char} (hc : isPlain c = true) {cs : Text}
    (hproc : startsWithCi beginProc (c :: cs) = false) (h : StaysOne cs) : StaysOne (c :: cs) := by
  intro fuel position prev hfuel
  obtain ⟨fuel, rfl⟩ : ∃ k, fuel = k + 1 := ⟨fuel - 1, by rw [List.length_cons] at hfuel; omega⟩
  obtain ⟨statement, hsplit, htext⟩ := h fuel (position + 1) (some c)
    (by rw [List.length_cons] at hfuel; omega)
  refine ⟨.code position c :: statement, ?_, ?_⟩
  · rw [splitLoop, splitStep_plain hc hproc]
    dsimp only [List.length_singleton, List.getLast?_singleton]
    rw [hsplit]
    rfl
  · rw [statementText, List.flatMap_cons, ← statementText, htext]
    rfl

/-- A quotation that is not followed by another quote. -/
theorem StaysOne.quoted (value : Text) {rest : Text} (hrest : rest.head? ≠ some '\'')
    (h : StaysOne rest) : StaysOne (appendQuotedText value ++ rest) := by
  have hcut : quotedCut '\'' (doubleQuotes value ++ ['\''] ++ rest) =
      (doubleQuotes value ++ ['\''], some rest) :=
    quotedCut_closed (quotedCut_doubleQuotes value) hrest
  intro fuel position prev hfuel
  have hlen : (appendQuotedText value ++ rest).length =
      (doubleQuotes value ++ ['\'']).length + rest.length + 1 := by
    simp [appendQuotedText]
    omega
  obtain ⟨fuel, rfl⟩ : ∃ k, fuel = k + 1 := ⟨fuel - 1, by omega⟩
  obtain ⟨statement, hsplit, htext⟩ := h fuel (position + (appendQuotedText value).length)
    (appendQuotedText value).getLast? (by omega)
  refine ⟨.quoted (appendQuotedText value) :: statement, ?_, ?_⟩
  · have hstep : splitStep splitterRules position prev '\'' (doubleQuotes value ++ ['\''] ++ rest) =
        ⟨some (.quoted (appendQuotedText value)), appendQuotedText value, rest⟩ := by
      rw [splitStep, if_pos (.inl rfl), hcut]
      rfl
    have htext : appendQuotedText value ++ rest =
        '\'' :: (doubleQuotes value ++ ['\''] ++ rest) := rfl
    rw [htext, splitLoop, hstep]
    dsimp only
    rw [hsplit]
    rfl
  · rw [statementText, List.flatMap_cons, ← statementText, htext]
    rfl

theorem Reads.nil : Reads [] [] :=
  ⟨.nil, codeText_nil⟩

/-- Code in front of a text is code in front of its code. -/
theorem Reads.append {text rest code : Text} (hplain : text.all isPlain = true)
    (hproc : opensNoProc text = true) (hrest : outsideWord rest = true) (h : Reads rest code) :
    Reads (text ++ rest) (text ++ code) := by
  induction text with
  | nil => exact h
  | cons c cs ih =>
      rw [List.all_cons, Bool.and_eq_true] at hplain
      rw [opensNoProc, Bool.and_eq_true, Bool.not_eq_true'] at hproc
      have htail := ih hplain.2 hproc.2
      have hinert : isInert c = true := by
        have hc := hplain.1
        rw [isPlain, Bool.and_eq_true] at hc
        exact hc.1
      constructor
      · exact .code hplain.1 (startsWithCi_append hproc.1 hrest) htail.one
      · rw [List.cons_append, codeText_code (openedSpan_of_isInert hinert _), htail.code]
        rfl

theorem isFixedCode_iff {text : Text} :
    isFixedCode text = true ↔ text ≠ [] ∧ text.all isPlain = true ∧ opensNoProc text = true ∧
      outsideWord text = true := by
  rw [isFixedCode, Bool.and_eq_true, Bool.and_eq_true, Bool.and_eq_true, Bool.not_eq_true',
    List.isEmpty_eq_false_iff, and_assoc, and_assoc]

theorem Reads.fixed {text : Text} (h : isFixedCode text = true) {rest code : Text}
    (hrest : outsideWord rest = true) (hreads : Reads rest code) :
    Reads (text ++ rest) (text ++ code) := by
  obtain ⟨-, hplain, hproc, -⟩ := isFixedCode_iff.mp h
  exact hreads.append hplain hproc hrest

/-- A quotation adds no code. -/
theorem Reads.quoted (value : Text) {rest code : Text} (hrest : rest.head? ≠ some '\'')
    (h : Reads rest code) : Reads (appendQuotedText value ++ rest) code where
  one := h.one.quoted value hrest
  code := by
    have hopen : Opened .string (appendQuotedText value, some rest)
        (appendQuotedText value ++ rest) := by
      apply (appendQuotedText_opened value).closed
      intro q hq
      cases hq
      exact hrest
    rw [codeText_closed hopen, h.code]

/-! ## Literals -/

def joinCode : Text :=
  " || chr(92) || ".toList

/-- The number of backslashes of a value, each of which is joined in as `chr(92)`. -/
def joins (value : Text) : Nat :=
  value.count '\\'

/-- The code that a literal adds: none, or the joins in their parentheses. -/
def literalCode (joins : Nat) : Text :=
  if joins = 0 then [] else '(' :: ((List.replicate joins joinCode).flatten ++ [')'])

theorem joinCode_fixed : isFixedCode joinCode = true := by
  decide

theorem joinCode_head : joinCode.head? = some ' ' := by
  decide

theorem length_splitAt (sep : Char) (text : Text) :
    (splitAt sep text).length = text.count sep + 1 := by
  induction text with
  | nil => rfl
  | cons c cs ih =>
      have hsplit : splitAt sep (c :: cs) = splitWhere (· == sep) (c :: cs) := rfl
      have htail : splitAt sep cs = splitWhere (· == sep) cs := rfl
      rw [hsplit, splitWhere, List.count_cons, ← htail]
      by_cases hc : (c == sep) = true
      · rw [if_pos hc, if_pos hc, List.length_cons, ih]
      · rw [if_neg hc, if_neg hc, Nat.add_zero]
        cases hparts : splitAt sep cs with
        | nil =>
            rw [hparts] at ih
            cases ih
        | cons part parts =>
            rw [hparts] at ih
            exact ih

theorem head_joinQuoted {parts : List Text} (h : parts ≠ []) (rest : Text) :
    (joinQuoted parts ++ rest).head? = some '\'' := by
  fun_cases joinQuoted parts with
  | case1 => exact absurd rfl h
  | case2 part => rfl
  | case3 part parts _ => rfl

theorem Reads.joined {parts : List Text} (hparts : parts ≠ []) {rest code : Text}
    (hquote : rest.head? ≠ some '\'') (h : Reads rest code) :
    Reads (joinQuoted parts ++ rest)
      ((List.replicate (parts.length - 1) joinCode).flatten ++ code) := by
  fun_induction joinQuoted parts with
  | case1 => exact absurd rfl hparts
  | case2 part => exact h.quoted part hquote
  | case3 part parts hsome ih =>
      have hparts' : parts ≠ [] := fun hnil => hsome hnil
      obtain ⟨k, hk⟩ : ∃ k, parts.length = k + 1 :=
        Nat.exists_eq_succ_of_ne_zero (mt List.length_eq_zero_iff.mp hparts')
      have hinner := ih hparts'
      rw [hk, Nat.add_sub_cancel] at hinner
      have houtside : outsideWord (joinQuoted parts ++ rest) = true := by
        rw [outsideWord, head_joinQuoted hparts']
        rfl
      have hjoined := Reads.fixed joinCode_fixed houtside hinner
      rw [List.length_cons, hk, Nat.add_sub_cancel, List.replicate_succ, List.flatten_cons,
        List.append_assoc, List.append_assoc, List.append_assoc]
      have hspace : (joinCode ++ (joinQuoted parts ++ rest)).head? ≠ some '\'' := by
        rw [List.head?_append, joinCode_head]
        intro hquote
        cases hquote
      exact hjoined.quoted part hspace

/-- A literal leaves both lexers at rest behind it. -/
theorem Reads.literal {value literal : Text} (hliteral : writeTextLiteral value = .ok literal)
    {rest code : Text} (hquote : rest.head? ≠ some '\'') (hrest : outsideWord rest = true)
    (h : Reads rest code) : Reads (literal ++ rest) (literalCode (joins value) ++ code) := by
  rw [writeTextLiteral] at hliteral
  split_ifs at hliteral with hnul hslash
  · cases hliteral
    have hcount : joins value ≠ 0 := by
      rw [joins, ne_eq, List.count_eq_zero, not_not]
      exact List.contains_iff_mem.mp hslash
    have hclosed := Reads.fixed (by decide : isFixedCode [')'] = true) hrest h
    have hjoined := Reads.joined (splitAt_ne_nil '\\' value) (by simp) hclosed
    have houtside : outsideWord (joinQuoted (splitAt '\\' value) ++ ([')'] ++ rest)) = true := by
      rw [outsideWord, head_joinQuoted (splitAt_ne_nil '\\' value)]
      decide
    have hopened := Reads.fixed (by decide : isFixedCode ['('] = true) houtside hjoined
    rw [length_splitAt, Nat.add_sub_cancel] at hopened
    rw [literalCode, if_neg hcount, joins]
    simpa using hopened
  · cases hliteral
    have hcount : joins value = 0 := by
      rw [joins, List.count_eq_zero]
      exact fun hmem => hslash (List.contains_iff_mem.mpr hmem)
    rw [literalCode, if_pos hcount]
    exact h.quoted value hquote

/-- A literal begins with its quote or with its parenthesis, and has no NUL. -/
theorem literal_head {value literal : Text} (h : writeTextLiteral value = .ok literal) :
    (∀ rest, outsideWord (literal ++ rest) = true) ∧ '\x00' ∉ literal := by
  rw [writeTextLiteral] at h
  split_ifs at h with hnul hslash
  · cases h
    refine ⟨fun _ => rfl, ?_⟩
    have hparts : ∀ part ∈ splitAt '\\' value, '\x00' ∉ part :=
      fun _ hpart hmem => hnul (List.contains_iff_mem.mpr (mem_of_mem_splitAt hpart hmem))
    have hjoined := not_mem_joined (by decide) (by decide) hparts
    simp only [List.cons_append, List.mem_cons, List.mem_append, List.not_mem_nil, or_false, not_or]
    exact ⟨by decide, hjoined, by decide⟩
  · cases h
    exact ⟨fun _ => rfl, not_mem_quoted (by decide) fun hmem => hnul (List.contains_iff_mem.mpr hmem)⟩

/-! ## Fragments -/

/-- A part of a statement: fixed code, a fixed quotation, or the place of a literal. -/
inductive Fragment (α : Type) where
  | code (text : Text)
  | fixed (value : Text)
  | literal (value : α)

namespace Fragment

variable {α β : Type}

def map (f : α → β) : Fragment α → Fragment β
  | .code text => .code text
  | .fixed value => .fixed value
  | .literal value => .literal (f value)

def write : Fragment Text → Except String Text
  | .code text => .ok text
  | .fixed value => .ok (appendQuotedText value)
  | .literal value => writeTextLiteral value

/-- The code of a fragment, of a literal by the number of its joins. -/
def codeSeen : Fragment Nat → Text
  | .code text => text
  | .fixed _ => []
  | .literal joins => literalCode joins

def isSound : Fragment α → Bool
  | .code text => isFixedCode text && !text.contains '\x00'
  | .fixed value => !value.contains '\x00'
  | .literal _ => true

end Fragment

def writeAll : List (Fragment Text) → Except String Text
  | [] => .ok []
  | fragment :: fragments => do
      let first ← fragment.write
      let rest ← writeAll fragments
      return first ++ rest

/-- No two quotations next to each other. -/
def separated {α : Type} : Bool → List (Fragment α) → Bool
  | _, [] => true
  | _, .code _ :: fragments => separated false fragments
  | afterQuote, .fixed _ :: fragments => !afterQuote && separated true fragments
  | afterQuote, .literal _ :: fragments => !afterQuote && separated true fragments

/-- What the lexers make of a statement that is written of fragments. -/
structure WrittenReads (afterQuote : Bool) (sql code : Text) : Prop where
  reads : Reads sql code
  outside : outsideWord sql = true
  quote : afterQuote = true → sql.head? ≠ some '\''
  noNul : '\x00' ∉ sql

theorem WrittenReads.code {text rest code : Text} {afterQuote : Bool}
    (hfixed : isFixedCode text = true) (hnul : '\x00' ∉ text) (h : WrittenReads false rest code) :
    WrittenReads afterQuote (text ++ rest) (text ++ code) := by
  obtain ⟨hne, hplain, -, houtside⟩ := isFixedCode_iff.mp hfixed
  obtain ⟨c, cs, rfl⟩ := List.exists_cons_of_ne_nil hne
  refine ⟨.fixed hfixed h.outside h.reads, houtside, ?_, ?_⟩
  · rintro - hquote
    cases hquote
    rw [List.all_cons] at hplain
    cases hplain
  · rw [List.mem_append, not_or]
    exact ⟨hnul, h.noNul⟩

/-- A text that both lexers read as a quotation and what it is joined with. -/
theorem WrittenReads.quotation {text seen rest code : Text}
    (houtside : ∀ rest, outsideWord (text ++ rest) = true) (hnul : '\x00' ∉ text)
    (hreads : rest.head? ≠ some '\'' → outsideWord rest = true → Reads rest code →
      Reads (text ++ rest) (seen ++ code))
    (h : WrittenReads true rest code) : WrittenReads false (text ++ rest) (seen ++ code) where
  reads := hreads (h.quote rfl) h.outside h.reads
  outside := houtside rest
  quote := nofun
  noNul := by
    rw [List.mem_append, not_or]
    exact ⟨hnul, h.noNul⟩

theorem writeAll_reads {fragments : List (Fragment Text)} {afterQuote : Bool}
    (hsound : fragments.all Fragment.isSound = true)
    (hseparated : separated afterQuote fragments = true) {sql : Text}
    (h : writeAll fragments = .ok sql) :
    WrittenReads afterQuote sql
      (fragments.flatMap fun fragment => (fragment.map joins).codeSeen) := by
  induction fragments generalizing afterQuote sql with
  | nil =>
      cases h
      exact ⟨.nil, rfl, fun _ => nofun, nofun⟩
  | cons fragment fragments ih =>
      rw [List.all_cons, Bool.and_eq_true] at hsound
      rw [List.flatMap_cons]
      rw [writeAll] at h
      obtain ⟨first, hfirst, h⟩ := except_bind_ok h
      obtain ⟨rest, hrest, h⟩ := except_bind_ok h
      cases h
      cases fragment with
      | code text =>
          cases hfirst
          have hcode := hsound.1
          rw [Fragment.isSound, Bool.and_eq_true, Bool.not_eq_true'] at hcode
          apply WrittenReads.code hcode.1 _ (ih hsound.2 hseparated hrest)
          exact fun hmem => Bool.eq_false_iff.mp hcode.2 (List.contains_iff_mem.mpr hmem)
      | fixed value =>
          cases hfirst
          have hvalue := hsound.1
          rw [Fragment.isSound, Bool.not_eq_true'] at hvalue
          rw [separated, Bool.and_eq_true, Bool.not_eq_true'] at hseparated
          rw [hseparated.1]
          apply WrittenReads.quotation (fun _ => rfl) _ _ (ih hsound.2 hseparated.2 hrest)
          · exact not_mem_quoted (by decide) fun hmem =>
              Bool.eq_false_iff.mp hvalue (List.contains_iff_mem.mpr hmem)
          · exact fun hquote _ hreads => hreads.quoted value hquote
      | literal value =>
          rw [separated, Bool.and_eq_true, Bool.not_eq_true'] at hseparated
          rw [hseparated.1]
          have hliteral : writeTextLiteral value = .ok first := hfirst
          obtain ⟨houtside, hnul⟩ := literal_head hliteral
          apply WrittenReads.quotation houtside hnul _ (ih hsound.2 hseparated.2 hrest)
          exact fun hquote hrest hreads => hreads.literal hliteral hquote hrest

theorem writeAll_append {xs ys : List (Fragment Text)} {first rest : Text}
    (hfirst : writeAll xs = .ok first) (hrest : writeAll ys = .ok rest) :
    writeAll (xs ++ ys) = .ok (first ++ rest) := by
  induction xs generalizing first with
  | nil =>
      cases hfirst
      exact hrest
  | cons x xs ih =>
      rw [writeAll] at hfirst
      obtain ⟨text, htext, hfirst⟩ := except_bind_ok hfirst
      obtain ⟨texts, htexts, hfirst⟩ := except_bind_ok hfirst
      cases hfirst
      rw [List.cons_append, writeAll, htext, ih htexts, List.append_assoc]
      rfl

theorem writeAll_intercalate {sep : List (Fragment Text)} {between : Text}
    (hsep : writeAll sep = .ok between) {blocks : List (List (Fragment Text))} {texts : List Text}
    (h : List.Forall₂ (fun block text => writeAll block = .ok text) blocks texts) :
    writeAll (sep.intercalate blocks) = .ok (between.intercalate texts) := by
  induction h with
  | nil => rfl
  | @cons block text blocks texts hblock hblocks ih =>
      cases hblocks with
      | nil => rwa [List.intercalate_singleton, List.intercalate_singleton]
      | cons _ _ =>
          rw [List.intercalate_cons_cons, List.intercalate_cons_cons]
          exact writeAll_append (writeAll_append hblock hsep) ih

/-! ## Statements that stay one -/

/-- A placeholder of the template is code. -/
theorem numbered_eq_nil {text : Text} {ps : List Piece} (h : Pieced text ps)
    (hcode : '$' ∉ codeText text) (i : Nat) : numbered i ps = [] := by
  induction h generalizing i with
  | nil => rfl
  | @span text r cut ps hopen rest ih =>
      obtain ⟨t, tail⟩ := cut
      cases tail with
      | none =>
          cases rest with
          | nil => rfl
          | span hopen' =>
              have hlt := hopen'.rest_lt
              simp [Cut.rest] at hlt
      | some tail =>
          rw [codeText_closed hopen] at hcode
          exact ih hcode _
  | number hopen hnumber _ _ =>
      rw [codeText_code hopen] at hcode
      exact absurd List.mem_cons_self hcode
  | char hopen hnumber _ ih =>
      rw [codeText_code hopen] at hcode
      exact ih (fun hmem => hcode (List.mem_cons_of_mem _ hmem)) _

/-- A text that is one statement and no template. -/
structure Contained (sql : Text) : Prop where
  one : splitStatements sql = [sql]
  parsed : SqlTemplate.parse sql = .ok ⟨sql, []⟩
  rendered : ∀ writeParameter, (⟨sql, []⟩ : SqlTemplate).render 0 writeParameter = .ok sql

theorem WrittenReads.contained {afterQuote : Bool} {sql code : Text}
    (h : WrittenReads afterQuote sql code) (hdollar : '$' ∉ code) : Contained sql where
  one := by
    obtain ⟨statement, hsplit, htext⟩ := h.reads.one sql.length 0 none (Nat.le_refl _)
    rw [splitStatements, splitPushes, hsplit, List.map_singleton, htext]
  parsed := by
    have hcode : '$' ∉ codeText sql := by rwa [h.reads.code]
    have hnone : numbered 0 (piecesLoop sql.length sql) = [] :=
      numbered_eq_nil (pieces_pieced sql) hcode 0
    rw [SqlTemplate.parse, if_neg fun hnul => h.noNul (List.contains_iff_mem.mp hnul), parseLoop_eq,
      hnone]
  rendered _ := rfl

theorem dollar_not_mem_literalCode (joins : Nat) : '$' ∉ literalCode joins := by
  unfold literalCode
  split_ifs
  · exact List.not_mem_nil
  · have hjoin : '$' ∉ joinCode := by decide
    simp only [List.mem_cons, List.mem_append, List.mem_flatten, List.mem_replicate,
      List.not_mem_nil, or_false, not_or, not_exists, not_and]
    refine ⟨by decide, ?_, by decide⟩
    rintro text ⟨-, rfl⟩
    exact hjoin

theorem dollar_not_mem_codeSeen {fragments : List (Fragment Nat)}
    (h : fragments.all Fragment.isSound = true) : '$' ∉ fragments.flatMap Fragment.codeSeen := by
  rw [List.mem_flatMap]
  rintro ⟨fragment, hmem, hdollar⟩
  have hsound := List.all_eq_true.mp h fragment hmem
  cases fragment with
  | code text =>
      rw [Fragment.isSound, Bool.and_eq_true] at hsound
      obtain ⟨-, hplain, -, -⟩ := isFixedCode_iff.mp hsound.1
      have hdollarPlain := List.all_eq_true.mp hplain '$' hdollar
      cases hdollarPlain
  | fixed value => cases hdollar
  | literal joins => exact dollar_not_mem_literalCode joins hdollar

theorem isSound_map {α β : Type} (f : α → β) (fragments : List (Fragment α)) :
    (fragments.map (Fragment.map f)).all Fragment.isSound = fragments.all Fragment.isSound := by
  rw [List.all_map]
  congr 1
  funext fragment
  cases fragment <;> rfl

/-! ## Blocks -/

/-- Sound fragments that begin and end in code. -/
structure IsBlock {α : Type} (fragments : List (Fragment α)) : Prop where
  sound : fragments.all Fragment.isSound = true
  separated : ∀ (afterQuote : Bool) (rest : List (Fragment α)), separated false rest = true →
    separated afterQuote (fragments ++ rest) = true

theorem toList_of_eq {s : String} {text : Text} (h : s = String.ofList text) : s.toList = text := by
  rw [h, String.toList_ofList]

section

variable {α : Type} {xs ys : List (Fragment α)}

theorem IsBlock.code {s : String} {text : Text} (hs : s = String.ofList text)
    (h : (Fragment.code text : Fragment Unit).isSound = true) :
    IsBlock ([.code s.toList] : List (Fragment α)) where
  sound := by
    rw [toList_of_eq hs, List.all_cons, List.all_nil, Bool.and_true]
    exact h
  separated _ _ hrest := hrest

theorem IsBlock.append (hxs : IsBlock xs) (hys : IsBlock ys) : IsBlock (xs ++ ys) where
  sound := by
    rw [List.all_append, hxs.sound, hys.sound]
    rfl
  separated afterQuote rest hrest := by
    rw [List.append_assoc]
    exact hxs.separated afterQuote _ (hys.separated false rest hrest)

theorem IsBlock.fixed (hxs : IsBlock xs) {value : Text} (hvalue : value.contains '\x00' = false)
    (hys : IsBlock ys) : IsBlock (xs ++ .fixed value :: ys) where
  sound := by
    rw [List.all_append, List.all_cons, hxs.sound, hys.sound, Fragment.isSound, hvalue]
    rfl
  separated afterQuote rest hrest := by
    rw [List.append_assoc]
    exact hxs.separated afterQuote _ (hys.separated true rest hrest)

theorem IsBlock.literal (hxs : IsBlock xs) (value : α) (hys : IsBlock ys) :
    IsBlock (xs ++ .literal value :: ys) where
  sound := by
    rw [List.all_append, List.all_cons, hxs.sound, hys.sound]
    rfl
  separated afterQuote rest hrest := by
    rw [List.append_assoc]
    exact hxs.separated afterQuote _ (hys.separated true rest hrest)

theorem IsBlock.intercalate {sep : List (Fragment α)} (hsep : IsBlock sep)
    {blocks : List (List (Fragment α))} (hblocks : ∀ block ∈ blocks, IsBlock block)
    (hys : IsBlock ys) : IsBlock (sep.intercalate blocks ++ ys) := by
  induction blocks with
  | nil => exact hys
  | cons block blocks ih =>
      have hblock := hblocks block List.mem_cons_self
      have hrest := ih fun other hother => hblocks other (List.mem_cons_of_mem _ hother)
      cases blocks with
      | nil =>
          rw [List.intercalate_singleton]
          exact hblock.append hys
      | cons _ _ =>
          rw [List.intercalate_cons_cons, List.append_assoc]
          exact (hblock.append hsep).append hrest

end

/-- What is written of a block is one statement without placeholders, and its
code is told by the fixed code and the joins of the literals. -/
theorem writeAll_contained {fragments : List (Fragment Text)} (hblock : IsBlock fragments)
    {sql : Text} (h : writeAll fragments = .ok sql) :
    Contained sql ∧
      codeText sql = (fragments.map (Fragment.map joins)).flatMap Fragment.codeSeen := by
  have hseparated := hblock.separated false [] rfl
  rw [List.append_nil] at hseparated
  have hreads := writeAll_reads hblock.sound hseparated h
  have hcode : (fragments.flatMap fun fragment => (fragment.map joins).codeSeen) =
      (fragments.map (Fragment.map joins)).flatMap Fragment.codeSeen :=
    (List.flatMap_map _ _ _).symm
  rw [hcode] at hreads
  have hsound' : (fragments.map (Fragment.map joins)).all Fragment.isSound = true := by
    rw [isSound_map, hblock.sound]
  exact ⟨hreads.contained (dollar_not_mem_codeSeen hsound'), hreads.reads.code⟩

end NzRust.Sql
