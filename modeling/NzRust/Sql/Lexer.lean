import NzRust.Core.Error

/-!
# The SQL lexer

`SqlTemplate::parse`, `substitute_bound_parameters` and `first_placeholder` walk
a text with the same rules for comments, quotes and dollar-quoted bodies. The
rules stand here once, each as a function that cuts a text behind the region
that opens it: the second component is the text that follows a closed region
and `none` when the region runs to the end of the text.
-/

namespace NzRust.Sql

/-- The lexical regions of a SQL text. -/
inductive Region where
  | code
  | string
  | quotedIdentifier
  | comment
  | dollarBody
  deriving DecidableEq, Repr

abbrev Cut := Text × Option Text

def Cut.push (consumed : Text) (cut : Cut) : Cut :=
  (consumed ++ cut.1, cut.2)

/-- The remaining text, empty behind a region that never closes. -/
def Cut.rest (cut : Cut) : Text :=
  cut.2.getD []

def isTagChar (c : Char) : Bool :=
  c.isAlpha || c == '_'

def isIdentifierStart (c : Char) : Bool :=
  c.isAlpha || c == '_'

def isIdentifierPart (c : Char) : Bool :=
  c.isAlphanum || c == '_' || c == '$'

/-- A line comment takes its newline along. -/
def lineCommentCut : Text → Cut
  | [] => ([], none)
  | c :: cs => if c = '\n' then ([c], some cs) else (lineCommentCut cs).push [c]

def blockCommentCut : Nat → Text → Cut
  | depth, a :: b :: cs =>
      if a = '/' ∧ b = '*' then (blockCommentCut (depth + 1) cs).push [a, b]
      else if a = '*' ∧ b = '/' then
        if depth = 1 then ([a, b], some cs)
        else (blockCommentCut (depth - 1) cs).push [a, b]
      else (blockCommentCut depth (b :: cs)).push [a]
  | _, text => (text, none)

/-- The text behind an opening quote; a doubled quote stands for itself. -/
def quotedCut (quote : Char) : Text → Cut
  | [] => ([], none)
  | [a] => if a = quote then ([a], some []) else ([a], none)
  | a :: b :: cs =>
      if a = quote then
        if b = quote then (quotedCut quote cs).push [a, b] else ([a], some (b :: cs))
      else (quotedCut quote (b :: cs)).push [a]

/-- The letters of a dollar tag behind its first `$`, with the closing `$`. -/
def tagTail : Text → Option Text
  | [] => none
  | c :: cs =>
      if c = '$' then some [c]
      else if isTagChar c then (tagTail cs).map (c :: ·)
      else none

def dollarTagStr : Text → Option Text
  | [] => none
  | c :: cs => if c = '$' then (tagTail cs).map (c :: ·) else none

/-- The number of digits behind a `$`. -/
def dollarNumber : Text → Option Nat
  | [] => none
  | c :: cs =>
      if c = '$' then
        let digits := (cs.takeWhile Char.isDigit).length
        if digits = 0 then none else some digits
      else none

/-- A dollar-quoted body up to and with its closing tag. -/
def dollarBodyCut (tag : Text) : Text → Cut
  | [] => ([], none)
  | c :: cs =>
      if tag.isPrefixOf (c :: cs) then (tag, some ((c :: cs).drop tag.length))
      else (dollarBodyCut tag cs).push [c]

/-- The comment or quoted region that opens here. -/
def protectedSpan : Text → Option (Region × Cut)
  | [] => none
  | c :: cs =>
      if c = '-' ∧ cs.head? = some '-' then
        some (.comment, (lineCommentCut cs.tail).push ['-', '-'])
      else if c = '/' ∧ cs.head? = some '*' then
        some (.comment, (blockCommentCut 1 cs.tail).push ['/', '*'])
      else if c = '\'' then some (.string, (quotedCut c cs).push [c])
      else if c = '"' then some (.quotedIdentifier, (quotedCut c cs).push [c])
      else none

/-- The region other than code that opens here. -/
def openedSpan (text : Text) : Option (Region × Cut) :=
  match protectedSpan text with
  | some span => some span
  | none =>
      match dollarTagStr text with
      | some tag => some (.dollarBody, (dollarBodyCut tag (text.drop tag.length)).push tag)
      | none => none

/-! ## Laws of the cuts -/

namespace Cut

/-- The consumed and the remaining text make up the text that was cut. -/
def Splits (cut : Cut) (text : Text) : Prop :=
  cut.1 ++ cut.rest = text

@[simp] theorem push_fst (t : Text) (cut : Cut) : (cut.push t).1 = t ++ cut.1 := rfl

@[simp] theorem push_snd (t : Text) (cut : Cut) : (cut.push t).2 = cut.2 := rfl

@[simp] theorem push_rest (t : Text) (cut : Cut) : (cut.push t).rest = cut.rest := rfl

@[simp] theorem push_mk (t u : Text) (rest : Option Text) :
    Cut.push t (u, rest) = (t ++ u, rest) := rfl

theorem Splits.push {cut : Cut} {text : Text} (h : cut.Splits text) (t : Text) :
    (cut.push t).Splits (t ++ text) := by
  simp only [Splits, push_fst, push_rest, List.append_assoc] at *
  rw [h]

/-- A pushed cut that closed comes from one that closed. -/
theorem push_eq_closed {cut : Cut} {t u rest : Text} (h : cut.push t = (u, some rest)) :
    ∃ v, cut = (v, some rest) ∧ u = t ++ v := by
  obtain ⟨v, r⟩ := cut
  simp only [push_mk, Prod.mk.injEq] at h
  obtain ⟨rfl, rfl⟩ := h
  exact ⟨v, rfl, rfl⟩

end Cut

theorem lineCommentCut_splits (text : Text) : (lineCommentCut text).Splits text := by
  fun_induction lineCommentCut text with
  | case1 => rfl
  | case2 => rfl
  | case3 c cs _ ih => exact ih.push [c]

theorem blockCommentCut_splits (depth : Nat) (text : Text) :
    (blockCommentCut depth text).Splits text := by
  fun_induction blockCommentCut depth text with
  | case1 depth a b cs _ ih => exact ih.push [a, b]
  | case2 => rfl
  | case3 depth a b cs _ _ _ ih => exact ih.push [a, b]
  | case4 depth a b cs _ _ ih => exact ih.push [a]
  | case5 => simp [Cut.Splits, Cut.rest]

theorem quotedCut_splits (quote : Char) (text : Text) : (quotedCut quote text).Splits text := by
  fun_induction quotedCut quote text with
  | case1 | case2 | case3 => rfl
  | case4 cs ih => exact ih.push [quote, quote]
  | case5 => rfl
  | case6 a b cs _ ih => exact ih.push [a]

theorem dollarBodyCut_splits (tag text : Text) : (dollarBodyCut tag text).Splits text := by
  fun_induction dollarBodyCut tag text with
  | case1 => rfl
  | case2 c cs h =>
      obtain ⟨rest, hrest⟩ := List.isPrefixOf_iff_prefix.mp h
      simp [Cut.Splits, Cut.rest, ← hrest]
  | case3 c cs _ ih => exact ih.push [c]

/-- A closed line comment ends where it ends in any other text. -/
theorem lineCommentCut_closed {text t rest : Text} (h : lineCommentCut text = (t, some rest))
    (rest' : Text) : lineCommentCut (t ++ rest') = (t, some rest') := by
  fun_induction lineCommentCut text generalizing t with
  | case1 => cases h
  | case2 cs =>
      obtain ⟨rfl, -⟩ := Prod.mk.inj h
      simp [lineCommentCut]
  | case3 c cs hc ih =>
      obtain ⟨v, hv, rfl⟩ := Cut.push_eq_closed h
      simp [lineCommentCut, hc, ih hv]

/-- Closing a block comment takes the characters that stood next. -/
private theorem blockCommentCut_head {depth : Nat} {b : Char} {cs t rest : Text}
    (h : blockCommentCut depth (b :: cs) = (t, some rest)) : ∃ w, t = b :: w := by
  have hsplit := blockCommentCut_splits depth (b :: cs)
  rw [h] at hsplit
  cases t with
  | cons x w => exact ⟨w, by rw [(List.cons.inj hsplit).1]⟩
  | nil =>
      cases cs with
      | nil => cases h
      | cons c cs =>
          rw [blockCommentCut] at h
          repeat' split at h
          all_goals simp [Cut.push] at h

theorem blockCommentCut_closed {depth : Nat} {text t rest : Text}
    (h : blockCommentCut depth text = (t, some rest)) (rest' : Text) :
    blockCommentCut depth (t ++ rest') = (t, some rest') := by
  fun_induction blockCommentCut depth text generalizing t with
  | case1 depth a b cs hab ih =>
      obtain ⟨v, hv, rfl⟩ := Cut.push_eq_closed h
      simp [blockCommentCut, hab, ih hv]
  | case2 a b cs hopen hclose =>
      obtain ⟨rfl, -⟩ := Prod.mk.inj h
      simp [blockCommentCut, hclose]
  | case3 depth a b cs hopen hclose hdepth ih =>
      obtain ⟨v, hv, rfl⟩ := Cut.push_eq_closed h
      simp [blockCommentCut, hclose, hdepth, ih hv]
  | case4 depth a b cs hopen hclose ih =>
      obtain ⟨v, hv, rfl⟩ := Cut.push_eq_closed h
      obtain ⟨w, rfl⟩ := blockCommentCut_head hv
      have hnext := ih hv
      simp only [List.cons_append, List.nil_append] at hnext ⊢
      rw [blockCommentCut, if_neg hopen, if_neg hclose, hnext, Cut.push_mk, List.singleton_append]
  | case5 => cases h

private theorem quotedCut_head {quote b : Char} {cs t rest : Text}
    (h : quotedCut quote (b :: cs) = (t, some rest)) : ∃ w, t = b :: w := by
  have hsplit := quotedCut_splits quote (b :: cs)
  rw [h] at hsplit
  cases t with
  | cons x w => exact ⟨w, by rw [(List.cons.inj hsplit).1]⟩
  | nil =>
      cases cs <;>
        · rw [quotedCut] at h
          repeat' split at h
          all_goals simp [Cut.push] at h

/-- A closed quotation ends at the same place before any text that does not open with its quote. -/
theorem quotedCut_closed {quote : Char} {text t rest : Text}
    (h : quotedCut quote text = (t, some rest)) {rest' : Text} (hq : rest'.head? ≠ some quote) :
    quotedCut quote (t ++ rest') = (t, some rest') := by
  have hclose : quotedCut quote (quote :: rest') = ([quote], some rest') := by
    cases rest' with
    | nil => simp [quotedCut]
    | cons d ds => simp_all [quotedCut]
  fun_induction quotedCut quote text generalizing t with
  | case1 => cases h
  | case2 =>
      obtain ⟨rfl, -⟩ := Prod.mk.inj h
      exact hclose
  | case3 => cases h
  | case4 cs ih =>
      obtain ⟨v, hv, rfl⟩ := Cut.push_eq_closed h
      simp [quotedCut, ih hv]
  | case5 b cs hb =>
      obtain ⟨rfl, -⟩ := Prod.mk.inj h
      exact hclose
  | case6 a b cs ha ih =>
      obtain ⟨v, hv, rfl⟩ := Cut.push_eq_closed h
      obtain ⟨w, rfl⟩ := quotedCut_head hv
      have hnext := ih hv
      simp only [List.cons_append, List.nil_append] at hnext ⊢
      rw [quotedCut, if_neg ha, hnext, Cut.push_mk, List.singleton_append]

/-- A closed quotation before its own quote goes on: the two quotes are one doubled quote. -/
theorem quotedCut_extends {quote : Char} {text t rest : Text}
    (h : quotedCut quote text = (t, some rest)) (rest' : Text) :
    quotedCut quote (t ++ quote :: rest') = (quotedCut quote rest').push (t ++ [quote]) := by
  have hdouble : quotedCut quote (quote :: quote :: rest') =
      (quotedCut quote rest').push [quote, quote] := by
    simp [quotedCut]
  fun_induction quotedCut quote text generalizing t with
  | case1 => cases h
  | case2 =>
      obtain ⟨rfl, -⟩ := Prod.mk.inj h
      exact hdouble
  | case3 => cases h
  | case4 cs ih =>
      obtain ⟨v, hv, rfl⟩ := Cut.push_eq_closed h
      simp [quotedCut, ih hv, Cut.push]
  | case5 b cs hb =>
      obtain ⟨rfl, -⟩ := Prod.mk.inj h
      exact hdouble
  | case6 a b cs ha ih =>
      obtain ⟨v, hv, rfl⟩ := Cut.push_eq_closed h
      obtain ⟨w, rfl⟩ := quotedCut_head hv
      have hnext := ih hv
      simp only [List.cons_append, List.nil_append] at hnext ⊢
      rw [quotedCut, if_neg ha, hnext]
      simp [Cut.push]

theorem dollarBodyCut_length {tag text t rest : Text}
    (h : dollarBodyCut tag text = (t, some rest)) : tag.length ≤ t.length := by
  fun_induction dollarBodyCut tag text generalizing t with
  | case1 => cases h
  | case2 c cs hp =>
      obtain ⟨rfl, -⟩ := Prod.mk.inj h
      exact Nat.le_refl _
  | case3 c cs hp ih =>
      obtain ⟨v, hv, rfl⟩ := Cut.push_eq_closed h
      have := ih hv
      simp only [List.length_append]
      omega

private theorem isPrefixOf_append_left {tag t : Text} (rest : Text) (h : tag.length ≤ t.length) :
    tag.isPrefixOf (t ++ rest) = tag.isPrefixOf t := by
  rw [Bool.eq_iff_iff, List.isPrefixOf_iff_prefix, List.isPrefixOf_iff_prefix]
  exact ⟨fun hp => List.prefix_of_prefix_length_le hp (List.prefix_append t rest) h,
    fun hp => hp.trans (List.prefix_append t rest)⟩

theorem dollarBodyCut_closed {tag text t rest : Text} (htag : tag ≠ [])
    (h : dollarBodyCut tag text = (t, some rest)) (rest' : Text) :
    dollarBodyCut tag (t ++ rest') = (t, some rest') := by
  fun_induction dollarBodyCut tag text generalizing t with
  | case1 => cases h
  | case2 c cs hp =>
      obtain ⟨rfl, -⟩ := Prod.mk.inj h
      obtain ⟨x, xs, rfl⟩ := List.exists_cons_of_ne_nil htag
      have hself : (x :: xs).isPrefixOf (x :: xs ++ rest') := by
        rw [List.isPrefixOf_iff_prefix]
        exact List.prefix_append _ _
      rw [List.cons_append, dollarBodyCut, ← List.cons_append, if_pos hself, List.drop_left]
  | case3 c cs hp ih =>
      obtain ⟨v, hv, rfl⟩ := Cut.push_eq_closed h
      -- the closing tag lies inside `v`, so what follows cannot make a tag at `c`
      have hlen : tag.length ≤ (c :: v).length := by
        have := dollarBodyCut_length hv
        simp only [List.length_cons]
        omega
      have hsplit := dollarBodyCut_splits tag cs
      rw [hv] at hsplit
      have hnot : ¬ tag.isPrefixOf (c :: (v ++ rest')) := by
        rw [← List.cons_append, isPrefixOf_append_left _ hlen]
        rwa [← hsplit, Cut.rest, Option.getD_some, ← List.cons_append,
          isPrefixOf_append_left _ hlen] at hp
      rw [List.singleton_append, List.cons_append, dollarBodyCut, if_neg hnot, ih hv, Cut.push_mk,
        List.singleton_append]

/-- A dollar tag is a prefix of the text, and reads the same before any text. -/
theorem tagTail_append {text tag : Text} (h : tagTail text = some tag) :
    ∃ rest, text = tag ++ rest ∧ ∀ rest', tagTail (tag ++ rest') = some tag := by
  fun_induction tagTail text generalizing tag with
  | case1 => cases h
  | case2 cs =>
      cases h
      exact ⟨cs, rfl, fun rest' => by simp [tagTail]⟩
  | case3 c cs hc htag ih =>
      obtain ⟨tail, htail, rfl⟩ := Option.map_eq_some_iff.mp h
      obtain ⟨rest, rfl, hall⟩ := ih htail
      exact ⟨rest, rfl, fun rest' => by simp [tagTail, hc, htag, hall rest']⟩
  | case4 => cases h

theorem dollarTagStr_eq_some {text tag : Text} (h : dollarTagStr text = some tag) :
    ∃ tail rest, tag = '$' :: tail ∧ text = tag ++ rest ∧
      ∀ rest', dollarTagStr (tag ++ rest') = some tag := by
  cases text with
  | nil => cases h
  | cons c cs =>
      rw [dollarTagStr] at h
      split at h
      case isFalse => cases h
      case isTrue hc =>
        obtain ⟨tail, htail, rfl⟩ := Option.map_eq_some_iff.mp h
        obtain ⟨rest, rfl, hall⟩ := tagTail_append htail
        refine ⟨tail, rest, by rw [hc], rfl, fun rest' => ?_⟩
        rw [List.cons_append, dollarTagStr, if_pos hc, hall rest', Option.map_some]

/-! ## Laws of the opened regions -/

/-- What a region of the text looks like, read off its first characters. -/
inductive Opened : Region → Cut → Text → Prop where
  | lineComment (cs : Text) :
      Opened .comment ((lineCommentCut cs).push ['-', '-']) ('-' :: '-' :: cs)
  | blockComment (cs : Text) :
      Opened .comment ((blockCommentCut 1 cs).push ['/', '*']) ('/' :: '*' :: cs)
  | string (cs : Text) : Opened .string ((quotedCut '\'' cs).push ['\'']) ('\'' :: cs)
  | quotedIdentifier (cs : Text) :
      Opened .quotedIdentifier ((quotedCut '"' cs).push ['"']) ('"' :: cs)
  | dollarBody (tail cs : Text)
      (htag : ∀ rest, dollarTagStr ('$' :: tail ++ rest) = some ('$' :: tail)) :
      Opened .dollarBody ((dollarBodyCut ('$' :: tail) cs).push ('$' :: tail)) ('$' :: tail ++ cs)

theorem protectedSpan_eq_some {text : Text} {r : Region} {cut : Cut}
    (h : protectedSpan text = some (r, cut)) : Opened r cut text := by
  cases text with
  | nil => cases h
  | cons c cs =>
      rw [protectedSpan] at h
      split_ifs at h with hline hblock hstring hident
      · obtain ⟨rfl, hcs⟩ := hline
        obtain ⟨ds, rfl⟩ := List.head?_eq_some_iff.mp hcs
        cases h
        exact .lineComment ds
      · obtain ⟨rfl, hcs⟩ := hblock
        obtain ⟨ds, rfl⟩ := List.head?_eq_some_iff.mp hcs
        cases h
        exact .blockComment ds
      · subst hstring
        cases h
        exact .string cs
      · subst hident
        cases h
        exact .quotedIdentifier cs

theorem openedSpan_eq_some {text : Text} {r : Region} {cut : Cut}
    (h : openedSpan text = some (r, cut)) : Opened r cut text := by
  unfold openedSpan at h
  split at h
  case h_1 hp =>
    cases h
    exact protectedSpan_eq_some hp
  case h_2 =>
    split at h
    case h_1 tag htag =>
      cases h
      obtain ⟨tail, rest, rfl, rfl, hall⟩ := dollarTagStr_eq_some htag
      rw [List.drop_left]
      exact .dollarBody tail rest hall
    case h_2 => cases h

theorem Opened.openedSpan_eq {text : Text} {r : Region} {cut : Cut} (h : Opened r cut text) :
    openedSpan text = some (r, cut) := by
  cases h with
  | dollarBody tail cs htag =>
      simp only [openedSpan, List.cons_append, protectedSpan]
      have := htag cs
      rw [List.cons_append] at this
      simp [this]
  | _ => simp [openedSpan, protectedSpan]

theorem Opened.splits {text : Text} {r : Region} {cut : Cut} (h : Opened r cut text) :
    cut.Splits text := by
  cases h with
  | lineComment cs => exact (lineCommentCut_splits cs).push _
  | blockComment cs => exact (blockCommentCut_splits 1 cs).push _
  | string cs => exact (quotedCut_splits _ cs).push _
  | quotedIdentifier cs => exact (quotedCut_splits _ cs).push _
  | dollarBody tail cs => exact (dollarBodyCut_splits _ cs).push _

/-- The first character of a region tells its kind. -/
def Region.opener : Region → Char → Prop
  | .code, _ => False
  | .string, c => c = '\''
  | .quotedIdentifier, c => c = '"'
  | .comment, c => c = '-' ∨ c = '/'
  | .dollarBody, c => c = '$'

theorem Opened.head {text : Text} {r : Region} {cut : Cut} (h : Opened r cut text) :
    ∃ c w, cut.1 = c :: w ∧ r.opener c := by
  cases h with
  | lineComment cs => exact ⟨_, _, rfl, .inl rfl⟩
  | blockComment cs => exact ⟨_, _, rfl, .inr rfl⟩
  | string cs => exact ⟨_, _, rfl, rfl⟩
  | quotedIdentifier cs => exact ⟨_, _, rfl, rfl⟩
  | dollarBody tail cs => exact ⟨_, _, rfl, rfl⟩

theorem Opened.rest_lt {text : Text} {r : Region} {cut : Cut} (h : Opened r cut text) :
    cut.rest.length < text.length := by
  obtain ⟨c, w, hw, -⟩ := h.head
  have hsplit := h.splits
  rw [Cut.Splits, hw] at hsplit
  simp only [← hsplit, List.length_append, List.length_cons]
  omega

/-- The quote that would extend a closed region. -/
def Region.quote : Region → Option Char
  | .string => some '\''
  | .quotedIdentifier => some '"'
  | _ => none

/-- A closed region reads the same before any text that does not open with its quote. -/
theorem Opened.closed {text t rest : Text} {r : Region} (h : Opened r (t, some rest) text)
    {rest' : Text} (hq : ∀ q, r.quote = some q → rest'.head? ≠ some q) :
    Opened r (t, some rest') (t ++ rest') := by
  generalize hcut : (t, some rest) = cut at h
  cases h with
  | lineComment cs =>
      obtain ⟨v, hv, rfl⟩ := Cut.push_eq_closed hcut.symm
      have := Opened.lineComment (v ++ rest')
      rwa [lineCommentCut_closed hv rest'] at this
  | blockComment cs =>
      obtain ⟨v, hv, rfl⟩ := Cut.push_eq_closed hcut.symm
      have := Opened.blockComment (v ++ rest')
      rwa [blockCommentCut_closed hv rest'] at this
  | string cs =>
      obtain ⟨v, hv, rfl⟩ := Cut.push_eq_closed hcut.symm
      have := Opened.string (v ++ rest')
      rwa [quotedCut_closed hv (hq _ rfl)] at this
  | quotedIdentifier cs =>
      obtain ⟨v, hv, rfl⟩ := Cut.push_eq_closed hcut.symm
      have := Opened.quotedIdentifier (v ++ rest')
      rwa [quotedCut_closed hv (hq _ rfl)] at this
  | dollarBody tail cs htag =>
      obtain ⟨v, hv, rfl⟩ := Cut.push_eq_closed hcut.symm
      have := Opened.dollarBody tail (v ++ rest') htag
      rwa [dollarBodyCut_closed (by simp) hv rest', Cut.push_mk, ← List.append_assoc] at this

/-- A quotation that closed was not followed by its quote. -/
theorem quotedCut_rest_head {quote : Char} {text t rest : Text}
    (h : quotedCut quote text = (t, some rest)) : rest.head? ≠ some quote := by
  fun_induction quotedCut quote text generalizing t with
  | case1 => cases h
  | case2 =>
      cases h
      simp
  | case3 => cases h
  | case4 cs ih =>
      obtain ⟨v, hv, -⟩ := Cut.push_eq_closed h
      exact ih hv
  | case5 b cs hb =>
      cases h
      simpa using hb
  | case6 a b cs ha ih =>
      obtain ⟨v, hv, -⟩ := Cut.push_eq_closed h
      exact ih hv

theorem Opened.rest_head {text t rest : Text} {r : Region} (h : Opened r (t, some rest) text)
    {q : Char} (hq : r.quote = some q) : rest.head? ≠ some q := by
  generalize hcut : (t, some rest) = cut at h
  cases h with
  | string cs =>
      cases hq
      obtain ⟨v, hv, -⟩ := Cut.push_eq_closed hcut.symm
      exact quotedCut_rest_head hv
  | quotedIdentifier cs =>
      cases hq
      obtain ⟨v, hv, -⟩ := Cut.push_eq_closed hcut.symm
      exact quotedCut_rest_head hv
  | lineComment | blockComment | dollarBody => cases hq

/-- The characters that stay code, whatever follows them. -/
def isInert (c : Char) : Bool :=
  !(c == '-' || c == '/' || c == '\'' || c == '"' || c == '$')

theorem openedSpan_eq_none_iff (c : Char) (cs : Text) :
    openedSpan (c :: cs) = none ↔
      ¬ (c = '-' ∧ cs.head? = some '-') ∧ ¬ (c = '/' ∧ cs.head? = some '*') ∧
        c ≠ '\'' ∧ c ≠ '"' ∧ (c = '$' → tagTail cs = none) := by
  simp only [openedSpan, protectedSpan, dollarTagStr]
  by_cases hline : c = '-' ∧ cs.head? = some '-'
  · simp [hline]
  by_cases hblock : c = '/' ∧ cs.head? = some '*'
  · simp [hblock]
  by_cases hstring : c = '\''
  · simp [hstring]
  by_cases hident : c = '"'
  · simp [hident]
  by_cases hdollar : c = '$'
  · subst hdollar
    cases tagTail cs <;> simp
  · simp [hline, hblock, hstring, hident, hdollar]

theorem openedSpan_of_isInert {c : Char} (h : isInert c) (cs : Text) :
    openedSpan (c :: cs) = none := by
  rw [openedSpan_eq_none_iff]
  simp only [isInert, Bool.not_eq_true', Bool.or_eq_false_iff, beq_eq_false_iff_ne] at h
  simp [h]

end NzRust.Sql
