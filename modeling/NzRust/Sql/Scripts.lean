import NzRust.Sql.Fragments

/-!
# Scripts

A script is put together from pieces of statements and semicolons. What either
rule set makes of a text is said of the text alone, whatever stands in front of
it; a piece is a text that both leave as they found it, so that scripts are
split where their own semicolons are.
-/

namespace NzRust.Sql

/-- Rules that open a dollar body at a dollar only and a procedure body where its word stands. -/
structure SplitRules.Usual (rules : SplitRules) : Prop where
  dollarTag : ∀ c cs, c ≠ '$' → rules.dollarTag (c :: cs) = none
  opensProc : ∀ text, rules.opensProc text = true → startsWithCi beginProc text = true
  wholeWord : ∀ text, startsWithCi beginProc text = true →
    atWordStart (text.drop 10).head? = true → rules.opensProc text = true

theorem splitterRules_usual : splitterRules.Usual where
  dollarTag c cs hc := by
    show dollarTag (c :: cs) = none
    rw [dollarTag, if_neg hc]
  opensProc _ h := h
  wholeWord _ h _ := h

theorem lexerRules_usual : lexerRules.Usual where
  dollarTag c cs hc := by
    show dollarTagStr (c :: cs) = none
    rw [dollarTagStr, if_neg hc]
  opensProc _ h := (Bool.and_eq_true_iff.mp h).1
  wholeWord _ h hend := Bool.and_eq_true_iff.mpr ⟨h, hend⟩

/-- The statements of a text, wherever it stands. -/
def SplitsInto (rules : SplitRules) (text : Text) (statements : List Text) : Prop :=
  ∀ fuel position prev, text.length ≤ fuel →
    (splitLoop rules fuel position prev text).map statementText = statements

theorem map_pushFirst {push : Push} {statements : List (List Push)} {s : Text} {ss : List Text}
    (h : statements.map statementText = s :: ss) :
    (pushFirst push statements).map statementText = (push.text ++ s) :: ss := by
  cases statements with
  | nil => cases h
  | cons first rest =>
      cases h
      rfl

theorem splitStep_quiet {rules : SplitRules} (hrules : rules.Usual) {c : Char}
    (hc : isPlain c = true) {cs : Text} (hproc : startsWithCi beginProc (c :: cs) = false)
    (position : Nat) (prev : Option Char) :
    splitStep rules position prev c cs = ⟨some (.code position c), [c], cs⟩ := by
  simp only [isPlain, isInert, Bool.and_eq_true, Bool.not_eq_true', Bool.or_eq_false_iff,
    beq_eq_false_iff_ne, bne_iff_ne] at hc
  obtain ⟨⟨⟨⟨⟨hminus, hslash⟩, hquote⟩, hident⟩, hdollar⟩, hsemicolon⟩ := hc
  have htag := hrules.dollarTag c cs hdollar
  have hopens : rules.opensProc (c :: cs) = false := by
    rw [Bool.eq_false_iff]
    intro hopens
    rw [hrules.opensProc _ hopens] at hproc
    cases hproc
  simp [splitStep, hquote, hident, hopens, htag, hminus, hslash, hsemicolon]

namespace SplitsInto

variable {rules : SplitRules}

theorem nil : SplitsInto rules [] [[]] := by
  intro fuel position prev _
  cases fuel <;> rfl

/-- One step that pushes, and the statements of the text behind it. -/
theorem step (consumed pushed : Text) {c : Char} {cs rest s : Text} {ss : List Text}
    (hstep : ∀ position prev, ∃ push : Push, push.text = pushed ∧
      splitStep rules position prev c cs = ⟨some push, consumed, rest⟩)
    (hlen : rest.length ≤ cs.length) (h : SplitsInto rules rest (s :: ss)) :
    SplitsInto rules (c :: cs) ((pushed ++ s) :: ss) := by
  intro fuel position prev hfuel
  rw [List.length_cons] at hfuel
  obtain ⟨fuel, rfl⟩ : ∃ k, fuel = k + 1 := ⟨fuel - 1, by omega⟩
  obtain ⟨push, rfl, heq⟩ := hstep position prev
  rw [splitLoop, heq]
  exact map_pushFirst (h fuel _ _ (by omega))

theorem semicolon (hrules : rules.Usual) {cs : Text} {ss : List Text} (h : SplitsInto rules cs ss) :
    SplitsInto rules (';' :: cs) ([] :: ss) := by
  intro fuel position prev hfuel
  rw [List.length_cons] at hfuel
  obtain ⟨fuel, rfl⟩ : ∃ k, fuel = k + 1 := ⟨fuel - 1, by omega⟩
  have htag := hrules.dollarTag ';' cs (by decide)
  have heq : splitStep rules position prev ';' cs = ⟨none, [';'], cs⟩ := by
    simp [splitStep, htag]
  rw [splitLoop, heq]
  exact congrArg ([] :: ·) (h fuel _ _ (by omega))

/-- A character of code. -/
theorem char (hrules : rules.Usual) {c : Char} (hc : isPlain c = true) {cs s : Text}
    {ss : List Text} (hproc : startsWithCi beginProc (c :: cs) = false)
    (h : SplitsInto rules cs (s :: ss)) : SplitsInto rules (c :: cs) ((c :: s) :: ss) :=
  step [c] [c] (fun position prev => ⟨.code position c, rfl,
    splitStep_quiet hrules hc hproc position prev⟩) (Nat.le_refl _) h

/-- A quotation that is not followed by another quote. -/
theorem quoted {quote : Char} (hquote : quote = '\'' ∨ quote = '"') {inside rest s : Text}
    {ss : List Text} (hinside : quotedCut quote inside = (inside, some []))
    (hrest : rest.head? ≠ some quote) (h : SplitsInto rules rest (s :: ss)) :
    SplitsInto rules (quote :: inside ++ rest) ((quote :: inside ++ s) :: ss) := by
  have hcut : quotedCut quote (inside ++ rest) = (inside, some rest) :=
    quotedCut_closed hinside hrest
  refine step (quote :: inside) (quote :: inside) ?_ (by simp) h
  intro position prev
  refine ⟨.quoted (quote :: inside), rfl, ?_⟩
  have happend : List.append inside rest = inside ++ rest := rfl
  rw [splitStep, if_pos hquote, happend, hcut]
  rfl

end SplitsInto

/-! ## Pieces -/

/-- A character that ends no opening of a procedure body and no quotation. -/
def isClear (c : Char) : Bool :=
  !beginProc.contains c.toLower && c != '\'' && c != '"'

def Clear (rest : Text) : Prop :=
  rest.head?.all isClear = true

/-- Code that anything may follow. -/
def isLeading (text : Text) : Bool :=
  text.all isPlain && opensNoProc text && text.getLast?.all isClear

/-- Code that may also follow a piece. -/
def isBetween (text : Text) : Bool :=
  !text.isEmpty && text.head?.all isClear && isLeading text

/-- A part of a statement that leaves the rules as it found them. -/
def IsPiece (rules : SplitRules) (text : Text) : Prop :=
  ∀ rest s ss, Clear rest → SplitsInto rules rest (s :: ss) →
    SplitsInto rules (text ++ rest) ((text ++ s) :: ss)

/-- The same where anything may follow. -/
def IsLead (rules : SplitRules) (text : Text) : Prop :=
  ∀ rest s ss, SplitsInto rules rest (s :: ss) →
    SplitsInto rules (text ++ rest) ((text ++ s) :: ss)

theorem Clear.outsideWord {rest : Text} (h : Clear rest) : outsideWord rest = true := by
  cases rest with
  | nil => rfl
  | cons c cs =>
      simp only [Clear, List.head?_cons, Option.all_some, isClear, Bool.and_eq_true] at h
      exact h.1.1

theorem Clear.head_ne {rest : Text} (h : Clear rest) {quote : Char}
    (hquote : quote = '\'' ∨ quote = '"') : rest.head? ≠ some quote := by
  cases rest with
  | nil => exact Option.some_ne_none quote |>.symm
  | cons c cs =>
      simp only [Clear, List.head?_cons, Option.all_some, isClear, Bool.and_eq_true,
        bne_iff_ne] at h
      rintro heq
      cases heq
      rcases hquote with rfl | rfl
      · exact h.1.2 rfl
      · exact h.2 rfl

/-- A word that a text does not begin with is not completed behind a character that it lacks. -/
theorem startsWithCi_append_last {text : Text} {c : Char} (hlast : text.getLast? = some c)
    (hc : isClear c = true) (h : startsWithCi beginProc text = false) (rest : Text) :
    startsWithCi beginProc (text ++ rest) = false := by
  have hword : beginProc.length = 10 := rfl
  by_cases hlen : 10 ≤ text.length
  · rwa [startsWithCi, hword, List.take_append_of_le_length hlen, ← hword]
  · rw [startsWithCi, hword, beq_eq_false_iff_ne]
    intro heq
    have hmem : c ∈ (text ++ rest).take 10 := by
      rw [List.take_append, List.take_of_length_le (by omega)]
      exact List.mem_append_left _ (List.mem_of_getLast? hlast)
    have hcontains : c.toLower ∈ beginProc := by
      rw [← heq]
      exact List.mem_map_of_mem hmem
    simp [isClear, hcontains] at hc

theorem Clear.between {code : Text} (hcode : isBetween code = true) (rest : Text) :
    Clear (code ++ rest) := by
  simp only [isBetween, Bool.and_eq_true, Bool.not_eq_true', List.isEmpty_eq_false_iff] at hcode
  obtain ⟨⟨hne, hhead⟩, -⟩ := hcode
  cases code with
  | nil => exact absurd rfl hne
  | cons c cs => exact hhead

theorem isLeading_between {code : Text} (h : isBetween code = true) : isLeading code = true := by
  rw [isBetween, Bool.and_eq_true] at h
  exact h.2

theorem isPiece_nil {rules : SplitRules} : IsPiece rules [] :=
  fun _ _ _ _ h => h

theorem IsPiece.append {rules : SplitRules} {front back : Text} (hfront : IsPiece rules front)
    (hback : IsPiece rules back) (hclear : ∀ rest, Clear rest → Clear (back ++ rest)) :
    IsPiece rules (front ++ back) := by
  intro rest s ss hrest hsplits
  rw [List.append_assoc, List.append_assoc]
  exact hfront _ _ _ (hclear rest hrest) (hback rest s ss hrest hsplits)

/-- A quoted text, whatever is in it. -/
theorem isPiece_quoted {rules : SplitRules} {quote : Char} (hquote : quote = '\'' ∨ quote = '"')
    {inside : Text} (hinside : quotedCut quote inside = (inside, some [])) :
    IsPiece rules (quote :: inside) :=
  fun _ _ _ hrest h => h.quoted hquote hinside (hrest.head_ne hquote)

theorem isPiece_text {rules : SplitRules} (value : Text) :
    IsPiece rules (appendQuotedText value) :=
  isPiece_quoted (.inl rfl) (quotedCut_doubleQuotes value)

section Pieces

variable {rules : SplitRules} (hrules : rules.Usual)

include hrules

/-- Code in front of a text, where no opening of a procedure body runs from one into the other. -/
theorem SplitsInto.code {text : Text} (hplain : text.all isPlain = true)
    (hproc : opensNoProc text = true) {rest s : Text} {ss : List Text}
    (hmeet : ∀ t, t ≠ [] → t <:+ text → startsWithCi beginProc t = false →
      startsWithCi beginProc (t ++ rest) = false)
    (h : SplitsInto rules rest (s :: ss)) :
    SplitsInto rules (text ++ rest) ((text ++ s) :: ss) := by
  induction text with
  | nil => exact h
  | cons c cs ih =>
      rw [List.all_cons, Bool.and_eq_true] at hplain
      rw [opensNoProc, Bool.and_eq_true, Bool.not_eq_true'] at hproc
      have htail := ih hplain.2 hproc.2 fun t hne ht =>
        hmeet t hne (ht.trans (List.suffix_cons c cs))
      exact htail.char hrules hplain.1 
        (hmeet (c :: cs) (List.cons_ne_nil c cs) List.suffix_rfl hproc.1)

theorem isPiece_code {text : Text} (hplain : text.all isPlain = true)
    (hproc : opensNoProc text = true) : IsPiece rules text :=
  fun _ _ _ hrest h =>
    h.code hrules hplain hproc fun _ _ _ ht => startsWithCi_append ht hrest.outsideWord

theorem isLead_leading {text : Text} (h : isLeading text = true) : IsLead rules text := by
  simp only [isLeading, Bool.and_eq_true] at h
  obtain ⟨⟨hplain, hproc⟩, hlast⟩ := h
  intro rest s ss hsplits
  refine hsplits.code hrules hplain hproc ?_
  rintro t hne ⟨front, rfl⟩ ht
  obtain ⟨c, hc⟩ := Option.ne_none_iff_exists'.mp (List.getLast?_eq_none_iff.not.mpr hne)
  rw [List.getLast?_append, hc] at hlast
  exact startsWithCi_append_last hc hlast ht rest

/-- Code in front of a piece. -/
theorem IsPiece.lead {code text : Text} (hcode : isLeading code = true) (h : IsPiece rules text) :
    IsPiece rules (code ++ text) := by
  intro rest s ss hrest hsplits
  have hpiece := isLead_leading hrules hcode _ _ _ (h rest s ss hrest hsplits)
  rwa [← List.append_assoc, ← List.append_assoc] at hpiece

/-- Code between two pieces. -/
theorem IsPiece.between {front code back : Text} (hfront : IsPiece rules front)
    (hcode : isBetween code = true) (hback : IsPiece rules back) :
    IsPiece rules (front ++ code ++ back) := by
  rw [List.append_assoc]
  refine hfront.append (hback.lead hrules (isLeading_between hcode)) fun rest _ => ?_
  rw [List.append_assoc]
  exact Clear.between hcode _

/-- Code behind a piece. -/
theorem IsPiece.behind {front code : Text} (hfront : IsPiece rules front)
    (hcode : isBetween code = true) : IsPiece rules (front ++ code) := by
  have hlead := isLead_leading hrules (isLeading_between hcode)
  exact hfront.append (fun rest s ss _ => hlead rest s ss) fun rest _ => Clear.between hcode rest

theorem isPiece_intercalate {sep : Text} (hsep : isBetween sep = true) {parts : List Text}
    (h : ∀ part ∈ parts, IsPiece rules part) : IsPiece rules (sep.intercalate parts) := by
  induction parts with
  | nil => exact isPiece_nil
  | cons part parts ih =>
      have hrest := ih fun p hp => h p (List.mem_cons_of_mem _ hp)
      have hpart := h part List.mem_cons_self
      cases parts with
      | nil => simpa [List.intercalate] using hpart
      | cons next parts =>
          have hbetween := hpart.between hrules hsep hrest
          rw [List.append_assoc] at hbetween
          simpa [List.intercalate, List.intersperse] using hbetween

end Pieces

/-! ## Procedure bodies -/

theorem findWordCi_newline (word text : Text) :
    findWordCi word (some '\n') text = findWordCi word none text := by
  have hstart : atWordStart (some '\n') = atWordStart none := by decide
  cases text with
  | nil => rfl
  | cons c cs => rw [findWordCi, findWordCi, hstart]

theorem startsWithCi_newline (text : Text) : startsWithCi endProc ('\n' :: text) = false := by
  have hword : endProc = 'e' :: "nd_proc".toList := by decide
  have hfirst : ('\n'.toLower == 'e') = false := by decide
  rw [startsWithCi, hword, List.length_cons, List.take_succ_cons, List.map_cons,
    List.cons_beq_cons, hfirst, Bool.false_and]

/-- A word that stands in the text up to its newline stands in the text. -/
theorem endProc_before_newline {text tail : Text}
    (h : (startsWithCi endProc (text ++ '\n' :: tail) &&
      atWordStart ((text ++ '\n' :: tail).drop endProc.length).head?) = true) :
    (startsWithCi endProc text && atWordStart (text.drop endProc.length).head?) = true := by
  have hword : endProc.length = 8 := rfl
  rw [Bool.and_eq_true] at h ⊢
  obtain ⟨hstarts, hend⟩ := h
  have hlen : 8 ≤ text.length := by
    by_contra hshort
    obtain ⟨k, hk⟩ : ∃ k, 8 - text.length = k + 1 := ⟨7 - text.length, by omega⟩
    have hmem : '\n' ∈ (text ++ '\n' :: tail).take 8 := by
      rw [List.take_append, hk, List.take_succ_cons]
      exact List.mem_append_right _ List.mem_cons_self
    rw [startsWithCi, hword, beq_iff_eq] at hstarts
    have hcontains : '\n'.toLower ∈ endProc := hstarts ▸ List.mem_map_of_mem hmem
    revert hcontains
    decide
  constructor
  · rwa [startsWithCi, hword, List.take_append_of_le_length hlen, ← hword] at hstarts
  · rw [hword, List.drop_append_of_le_length hlen] at hend
    rw [hword]
    cases hdrop : text.drop 8 with
    | nil => rfl
    | cons d ds =>
        rw [hdrop] at hend
        exact hend

/-- The search for the end of a body passes a text that does not have its word. -/
theorem findWordCi_behind {body rest : Text} {prev : Option Char}
    (hbody : findWordCi endProc prev body = none) (hrest : atWordStart rest.head? = true) :
    findWordCi endProc prev (body ++ '\n' :: ("END_PROC".toList ++ rest)) =
      some (body.length + 1) := by
  induction body generalizing prev with
  | nil =>
      have hfirst := startsWithCi_newline ("END_PROC".toList ++ rest)
      have hword : startsWithCi endProc ("END_PROC".toList ++ rest) = true := rfl
      have hend : atWordStart (("END_PROC".toList ++ rest).drop endProc.length).head? = true :=
        hrest
      have hnone : ¬ (atWordStart prev &&
          startsWithCi endProc ('\n' :: ("END_PROC".toList ++ rest)) &&
          atWordStart (('\n' :: ("END_PROC".toList ++ rest)).drop endProc.length).head?) =
            true := by
        rw [hfirst, Bool.and_false, Bool.false_and]
        exact Bool.false_ne_true
      have hfound : findWordCi endProc (some '\n') ("END_PROC".toList ++ rest) = some 0 := by
        show findWordCi endProc (some '\n') ('E' :: ("ND_PROC".toList ++ rest)) = some 0
        rw [findWordCi]
        refine if_pos ?_
        show (atWordStart (some '\n') && startsWithCi endProc ("END_PROC".toList ++ rest) &&
          atWordStart (("END_PROC".toList ++ rest).drop endProc.length).head?) = true
        rw [hword, hend]
        decide
      rw [List.nil_append, findWordCi, if_neg hnone, hfound]
      rfl
  | cons c cs ih =>
      rw [findWordCi] at hbody
      split at hbody
      · cases hbody
      next hnot =>
        rw [Option.map_eq_none_iff] at hbody
        rw [List.cons_append, findWordCi, if_neg ?_, ih hbody]
        · rfl
        · intro hhere
          refine hnot ?_
          rw [Bool.and_assoc, Bool.and_eq_true] at hhere ⊢
          exact ⟨hhere.1, endProc_before_newline hhere.2⟩

theorem procBodyLength_eq {body rest : Text} (hbody : findWordCi endProc none body = none)
    (hrest : atWordStart rest.head? = true) :
    procBodyLength ("BEGIN_PROC\n".toList ++ body ++ "\nEND_PROC".toList ++ rest) =
      ("BEGIN_PROC\n".toList ++ body ++ "\nEND_PROC".toList).length := by
  have hdrop : ("BEGIN_PROC\n".toList ++ body ++ "\nEND_PROC".toList ++ rest).drop 10 =
      '\n' :: (body ++ '\n' :: ("END_PROC".toList ++ rest)) := by
    rw [List.append_assoc, List.append_assoc]
    rfl
  have hfind : findWordCi endProc none
      ('\n' :: (body ++ '\n' :: ("END_PROC".toList ++ rest))) = some (body.length + 2) := by
    have hfirst := startsWithCi_newline (body ++ '\n' :: ("END_PROC".toList ++ rest))
    rw [findWordCi, hfirst, Bool.and_false, Bool.false_and, if_neg Bool.false_ne_true,
      findWordCi_behind (by rwa [findWordCi_newline]) hrest]
    rfl
  rw [procBodyLength, hdrop, hfind]
  simp
  omega

/-- A body on its own lines is a blank, whatever is in it but the word that ends it. -/
theorem SplitsInto.procBody {rules : SplitRules} (hrules : rules.Usual) {body : Text}
    (hbody : findWordCi endProc none body = none) {rest s : Text} {ss : List Text}
    (hrest : atWordStart rest.head? = true) (h : SplitsInto rules rest (s :: ss)) :
    SplitsInto rules
      ('\n' :: ("BEGIN_PROC\n".toList ++ body ++ "\nEND_PROC".toList ++ rest))
      (('\n' :: ' ' :: s) :: ss) := by
  intro fuel position prev hfuel
  have hlength := procBodyLength_eq hbody hrest
  have hopens : rules.opensProc
      ("BEGIN_PROC\n".toList ++ body ++ "\nEND_PROC".toList ++ rest) = true := by
    refine hrules.wholeWord _ ?_ ?_
    · rw [List.append_assoc, List.append_assoc]
      rfl
    · rw [List.append_assoc, List.append_assoc]
      show atWordStart (some '\n') = true
      decide
  have hconsumed : (("BEGIN_PROC\n".toList ++ body ++ "\nEND_PROC".toList) ++ rest).length ≤
      fuel - 1 := by
    rw [List.length_cons] at hfuel
    omega
  obtain ⟨cs, hcs⟩ : ∃ cs, "BEGIN_PROC\n".toList ++ body ++ "\nEND_PROC".toList = 'B' :: cs := by
    rw [List.append_assoc]
    exact ⟨_, rfl⟩
  rw [hcs] at hlength hopens hconsumed hfuel ⊢
  rw [List.cons_append] at hlength hopens hconsumed hfuel ⊢
  simp only [List.length_cons, List.length_append] at hconsumed hfuel
  obtain ⟨fuel, rfl⟩ : ∃ k, fuel = k + 2 := ⟨fuel - 2, by omega⟩
  have hfirst := splitStep_quiet hrules (show isPlain '\n' = true by decide)
    (startsWithCi_beginProc (by decide) ('B' :: (cs ++ rest))) position prev
  have hsecond : splitStep rules (position + 1) (some '\n') 'B' (cs ++ rest) =
      ⟨some .blank, 'B' :: cs, rest⟩ := by
    have hstart : atWordStart (some '\n') = true := by decide
    have htake : ('B' :: (cs ++ rest)).take ('B' :: cs).length = 'B' :: cs :=
      List.take_left' rfl
    have hdrop : ('B' :: (cs ++ rest)).drop ('B' :: cs).length = rest := List.drop_left' rfl
    rw [splitStep, if_neg (by decide), if_pos ⟨.inr rfl, hstart, hopens⟩, hlength]
    dsimp only
    rw [htake, hdrop]
    rfl
  rw [splitLoop, hfirst]
  dsimp only [List.length_singleton, List.getLast?_singleton]
  rw [splitLoop, hsecond]
  exact map_pushFirst (map_pushFirst (h fuel _ _ (by omega)))

/-! ## Scripts of statements -/

/-- The statements that are more than blanks, trimmed. -/
def proper (statements : List Text) : List Text :=
  (statements.map trim).filter (!·.isEmpty)

theorem proper_cons (s : Text) (ss : List Text) : proper (s :: ss) = proper [s] ++ proper ss := by
  rw [proper, List.map_cons, List.filter_cons, proper, proper, List.map_singleton]
  cases h : (trim s).isEmpty <;> simp [h]

theorem trim_newline (text : Text) : trim ('\n' :: text) = trim text := by
  rw [trim, trimStart, List.dropWhile_cons_of_pos (by decide), ← trimStart, ← trim]

theorem trim_concat (text : Text) {c : Char} (hc : isWhitespace c = true) :
    trim (text ++ [c]) = trim text := by
  rw [trim, trim, trimStart, trimStart, List.dropWhile_append]
  cases h : (text.dropWhile isWhitespace) with
  | nil =>
      rw [List.isEmpty_nil, if_pos rfl, List.dropWhile_cons_of_pos hc, List.dropWhile_nil]
  | cons d ds =>
      rw [if_neg (by simp), trimEnd, trimEnd, List.reverse_append, List.reverse_singleton,
        List.singleton_append, List.dropWhile_cons_of_pos hc]

theorem proper_newline (s : Text) (ss : List Text) :
    proper (('\n' :: s) :: ss) = proper (s :: ss) := by
  rw [proper_cons, proper, List.map_singleton, trim_newline, ← List.map_singleton, ← proper,
    ← proper_cons]

theorem proper_concat (s : Text) {c : Char} (hc : isWhitespace c = true) (ss : List Text) :
    proper ((s ++ [c]) :: ss) = proper (s :: ss) := by
  rw [proper_cons, proper, List.map_singleton, trim_concat s hc, ← List.map_singleton, ← proper,
    ← proper_cons]

theorem proper_blank (ss : List Text) : proper ([] :: ss) = proper ss :=
  rfl

/-- A line of a script: a blank one, or a statement with its semicolon. -/
def IsLine (rules : SplitRules) (line : Text) : Prop :=
  line = [] ∨ ∃ statement, line = statement ++ [';'] ∧ IsPiece rules statement

/-- A statement in front of a semicolon, and what the rules leave of it. -/
def IsFront (rules : SplitRules) (front seen : Text) : Prop :=
  ∀ rest ss, SplitsInto rules rest ss → SplitsInto rules (front ++ ';' :: rest) (seen :: ss)

section Lines

variable {rules : SplitRules} (hrules : rules.Usual)

include hrules

theorem SplitsInto.newline {rest s : Text} {ss : List Text} (h : SplitsInto rules rest (s :: ss)) :
    SplitsInto rules ('\n' :: rest) (('\n' :: s) :: ss) :=
  h.char hrules (by decide) (startsWithCi_beginProc (by decide) rest)

theorem IsPiece.isFront {text : Text} (h : IsPiece rules text) : IsFront rules text text := by
  intro rest ss hsplits
  have hend := h (';' :: rest) [] ss rfl (hsplits.semicolon hrules)
  rwa [List.append_nil] at hend

theorem lines_split {lines : List Text} (h : ∀ line ∈ lines, IsLine rules line) :
    ∃ s ss, SplitsInto rules (lines.flatMap ('\n' :: ·)) (s :: ss) ∧
      proper (s :: ss) = proper (lines.map List.dropLast) := by
  induction lines with
  | nil => exact ⟨[], [], .nil, rfl⟩
  | cons line lines ih =>
      obtain ⟨s, ss, hsplits, hproper⟩ := ih fun l hl => h l (List.mem_cons_of_mem _ hl)
      rw [List.flatMap_cons, List.map_cons]
      rcases h line List.mem_cons_self with rfl | ⟨statement, rfl, hpiece⟩
      · refine ⟨'\n' :: s, ss, hsplits.newline hrules, ?_⟩
        rw [proper_newline, hproper]
        exact (proper_blank _).symm
      · have hline := (hpiece.isFront hrules _ _ hsplits).newline hrules
        refine ⟨'\n' :: statement, s :: ss, ?_, ?_⟩
        · simpa only [List.cons_append, List.append_assoc, List.nil_append] using hline
        · rw [proper_newline, proper_cons, hproper, List.dropLast_concat, ← proper_cons]

/-- A script has the statements that its lines end, and none besides. -/
theorem script_statements {front seen : Text} (hfront : IsFront rules front seen)
    {lines : List Text} (h : ∀ line ∈ lines, IsLine rules line) :
    proper ((splitPushes rules (front ++ ';' :: lines.flatMap ('\n' :: ·))).map statementText) =
      proper (seen :: lines.map List.dropLast) := by
  obtain ⟨s, ss, hsplits, hproper⟩ := lines_split hrules h
  rw [splitPushes, hfront _ _ hsplits _ _ _ (Nat.le_refl _), proper_cons, hproper, ← proper_cons]

end Lines

end NzRust.Sql
