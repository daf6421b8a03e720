import NzRust.Sql.Regions

/-!
# The statement splitter

`split_statements` is a second lexer: it cuts block comments at the first `*/`,
accepts digits in dollar tags and takes any identifier that begins with
`BEGIN_PROC` for the opening of a procedure body. These three rules are the
fields of `SplitRules`, and the loop over them is shared with `lexerRules`, the
same splitting done with the rules of the parameter lexer.
-/

namespace NzRust.Sql

/-- What the splitter pushes onto the current statement. -/
inductive Push where
  | code (position : Nat) (c : Char)
  | quoted (text : Text)
  | blank
  deriving DecidableEq, Repr

def Push.text : Push → Text
  | .code _ c => [c]
  | .quoted t => t
  | .blank => [' ']

/-- The rules on which the two lexers differ: the block comment behind `/*`, the dollar tag and the
opening of a procedure body at the start of a word. -/
structure SplitRules where
  blockComment : Text → Cut
  dollarTag : Text → Option Text
  opensProc : Text → Bool

/-- A block comment up to the first `*/`. -/
def flatCommentCut : Text → Cut
  | a :: b :: cs =>
      if a = '*' ∧ b = '/' then ([a, b], some cs) else (flatCommentCut (b :: cs)).push [a]
  | text => (text, none)

def isTagOrDigit (c : Char) : Bool :=
  c.isAlphanum || c == '_'

def digitTagTail : Text → Option Text
  | [] => none
  | c :: cs =>
      if c = '$' then some [c]
      else if isTagOrDigit c then (digitTagTail cs).map (c :: ·)
      else none

/-- The splitter's `dollar_tag`. -/
def dollarTag : Text → Option Text
  | [] => none
  | c :: cs => if c = '$' then (digitTagTail cs).map (c :: ·) else none

/-- Not preceded by a character of an identifier. -/
def atWordStart (prev : Option Char) : Bool :=
  !prev.any isIdentifierPart

def startsWithCi (word text : Text) : Bool :=
  (text.take word.length).map Char.toLower == word

/-- `find_word_ci` of a lower-case word behind the character `prev` of the haystack. -/
def findWordCi (word : Text) : Option Char → Text → Option Nat
  | _, [] => none
  | prev, c :: cs =>
      if atWordStart prev && startsWithCi word (c :: cs) &&
          atWordStart ((c :: cs).drop word.length).head? then some 0
      else (findWordCi word (some c) cs).map (· + 1)

def beginProc : Text := "begin_proc".toList

def endProc : Text := "end_proc".toList

/-- A procedure body up to and with its `END_PROC`. -/
def procBodyLength (text : Text) : Nat :=
  match findWordCi endProc none (text.drop 10) with
  | some offset => 10 + offset + 8
  | none => text.length

/-- One step of the splitter: what it pushes (nothing at a semicolon), the text it passes and the
text that remains. -/
structure SplitStep where
  push : Option Push
  consumed : Text
  rest : Text
  deriving DecidableEq, Repr

def SplitStep.blank (cut : Cut) : SplitStep :=
  ⟨some .blank, cut.1, cut.rest⟩

def SplitStep.quoted (cut : Cut) : SplitStep :=
  ⟨some (.quoted cut.1), cut.1, cut.rest⟩

/-- The text of a line comment without its newline. -/
def beforeNewline (text : Text) : Cut :=
  (text.takeWhile (· != '\n'), some (text.dropWhile (· != '\n')))

def splitStep (rules : SplitRules) (position : Nat) (prev : Option Char) (c : Char) (cs : Text) :
    SplitStep :=
  if c = '\'' ∨ c = '"' then .quoted ((quotedCut c cs).push [c])
  else if (c = 'b' ∨ c = 'B') ∧ atWordStart prev ∧ rules.opensProc (c :: cs) then
    let n := procBodyLength (c :: cs)
    .blank ((c :: cs).take n, some ((c :: cs).drop n))
  else
    match rules.dollarTag (c :: cs) with
    | some tag => .blank ((dollarBodyCut tag ((c :: cs).drop tag.length)).push tag)
    | none =>
        if c = '-' ∧ cs.head? = some '-' then .blank (beforeNewline (c :: cs))
        else if c = '/' ∧ cs.head? = some '*' then
          .blank ((rules.blockComment cs.tail).push ['/', '*'])
        else if c = ';' then ⟨none, [c], cs⟩
        else ⟨some (.code position c), [c], cs⟩

/-- Adds a push to the statement in front. -/
def pushFirst (push : Push) : List (List Push) → List (List Push)
  | [] => [[push]]
  | statement :: statements => (push :: statement) :: statements

/-- The pushes of the statements from `position` on, at most `fuel` steps. -/
def splitLoop (rules : SplitRules) : Nat → Nat → Option Char → Text → List (List Push)
  | 0, _, _, _ => [[]]
  | _ + 1, _, _, [] => [[]]
  | fuel + 1, position, prev, c :: cs =>
      let step := splitStep rules position prev c cs
      let statements := splitLoop rules fuel (position + step.consumed.length)
        step.consumed.getLast? step.rest
      match step.push with
      | some push => pushFirst push statements
      | none => [] :: statements

def splitterRules : SplitRules where
  blockComment := flatCommentCut
  dollarTag := dollarTag
  opensProc := startsWithCi beginProc

/-- The rules of the parameter lexer, with procedure bodies opened by the whole word only. -/
def lexerRules : SplitRules where
  blockComment := blockCommentCut 1
  dollarTag := dollarTagStr
  opensProc text := startsWithCi beginProc text && atWordStart (text.drop 10).head?

def splitPushes (rules : SplitRules) (sql : Text) : List (List Push) :=
  splitLoop rules sql.length 0 none sql

def statementText (statement : List Push) : Text :=
  statement.flatMap Push.text

def splitStatements (sql : Text) : List Text :=
  (splitPushes splitterRules sql).map statementText

theorem startsWithCi_beginProc {c : Char} (h : c.toLower ≠ 'b') (cs : Text) :
    startsWithCi beginProc (c :: cs) = false := by
  have hword : beginProc = 'b' :: "egin_proc".toList := by decide
  rw [hword, startsWithCi, List.length_cons, List.take_succ_cons, List.map_cons,
    List.cons_beq_cons, beq_eq_false_iff_ne.mpr h, Bool.false_and]

/-! ## Texts that both rule sets split alike -/

/-- A block comment that opens another one before it closes, from behind its `/*`. -/
def nestedOpen : Text → Bool
  | a :: b :: cs =>
      if a = '/' ∧ b = '*' then true
      else if a = '*' ∧ b = '/' then false
      else nestedOpen (b :: cs)
  | _ => false

/-- At this position of code the two rule sets agree: no nested comment opens, no dollar tag with a
digit, and no identifier that only begins with `BEGIN_PROC`. -/
def alikeAt (prev : Option Char) (c : Char) (cs : Text) : Bool :=
  !(c == '/' && cs.head? == some '*' && nestedOpen cs.tail) &&
  ((dollarTag (c :: cs)).isNone || (dollarTagStr (c :: cs)).isSome) &&
  !(atWordStart prev && startsWithCi beginProc (c :: cs) &&
    !atWordStart ((c :: cs).drop 10).head?)

/-- `alikeAt` at every position that the lexer's splitting visits. -/
def alikeLoop : Nat → Option Char → Text → Bool
  | 0, _, _ => true
  | _ + 1, _, [] => true
  | fuel + 1, prev, c :: cs =>
      let step := splitStep lexerRules 0 prev c cs
      alikeAt prev c cs && alikeLoop fuel step.consumed.getLast? step.rest

def alike (sql : Text) : Bool :=
  alikeLoop sql.length none sql

theorem flatCommentCut_eq {text : Text} (h : nestedOpen text = false) :
    blockCommentCut 1 text = flatCommentCut text := by
  fun_induction flatCommentCut text with
  | case1 a b cs hclose =>
      rw [blockCommentCut, if_neg (by rintro ⟨rfl, rfl⟩; exact absurd hclose (by decide)),
        if_pos hclose, if_pos rfl]
  | case2 a b cs hclose ih =>
      have hopen : ¬ (a = '/' ∧ b = '*') := by
        intro hab
        rw [nestedOpen, if_pos hab] at h
        cases h
      rw [nestedOpen, if_neg hopen, if_neg hclose] at h
      rw [blockCommentCut, if_neg hopen, if_neg hclose, ih h]
  | case3 => rw [blockCommentCut]; assumption

/-- Every tag of the lexer is one of the splitter. -/
theorem digitTagTail_of_tagTail {text tag : Text} (h : tagTail text = some tag) :
    digitTagTail text = some tag := by
  fun_induction tagTail text generalizing tag with
  | case1 => cases h
  | case2 cs =>
      cases h
      simp [digitTagTail]
  | case3 c cs hc htag ih =>
      obtain ⟨tail, htail, rfl⟩ := Option.map_eq_some_iff.mp h
      have hwide : isTagOrDigit c := by
        simp only [isTagChar, isTagOrDigit, Char.isAlphanum, Bool.or_eq_true] at htag ⊢
        rcases htag with h | h
        · exact .inl (.inl h)
        · exact .inr h
      rw [digitTagTail, if_neg hc, if_pos hwide, ih htail, Option.map_some]
  | case4 => cases h

theorem dollarTag_of_dollarTagStr {text tag : Text} (h : dollarTagStr text = some tag) :
    dollarTag text = some tag := by
  cases text with
  | nil => cases h
  | cons c cs =>
      rw [dollarTagStr] at h
      split_ifs at h with hc
      obtain ⟨tail, htail, rfl⟩ := Option.map_eq_some_iff.mp h
      rw [dollarTag, if_pos hc, digitTagTail_of_tagTail htail, Option.map_some]

theorem splitStep_alike {prev : Option Char} {c : Char} {cs : Text} (h : alikeAt prev c cs)
    (position : Nat) :
    splitStep splitterRules position prev c cs = splitStep lexerRules position prev c cs := by
  simp only [alikeAt, Bool.and_eq_true, Bool.not_eq_true', Bool.or_eq_true,
    Option.isNone_iff_eq_none] at h
  obtain ⟨⟨hcomment, htag⟩, hproc⟩ := h
  have htags : dollarTag (c :: cs) = dollarTagStr (c :: cs) := by
    cases hstr : dollarTagStr (c :: cs) with
    | some tag => exact dollarTag_of_dollarTagStr hstr
    | none =>
        rcases htag with hnone | hsome
        · exact hnone
        · rw [hstr] at hsome
          cases hsome
  have hprocs : (c = 'b' ∨ c = 'B') ∧ atWordStart prev ∧ splitterRules.opensProc (c :: cs) ↔
      (c = 'b' ∨ c = 'B') ∧ atWordStart prev ∧ lexerRules.opensProc (c :: cs) := by
    simp only [splitterRules, lexerRules, Bool.and_eq_true]
    constructor
    · intro ⟨hc, hstart, hword⟩
      rw [hstart, hword] at hproc
      exact ⟨hc, hstart, hword, by simpa using hproc⟩
    · intro ⟨hc, hstart, hword, _⟩
      exact ⟨hc, hstart, hword⟩
  have hcut : c = '/' ∧ cs.head? = some '*' →
      flatCommentCut cs.tail = blockCommentCut 1 cs.tail := by
    intro ⟨hc, hstar⟩
    refine (flatCommentCut_eq ?_).symm
    simpa [hc, hstar] using hcomment
  have hdollar : splitterRules.dollarTag (c :: cs) = lexerRules.dollarTag (c :: cs) := htags
  have hblock : c = '/' ∧ cs.head? = some '*' →
      splitterRules.blockComment cs.tail = lexerRules.blockComment cs.tail := hcut
  simp only [splitStep, hprocs, hdollar]
  split
  · rfl
  split
  · rfl
  split
  · rfl
  split
  · rfl
  split
  case isTrue hslash => rw [hblock hslash]
  case isFalse => rfl

theorem splitStep_consumed (rules : SplitRules) (p q : Nat) (prev : Option Char) (c : Char)
    (cs : Text) :
    (splitStep rules p prev c cs).consumed = (splitStep rules q prev c cs).consumed ∧
      (splitStep rules p prev c cs).rest = (splitStep rules q prev c cs).rest := by
  simp only [splitStep]
  repeat' split
  all_goals exact ⟨rfl, rfl⟩

/-- Where they agree at every position, the splitter finds the statements of the lexer. -/
theorem splitLoop_alike (fuel : Nat) (position : Nat) (prev : Option Char) (text : Text)
    (h : alikeLoop fuel prev text) :
    splitLoop splitterRules fuel position prev text =
      splitLoop lexerRules fuel position prev text := by
  induction fuel generalizing position prev text with
  | zero => rfl
  | succ fuel ih =>
      cases text with
      | nil => rfl
      | cons c cs =>
          rw [alikeLoop, Bool.and_eq_true] at h
          obtain ⟨hat, hrest⟩ := h
          obtain ⟨hconsumed, hrest'⟩ := splitStep_consumed lexerRules 0 position prev c cs
          rw [hconsumed, hrest'] at hrest
          rw [splitLoop, splitLoop, splitStep_alike hat, ih _ _ _ hrest]

theorem splitPushes_alike {sql : Text} (h : alike sql) :
    splitPushes splitterRules sql = splitPushes lexerRules sql :=
  splitLoop_alike _ _ _ _ h

end NzRust.Sql
