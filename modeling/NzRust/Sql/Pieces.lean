import Mathlib.Data.List.Forall2
import NzRust.Sql.Literals

/-!
# The pieces of a template

The scan of a template passes regions, numbered placeholders and single
characters of code. `pieces` lists them; what `SqlTemplate::parse` finds and
what `render` writes are read off that list, and so is the lexer's view of it.
-/

namespace NzRust.Sql

inductive Piece where
  | span (region : Region) (text : Text)
  | number (digits : Text)
  | char (c : Char)
  deriving DecidableEq, Repr

namespace Piece

def text : Piece → Text
  | .span _ text => text
  | .number digits => '$' :: digits
  | .char c => [c]

def marks : Piece → List Mark
  | .span region text => spanMarks region text
  | .number digits => codeMark :: List.replicate digits.length codeMark
  | .char _ => [codeMark]

@[simp] theorem marks_length (p : Piece) : p.marks.length = p.text.length := by
  cases p <;> simp [marks, text]

end Piece

def piecesLoop : Nat → Text → List Piece
  | 0, _ => []
  | _ + 1, [] => []
  | fuel + 1, c :: cs =>
      match openedSpan (c :: cs) with
      | some (r, cut) => .span r cut.1 :: piecesLoop fuel cut.rest
      | none =>
          match dollarNumber (c :: cs) with
          | some n => .number (cs.take n) :: piecesLoop fuel (cs.drop n)
          | none => .char c :: piecesLoop fuel cs

def pieces (sql : Text) : List Piece :=
  piecesLoop sql.length sql

/-- The cases of the scan. -/
inductive Pieced : Text → List Piece → Prop where
  | nil : Pieced [] []
  | span {text : Text} {r : Region} {cut : Cut} {ps : List Piece} (hopen : Opened r cut text)
      (rest : Pieced cut.rest ps) : Pieced text (.span r cut.1 :: ps)
  | number {cs : Text} {n : Nat} {ps : List Piece} (hopen : openedSpan ('$' :: cs) = none)
      (hnumber : dollarNumber ('$' :: cs) = some n) (rest : Pieced (cs.drop n) ps) :
      Pieced ('$' :: cs) (.number (cs.take n) :: ps)
  | char {c : Char} {cs : Text} {ps : List Piece} (hopen : openedSpan (c :: cs) = none)
      (hnumber : dollarNumber (c :: cs) = none) (rest : Pieced cs ps) :
      Pieced (c :: cs) (.char c :: ps)

/-- A number is the maximal run of digits behind its `$`. -/
theorem dollarNumber_spec {c : Char} {cs : Text} {n : Nat} (h : dollarNumber (c :: cs) = some n) :
    c = '$' ∧ 0 < n ∧ n ≤ cs.length ∧ (∀ d ∈ cs.take n, d.isDigit = true) ∧
      ∀ d, (cs.drop n).head? = some d → d.isDigit = false := by
  simp only [dollarNumber] at h
  split_ifs at h with hc hzero
  cases h
  have htake : cs.take (cs.takeWhile Char.isDigit).length = cs.takeWhile Char.isDigit :=
    (List.prefix_iff_eq_take.mp (List.takeWhile_prefix _)).symm
  have hdrop : cs.drop (cs.takeWhile Char.isDigit).length = cs.dropWhile Char.isDigit := by
    have hleft : (cs.takeWhile Char.isDigit ++ cs.dropWhile Char.isDigit).drop
        (cs.takeWhile Char.isDigit).length = cs.dropWhile Char.isDigit := List.drop_left
    rwa [List.takeWhile_append_dropWhile] at hleft
  refine ⟨hc, by omega, (List.takeWhile_prefix _).length_le, ?_, ?_⟩
  · rw [htake]
    intro d hd
    exact List.mem_takeWhile_imp hd
  · rw [hdrop]
    intro d hd
    have hnot := List.head?_dropWhile_not Char.isDigit cs
    rw [hd] at hnot
    simpa using hnot

theorem piecesLoop_pieced {fuel : Nat} {text : Text} (h : text.length ≤ fuel) :
    Pieced text (piecesLoop fuel text) := by
  induction fuel generalizing text with
  | zero =>
      obtain rfl : text = [] := List.length_eq_zero_iff.mp (by omega)
      exact .nil
  | succ fuel ih =>
      cases text with
      | nil => exact .nil
      | cons c cs =>
          simp only [List.length_cons] at h
          rw [piecesLoop]
          cases hopen : openedSpan (c :: cs) with
          | some span =>
              obtain ⟨r, cut⟩ := span
              have hopened := openedSpan_eq_some hopen
              have hlt := hopened.rest_lt
              simp only [List.length_cons] at hlt
              exact .span hopened (ih (by omega))
          | none =>
              cases hnumber : dollarNumber (c :: cs) with
              | none => exact .char hopen hnumber (ih (by omega))
              | some n =>
                  obtain ⟨rfl, hn, -, -, -⟩ := dollarNumber_spec hnumber
                  exact .number hopen hnumber (ih (by simp only [List.length_drop]; omega))

theorem pieces_pieced (sql : Text) : Pieced sql (pieces sql) :=
  piecesLoop_pieced (Nat.le_refl _)

namespace Pieced

variable {text : Text} {ps : List Piece}

/-- The pieces make up the text. -/
theorem flatMap_text (h : Pieced text ps) : ps.flatMap Piece.text = text := by
  induction h with
  | nil => rfl
  | span hopen _ ih =>
      rw [List.flatMap_cons, ih]
      exact hopen.splits
  | number hopen hnumber _ ih =>
      rw [List.flatMap_cons, ih, Piece.text, List.cons_append, List.take_append_drop]
  | char hopen hnumber _ ih =>
      rw [List.flatMap_cons, ih]
      rfl

/-- The lexer labels a text piece by piece. -/
theorem lexMarks_eq (h : Pieced text ps) :
    ∃ last, lexMarks text = ps.flatMap Piece.marks ++ [last] := by
  induction h with
  | nil => exact ⟨codeMark, rfl⟩
  | @span text r cut ps hopen rest ih =>
      obtain ⟨last, hlast⟩ := ih
      obtain ⟨t, tail⟩ := cut
      cases tail with
      | none =>
          cases rest with
          | nil => exact ⟨⟨r, false⟩, by rw [lexMarks_unclosed hopen]; simp [Piece.marks]⟩
          | span hopen' =>
              have hlt := hopen'.rest_lt
              simp [Cut.rest] at hlt
      | some tail =>
          refine ⟨last, ?_⟩
          rw [lexMarks_closed hopen, List.flatMap_cons, List.append_assoc, ← hlast]
          rfl
  | @number cs n ps hopen hnumber rest ih =>
      obtain ⟨last, hlast⟩ := ih
      obtain ⟨-, -, -, hdigits, -⟩ := dollarNumber_spec hnumber
      have hinert : (cs.take n).all isInert := by
        rw [List.all_eq_true]
        intro d hd
        exact isInert_of_isDigit (hdigits d hd)
      refine ⟨last, ?_⟩
      have hinner := lexMarks_inert hinert (cs.drop n)
      rw [List.take_append_drop] at hinner
      rw [lexMarks_code hopen, hinner, hlast, List.flatMap_cons]
      simp [Piece.marks]
  | @char c cs ps hopen hnumber rest ih =>
      obtain ⟨last, hlast⟩ := ih
      refine ⟨last, ?_⟩
      rw [lexMarks_code hopen, hlast, List.flatMap_cons]
      rfl

end Pieced

/-! ## Placeholders -/

/-- The placeholders of pieces that begin at position `i`. -/
def numbered : Nat → List Piece → List SqlPlaceholder
  | _, [] => []
  | i, .number digits :: ps =>
      ⟨i, i + 1 + digits.length, (parseUsize digits).getD 0⟩ :: numbered (i + 1 + digits.length) ps
  | i, .span _ t :: ps => numbered (i + t.length) ps
  | i, .char _ :: ps => numbered (i + 1) ps

theorem parseLoop_eq (fuel i : Nat) (text : Text) :
    parseLoop fuel i text = numbered i (piecesLoop fuel text) := by
  induction fuel generalizing i text with
  | zero => rfl
  | succ fuel ih =>
      cases text with
      | nil => rfl
      | cons c cs =>
          rw [parseLoop, piecesLoop]
          cases hopen : openedSpan (c :: cs) with
          | some span => exact ih _ _
          | none =>
              cases hnumber : dollarNumber (c :: cs) with
              | none => exact ih _ _
              | some n =>
                  obtain ⟨-, -, hn, -, -⟩ := dollarNumber_spec hnumber
                  have hlen : (cs.take n).length = n := by
                    rw [List.length_take]
                    omega
                  dsimp only [numbered]
                  rw [hlen, ih]

/-- A rendering read off the pieces, with the parameters it uses. -/
def renderPieces (parameterCount : Nat) (writeParameter : Nat → Except String Text) :
    List Piece → Except String (Text × List Nat)
  | [] => .ok ([], [])
  | .number digits :: ps =>
      let index := (parseUsize digits).getD 0
      if index = 0 ∨ parameterCount < index then .error (missingValue ('$' :: digits))
      else
        match writeParameter (index - 1) with
        | .error e => .error e
        | .ok literal =>
            (renderPieces parameterCount writeParameter ps).map fun (out, used) =>
              (literal ++ out, (index - 1) :: used)
  | p :: ps =>
      (renderPieces parameterCount writeParameter ps).map fun (out, used) => (p.text ++ out, used)

/-- A slice that ends behind `t` is the one that ends before it, and `t`. -/
theorem slice_append {source t rest : Text} {i previous : Nat} (hdrop : source.drop i = t ++ rest)
    (hi : i ≤ source.length) (hprevious : previous ≤ i) :
    (source.take (i + t.length)).drop previous = (source.take i).drop previous ++ t := by
  rw [List.take_add, hdrop, List.take_left, List.drop_append_of_le_length (by simp; omega)]

theorem drop_append {source t rest : Text} {i : Nat} (hdrop : source.drop i = t ++ rest) :
    source.drop (i + t.length) = rest := by
  rw [← List.drop_drop, hdrop, List.drop_left]

theorem length_of_drop {source t rest : Text} {i : Nat} (hdrop : source.drop i = t ++ rest)
    (hi : i ≤ source.length) : i + t.length ≤ source.length := by
  have hlen : source.length - i = t.length + rest.length := by
    rw [← List.length_drop, hdrop, List.length_append]
  omega

section Render

variable (source : Text) (parameterCount : Nat) (writeParameter : Nat → Except String Text)

/-- A piece that is copied does not show in the loop of `render`. -/
theorem renderLoop_copied {p : Piece} {ps : List Piece} {i previous : Nat} {result : Text}
    {used : List Nat} {rest : Text} (hdrop : source.drop i = p.text ++ rest)
    (hi : i ≤ source.length) (hprevious : previous ≤ i)
    (hrender : renderPieces parameterCount writeParameter (p :: ps) =
      (renderPieces parameterCount writeParameter ps).map fun (out, used) => (p.text ++ out, used))
    (hrest : renderLoop source parameterCount writeParameter (numbered (i + p.text.length) ps)
        previous result used =
      (renderPieces parameterCount writeParameter ps).map fun (out, found) =>
        (result ++ (source.take (i + p.text.length)).drop previous ++ out, found.reverse ++ used))
    (hnumbered : numbered i (p :: ps) = numbered (i + p.text.length) ps) :
    renderLoop source parameterCount writeParameter (numbered i (p :: ps)) previous result used =
      (renderPieces parameterCount writeParameter (p :: ps)).map fun (out, found) =>
        (result ++ (source.take i).drop previous ++ out, found.reverse ++ used) := by
  rw [hnumbered, hrest, hrender, slice_append hdrop hi hprevious]
  cases renderPieces parameterCount writeParameter ps with
  | error e => rfl
  | ok found =>
      obtain ⟨out, found⟩ := found
      simp [Except.map]

/-- `render` over the placeholders of a text is the rendering of its pieces. -/
theorem renderLoop_pieces {text : Text} {ps : List Piece} (h : Pieced text ps) {i previous : Nat}
    (hdrop : source.drop i = text) (hi : i ≤ source.length) (hprevious : previous ≤ i)
    (result : Text) (used : List Nat) :
    renderLoop source parameterCount writeParameter (numbered i ps) previous result used =
      (renderPieces parameterCount writeParameter ps).map fun (out, found) =>
        (result ++ (source.take i).drop previous ++ out, found.reverse ++ used) := by
  induction h generalizing i previous result used with
  | nil =>
      have hend : source.length ≤ i := List.drop_eq_nil_iff.mp hdrop
      simp [numbered, renderLoop, renderPieces, Except.map, List.take_of_length_le hend]
  | @span text r cut ps hopen rest ih =>
      have hsplit : source.drop i = cut.1 ++ cut.rest := hdrop.trans hopen.splits.symm
      exact renderLoop_copied (p := .span r cut.1) source parameterCount writeParameter hsplit hi
        hprevious rfl (ih (drop_append hsplit) (length_of_drop hsplit hi)
          (Nat.le_add_right_of_le hprevious) _ _) rfl
  | @char c cs ps hopen hnumber rest ih =>
      have hsplit : source.drop i = [c] ++ cs := hdrop
      exact renderLoop_copied (p := .char c) source parameterCount writeParameter hsplit hi
        hprevious rfl (ih (drop_append hsplit) (length_of_drop hsplit hi)
          (Nat.le_add_right_of_le hprevious) _ _) rfl
  | @number cs n ps hopen hnumber rest ih =>
      have hsplit : source.drop i = ('$' :: cs.take n) ++ cs.drop n := by
        rw [hdrop, List.cons_append, List.take_append_drop]
      have hstop : i + ('$' :: cs.take n).length = i + 1 + (cs.take n).length := by
        rw [List.length_cons]
        omega
      have hi' := length_of_drop hsplit hi
      have hrest := drop_append hsplit
      rw [hstop] at hi' hrest
      have htoken : (source.take (i + 1 + (cs.take n).length)).drop i = '$' :: cs.take n := by
        have hslice := slice_append hsplit hi (Nat.le_refl i)
        rw [hstop] at hslice
        rw [hslice, List.drop_of_length_le (List.length_take_le _ _), List.nil_append]
      rw [numbered, renderLoop, renderPieces, htoken]
      by_cases hrange : (parseUsize (cs.take n)).getD 0 = 0 ∨
          parameterCount < (parseUsize (cs.take n)).getD 0
      · rw [if_pos hrange, if_pos hrange]
        rfl
      · rw [if_neg hrange, if_neg hrange]
        cases writeParameter ((parseUsize (cs.take n)).getD 0 - 1) with
        | error e => rfl
        | ok literal =>
            dsimp only
            rw [ih hrest hi' (Nat.le_refl _), List.drop_of_length_le (List.length_take_le _ _)]
            cases renderPieces parameterCount writeParameter ps with
            | error e => rfl
            | ok found => simp [Except.map]

/-- The loop of `render` over what `parse` found. -/
theorem renderLoop_parse :
    renderLoop source parameterCount writeParameter (parseLoop source.length 0 source) 0 [] [] =
      (renderPieces parameterCount writeParameter (pieces source)).map fun (out, found) =>
        (out, found.reverse) := by
  have hloop := renderLoop_pieces source parameterCount writeParameter (pieces_pieced source)
    List.drop_zero (Nat.zero_le _) (Nat.le_refl _) [] []
  rw [parseLoop_eq]
  exact hloop.trans (by simp)

end Render

end NzRust.Sql
