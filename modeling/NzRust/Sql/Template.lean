import NzRust.Sql.ByteScan

/-!
# Templates

What `SqlTemplate::parse` finds in a text and what `render` makes of it, in
bytes.
-/

namespace NzRust.Sql

open Checked

/-- `SqlTemplate::parse`; `none` when `fuel` turns of its loop do not reach the end. -/
def parseBytes (fuel : Nat) (sql : Text) : Option (Exec String SqlTemplate) :=
  if sql.contains '\x00' then some (fail "SQL cannot contain NUL")
  else (scanLoop sql fuel {}).map fun found => found.map fun placeholders => ⟨sql, placeholders⟩

/-- `used_parameters[index] = true`. -/
def setUsed (used : List Bool) (index : Nat) : Exec String (List Bool) :=
  if index < used.length then .ok (used.set index true) else panics

/-- The loop of `render` over byte ranges. -/
def renderBytesLoop (source : Text) (parameterCount : Nat)
    (writeParameter : Nat → Except String Text) :
    List SqlPlaceholder → Nat → Text → List Bool → Exec String (Text × List Bool)
  | [], previous, result, used => do
      let tail ← strFrom source previous
      .ok (result ++ tail, used)
  | p :: ps, previous, result, used => do
      let text ← strRange source previous p.start
      if p.index = 0 ∨ parameterCount < p.index then
        let token ← strRange source p.start p.stop
        fail (missingValue token)
      else
        let used ← setUsed used (p.index - 1)
        let literal ← lift (writeParameter (p.index - 1))
        renderBytesLoop source parameterCount writeParameter ps p.stop (result ++ text ++ literal) used

def renderBytes (template : SqlTemplate) (parameterCount : Nat)
    (writeParameter : Nat → Except String Text) : Exec String Text := do
  let (result, used) ← renderBytesLoop template.source parameterCount writeParameter
    template.placeholders 0 [] (List.replicate parameterCount false)
  if used.any (!·) then fail "Unused SQL parameter value" else .ok result

/-! ## What a placeholder covers -/

/-- The characters from `start` on are a `$` and the maximal run of digits behind it, all code. -/
structure Covers (sql : Text) (p : SqlPlaceholder) (digits : Text) : Prop where
  token : (sql.take p.stop).drop p.start = '$' :: digits
  stop : p.stop = p.start + 1 + digits.length
  inside : p.stop ≤ sql.length
  digits_ne : digits ≠ []
  digits_all : ∀ d ∈ digits, d.isDigit = true
  maximal : ∀ d, (sql.drop p.stop).head? = some d → d.isDigit = false
  code : ∀ k, p.start ≤ k → k < p.stop → (lexMarks sql)[k]? = some codeMark
  index : p.index = (parseUsize digits).getD 0

/-- Placeholders behind position `i`, one behind the other. -/
def Ordered : Nat → List SqlPlaceholder → Prop
  | _, [] => True
  | i, p :: ps => i ≤ p.start ∧ p.start < p.stop ∧ Ordered p.stop ps

theorem Ordered.weaken {i j : Nat} {ps : List SqlPlaceholder} (h : Ordered i ps) (hj : j ≤ i) :
    Ordered j ps := by
  cases ps with
  | nil => trivial
  | cons p ps => exact ⟨hj.trans h.1, h.2⟩

theorem Ordered.after {i : Nat} {ps : List SqlPlaceholder} (h : Ordered i ps) :
    ∀ p ∈ ps, i ≤ p.start := by
  induction ps generalizing i with
  | nil =>
      intro p hp
      cases hp
  | cons q ps ih =>
      obtain ⟨hstart, hstop, hrest⟩ := h
      intro p hp
      rcases List.mem_cons.mp hp with rfl | hp
      · exact hstart
      · exact hstart.trans (hstop.le.trans (ih hrest p hp))

theorem Ordered.pairwise {i : Nat} {ps : List SqlPlaceholder} (h : Ordered i ps) :
    ps.Pairwise fun p q => p.stop ≤ q.start := by
  induction ps generalizing i with
  | nil => exact .nil
  | cons p ps ih =>
      obtain ⟨-, -, hrest⟩ := h
      exact .cons (fun q hq => hrest.after q hq) (ih hrest)

theorem numbered_ordered (i : Nat) (ps : List Piece) : Ordered i (numbered i ps) := by
  induction ps generalizing i with
  | nil => trivial
  | cons p ps ih =>
      cases p with
      | span r t => exact (ih _).weaken (Nat.le_add_right i _)
      | number digits => exact ⟨Nat.le_refl i, by dsimp only; omega, ih _⟩
      | char c => exact (ih _).weaken (Nat.le_add_right i 1)

theorem drop_marks (p : Piece) (ms : List Mark) : (p.marks ++ ms).drop p.text.length = ms :=
  List.drop_left' p.marks_length

theorem numbered_covers {sql : Text} {text : Text} {ps : List Piece} (h : Pieced text ps) {i : Nat}
    {last : Mark} (hdrop : sql.drop i = text) (hi : i ≤ sql.length)
    (hmarks : (lexMarks sql).drop i = ps.flatMap Piece.marks ++ [last]) :
    ∀ p ∈ numbered i ps, ∃ digits, Covers sql p digits := by
  induction h generalizing i with
  | nil =>
      intro p hp
      cases hp
  | @span text r cut ps hopen rest ih =>
      have hsplit : sql.drop i = cut.1 ++ cut.rest := hdrop.trans hopen.splits.symm
      refine ih (drop_append hsplit) (length_of_drop hsplit hi) ?_
      rw [← List.drop_drop, hmarks, List.flatMap_cons, List.append_assoc]
      exact drop_marks (.span r cut.1) _
  | @char c cs ps hopen hnumber rest ih =>
      have hsplit : sql.drop i = [c] ++ cs := hdrop
      refine ih (drop_append hsplit) (length_of_drop hsplit hi) ?_
      rw [← List.drop_drop, hmarks]
      rfl
  | @number cs n ps hopen hnumber rest ih =>
      obtain ⟨-, hpos, hn, hdigits, hmax⟩ := dollarNumber_spec hnumber
      have hlen : (cs.take n).length = n := List.length_take_of_le hn
      have hsplit : sql.drop i = ('$' :: cs.take n) ++ cs.drop n := by
        rw [hdrop, List.cons_append, List.take_append_drop]
      have htoken : ('$' :: cs.take n).length = 1 + (cs.take n).length := by
        rw [List.length_cons, Nat.add_comm]
      have hstop := length_of_drop hsplit hi
      have hrest := drop_append hsplit
      have hslice := slice_append hsplit hi (Nat.le_refl i)
      rw [htoken, ← Nat.add_assoc] at hstop hrest hslice
      intro p hp
      rw [numbered] at hp
      rcases List.mem_cons.mp hp with rfl | hp
      · refine ⟨cs.take n, ?_, rfl, hstop, ?_, hdigits, ?_, ?_, rfl⟩
        · rw [hslice, List.drop_of_length_le (List.length_take_le _ _), List.nil_append]
        · rw [Ne, ← List.length_eq_zero_iff, hlen]
          omega
        · rw [hrest]
          exact hmax
        · intro k hk hkstop
          dsimp only at hk hkstop
          obtain ⟨j, rfl⟩ := Nat.exists_eq_add_of_le hk
          have hmark : ((lexMarks sql).drop i)[j]? = (lexMarks sql)[i + j]? := List.getElem?_drop
          have hrun : Piece.marks (.number (cs.take n)) =
              List.replicate (n + 1) codeMark := by
            rw [Piece.marks, hlen, List.replicate_succ]
          rw [← hmark, hmarks, List.flatMap_cons, hrun, List.append_assoc,
            List.getElem?_append_left (by simp; omega), List.getElem?_replicate, if_pos (by omega)]
      · refine ih hrest hstop ?_ p hp
        rw [Nat.add_assoc, ← htoken, ← List.drop_drop, hmarks, List.flatMap_cons, List.append_assoc]
        exact drop_marks (.number (cs.take n)) _

theorem Opened.not_code {r : Region} {cut : Cut} {text : Text} (h : Opened r cut text) :
    r ≠ .code := by
  cases h <;> decide

/-- No `$` of code with a digit behind it is missed. -/
theorem numbered_complete {sql : Text} {text : Text} {ps : List Piece} (h : Pieced text ps) {i : Nat}
    {last : Mark} (hdrop : sql.drop i = text) (hi : i ≤ sql.length)
    (hmarks : (lexMarks sql).drop i = ps.flatMap Piece.marks ++ [last]) {k : Nat} (hk : i ≤ k)
    (hdollar : sql[k]? = some '$') {d : Char} (hd : sql[k + 1]? = some d) (hdigit : d.isDigit)
    (hcode : (lexMarks sql)[k]? = some codeMark) : ∃ p ∈ numbered i ps, p.start = k := by
  have hchar : ∀ {rest : Text} {i j : Nat}, sql.drop i = rest → sql[i + j]? = rest[j]? := by
    rintro rest i j rfl
    rw [List.getElem?_drop]
  induction h generalizing i with
  | nil =>
      have hend : sql.length ≤ k := (List.drop_eq_nil_iff.mp hdrop).trans hk
      rw [List.getElem?_eq_none hend] at hdollar
      cases hdollar
  | @span text r cut ps hopen rest ih =>
      have hsplit : sql.drop i = cut.1 ++ cut.rest := hdrop.trans hopen.splits.symm
      by_cases hin : k < i + cut.1.length
      · -- inside the region the lexer does not read code
        obtain ⟨j, rfl⟩ := Nat.exists_eq_add_of_le hk
        have hmark : ((lexMarks sql).drop i)[j]? = (lexMarks sql)[i + j]? := List.getElem?_drop
        rw [hmarks, List.flatMap_cons, List.append_assoc,
          List.getElem?_append_left (by rw [Piece.marks_length]; exact Nat.lt_of_add_lt_add_left hin),
          hcode] at hmark
        have hregion := spanMarks_region (List.mem_of_getElem? hmark)
        exact absurd hregion.symm hopen.not_code
      · refine ih (drop_append hsplit) (length_of_drop hsplit hi) ?_ (Nat.not_lt.mp hin)
        rw [← List.drop_drop, hmarks, List.flatMap_cons, List.append_assoc]
        exact drop_marks (.span r cut.1) _
  | @char c cs ps hopen hnumber rest ih =>
      have hsplit : sql.drop i = [c] ++ cs := hdrop
      rcases Nat.eq_or_lt_of_le hk with rfl | hlt
      · have hc := hchar (j := 0) hdrop
        have hnext := hchar (j := 1) hdrop
        rw [Nat.add_zero, hdollar, List.getElem?_cons_zero] at hc
        rw [hd, List.getElem?_cons_succ] at hnext
        cases hc
        cases cs with
        | nil => cases hnext
        | cons e es =>
            cases hnext
            simp [dollarNumber, hdigit] at hnumber
      · refine ih (drop_append hsplit) (length_of_drop hsplit hi) ?_ hlt
        rw [← List.drop_drop, hmarks]
        rfl
  | @number cs n ps hopen hnumber rest ih =>
      obtain ⟨-, hpos, hn, hdigits, -⟩ := dollarNumber_spec hnumber
      have hlen : (cs.take n).length = n := List.length_take_of_le hn
      have hsplit : sql.drop i = ('$' :: cs.take n) ++ cs.drop n := by
        rw [hdrop, List.cons_append, List.take_append_drop]
      have htoken : ('$' :: cs.take n).length = 1 + (cs.take n).length := by
        rw [List.length_cons, Nat.add_comm]
      have hstop := length_of_drop hsplit hi
      have hrest := drop_append hsplit
      rw [htoken, ← Nat.add_assoc] at hstop hrest
      rw [numbered]
      rcases Nat.eq_or_lt_of_le hk with rfl | hlt
      · exact ⟨_, List.mem_cons_self, rfl⟩
      · by_cases hin : k < i + 1 + (cs.take n).length
        · -- a digit is no `$`
          obtain ⟨j, rfl⟩ : ∃ j, k = i + (j + 1) := ⟨k - i - 1, by omega⟩
          have hc := hchar (j := j + 1) hdrop
          rw [hdollar, List.getElem?_cons_succ] at hc
          have hmem : '$' ∈ cs.take n := by
            have htake : (cs.take n)[j]? = some '$' := by
              rw [List.getElem?_take_of_lt (by omega), ← hc]
            exact List.mem_of_getElem? htake
          exact absurd (hdigits '$' hmem) (by decide)
        · obtain ⟨p, hp, hstart⟩ := ih hrest hstop (by
            rw [Nat.add_assoc, ← htoken, ← List.drop_drop, hmarks, List.flatMap_cons,
              List.append_assoc]
            exact drop_marks (.number (cs.take n)) _) (Nat.not_lt.mp hin)
          exact ⟨p, List.mem_cons_of_mem _ hp, hstart⟩

/-! ## Rendering -/

/-- `source` from `previous` on, with the literals in the place of the placeholders. -/
def splice {α : Type} (source : List α) : Nat → List SqlPlaceholder → List (List α) → List α
  | previous, p :: ps, literal :: literals =>
      (source.take p.start).drop previous ++ literal ++ splice source p.stop ps literals
  | previous, _, _ => source.drop previous

section Render

variable (source : Text) (parameterCount : Nat) (writeParameter : Nat → Except String Text)

/-- The writer is called for each placeholder and succeeds. -/
abbrev Written (ps : List SqlPlaceholder) (literals : List Text) : Prop :=
  List.Forall₂ (fun p literal => writeParameter (p.index - 1) = .ok literal) ps literals

theorem renderLoop_ok_iff (ps : List SqlPlaceholder) (previous : Nat) (result out : Text)
    (used found : List Nat) :
    renderLoop source parameterCount writeParameter ps previous result used = .ok (out, found) ↔
      (∀ p ∈ ps, p.index ≠ 0 ∧ p.index ≤ parameterCount) ∧
        found = (ps.map (·.index - 1)).reverse ++ used ∧
          ∃ literals, Written writeParameter ps literals ∧
            out = result ++ splice source previous ps literals := by
  induction ps generalizing previous result used with
  | nil =>
      rw [renderLoop]
      constructor
      · intro h
        cases h
        exact ⟨by simp, rfl, [], .nil, rfl⟩
      · rintro ⟨-, rfl, literals, hwritten, rfl⟩
        cases hwritten
        rfl
  | cons p ps ih =>
      rw [renderLoop]
      by_cases hrange : p.index = 0 ∨ parameterCount < p.index
      · rw [if_pos hrange]
        refine iff_of_false (by simp) ?_
        rintro ⟨hall, -⟩
        have hp := hall p List.mem_cons_self
        rcases hrange with h | h
        · exact hp.1 h
        · exact absurd hp.2 (Nat.not_le.mpr h)
      · rw [if_neg hrange]
        have hp : p.index ≠ 0 ∧ p.index ≤ parameterCount :=
          ⟨fun h => hrange (.inl h), Nat.not_lt.mp fun h => hrange (.inr h)⟩
        cases hwrite : writeParameter (p.index - 1) with
        | error e =>
            refine iff_of_false (by simp) ?_
            rintro ⟨-, -, literals, hwritten, -⟩
            cases hwritten with
            | cons h _ =>
                rw [hwrite] at h
                cases h
        | ok literal =>
            rw [ih, List.forall_mem_cons, List.map_cons, List.reverse_cons,
              List.append_assoc (ps.map (·.index - 1)).reverse, List.singleton_append,
              List.append_assoc result]
            constructor
            · rintro ⟨hall, hfound, literals, hwritten, hout⟩
              exact ⟨⟨hp, hall⟩, hfound, literal :: literals, .cons hwrite hwritten, by
                rw [hout, splice, List.append_assoc]⟩
            · rintro ⟨⟨-, hall⟩, hfound, literals, hwritten, hout⟩
              cases hwritten with
              | cons h hrest =>
                  rw [hwrite] at h
                  cases h
                  exact ⟨hall, hfound, _, hrest, by
                    rw [hout, splice, List.append_assoc result]⟩

/-- `render` succeeds on a template whose numbers are exactly those of the parameters. -/
theorem SqlTemplate.render_ok_iff (ps : List SqlPlaceholder) (out : Text) :
    SqlTemplate.render ⟨source, ps⟩ parameterCount writeParameter = .ok out ↔
      (∀ p ∈ ps, p.index ≠ 0 ∧ p.index ≤ parameterCount) ∧
        (∀ k, k ≠ 0 → k ≤ parameterCount → ∃ p ∈ ps, p.index = k) ∧
          ∃ literals, Written writeParameter ps literals ∧ out = splice source 0 ps literals := by
  have hused : ∀ found : List Nat, (∀ p ∈ ps, p.index ≠ 0 ∧ p.index ≤ parameterCount) →
      found = (ps.map (·.index - 1)).reverse ++ [] →
      (((List.range parameterCount).any fun k => !found.contains k) = false ↔
        ∀ k, k ≠ 0 → k ≤ parameterCount → ∃ p ∈ ps, p.index = k) := by
    rintro found hall rfl
    simp only [List.append_nil, List.any_eq_false, List.mem_range, Bool.not_eq_true,
      Bool.not_eq_false', List.contains_iff_mem, List.mem_reverse, List.mem_map]
    constructor
    · intro h k hk hle
      obtain ⟨p, hp, hindex⟩ := h (k - 1) (by omega)
      have := (hall p hp).1
      exact ⟨p, hp, by omega⟩
    · intro h k hk
      obtain ⟨p, hp, hindex⟩ := h (k + 1) (Nat.succ_ne_zero k) hk
      exact ⟨p, hp, by omega⟩
  unfold SqlTemplate.render
  dsimp only
  constructor
  · intro h
    cases hloop : renderLoop source parameterCount writeParameter ps 0 [] [] with
    | error e =>
        rw [hloop] at h
        cases h
    | ok rendered =>
        obtain ⟨result, found⟩ := rendered
        obtain ⟨hall, hfound, literals, hwritten, hresult⟩ :=
          (renderLoop_ok_iff source parameterCount writeParameter ps 0 [] result [] found).mp hloop
        rw [hloop] at h
        dsimp only at h
        split_ifs at h with hany
        cases h
        exact ⟨hall, (hused found hall hfound).mp (Bool.not_eq_true _ ▸ hany), literals, hwritten,
          hresult⟩
  · rintro ⟨hall, hoccur, literals, hwritten, rfl⟩
    have hok := (renderLoop_ok_iff source parameterCount writeParameter ps 0 [] _ [] _).mpr
      ⟨hall, rfl, literals, hwritten, rfl⟩
    have hunused := (hused _ hall rfl).mpr hoccur
    rw [hok]
    dsimp only
    rw [hunused, if_neg Bool.false_ne_true, List.nil_append]

/-- The flags of the parameters that have been used. -/
def usedFlags (found : List Nat) : List Bool :=
  (List.range parameterCount).map fun k => found.contains k

theorem usedFlags_nil : usedFlags parameterCount [] = List.replicate parameterCount false := by
  have hconst : (List.range parameterCount).map (fun _ => false) =
      List.replicate (List.range parameterCount).length false := List.map_const'
  rwa [List.length_range] at hconst

theorem setUsed_flags {index : Nat} (h : index < parameterCount) (found : List Nat) :
    setUsed (usedFlags parameterCount found) index =
      .ok (usedFlags parameterCount (index :: found)) := by
  have hlen : (usedFlags parameterCount found).length = parameterCount := by
    rw [usedFlags, List.length_map, List.length_range]
  rw [setUsed, hlen, if_pos h]
  refine congrArg Except.ok (List.ext_getElem (by simp [usedFlags]) fun k hk hk' => ?_)
  rw [List.getElem_set]
  simp only [usedFlags, List.getElem_map, List.getElem_range, List.contains_cons]
  by_cases hsame : index = k
  · simp [hsame]
  · have hne : (k == index) = false := beq_eq_false_iff_ne.mpr (Ne.symm hsame)
    rw [if_neg hsame, hne, Bool.false_or]

theorem strRange_take {a b : Nat} (h : a ≤ b) :
    strRange source (byteLen (source.take a)) (byteLen (source.take b)) =
      .ok ((source.take b).drop a) := by
  have hslice := strRange_append (source.take a) ((source.take b).drop a) (source.drop b)
  have hlead : source.take a ++ (source.take b).drop a = source.take b := by
    have htake : (source.take b).take a = source.take a := by
      rw [List.take_take, Nat.min_eq_left h]
    rw [← htake, List.take_append_drop]
  rw [← List.append_assoc, ← byteLen_append, hlead, List.take_append_drop] at hslice
  exact hslice

theorem strFrom_take (a : Nat) :
    strFrom source (byteLen (source.take a)) = .ok (source.drop a) := by
  have hslice := strFrom_append (source.take a) (source.drop a)
  rwa [List.take_append_drop] at hslice

/-- The loop over bytes makes of the byte ranges what the one over characters makes of theirs. -/
theorem renderBytesLoop_eq {ps : List SqlPlaceholder} {previous : Nat} (h : Ordered previous ps)
    (result : Text) (used : List Nat) :
    renderBytesLoop source parameterCount writeParameter (ps.map (byteRange source))
        (byteLen (source.take previous)) result (usedFlags parameterCount used) =
      (lift (renderLoop source parameterCount writeParameter ps previous result used)).map
        fun (out, found) => (out, usedFlags parameterCount found) := by
  induction ps generalizing previous result used with
  | nil =>
      rw [List.map_nil, renderBytesLoop, strFrom_take, ok_bind]
      rfl
  | cons p ps ih =>
      obtain ⟨hstart, hstop, hrest⟩ := h
      rw [List.map_cons, renderBytesLoop, byteRange]
      dsimp only
      rw [strRange_take source hstart, ok_bind, strRange_take source hstop.le, ok_bind, renderLoop]
      by_cases hrange : p.index = 0 ∨ parameterCount < p.index
      · rw [if_pos hrange, if_pos hrange]
        rfl
      · rw [if_neg hrange, if_neg hrange, setUsed_flags parameterCount (by omega), ok_bind]
        cases writeParameter (p.index - 1) with
        | error e => rfl
        | ok literal => exact ih hrest _ _

theorem renderBytes_eq {ps : List SqlPlaceholder} (h : Ordered 0 ps) :
    renderBytes ⟨source, ps.map (byteRange source)⟩ parameterCount writeParameter =
      lift (SqlTemplate.render ⟨source, ps⟩ parameterCount writeParameter) := by
  have hloop := renderBytesLoop_eq source parameterCount writeParameter h [] []
  rw [usedFlags_nil, List.take_zero, byteLen_nil] at hloop
  unfold renderBytes SqlTemplate.render
  dsimp only
  rw [hloop]
  cases renderLoop source parameterCount writeParameter ps 0 [] [] with
  | error e => rfl
  | ok rendered =>
      obtain ⟨result, found⟩ := rendered
      have hflags : (usedFlags parameterCount found).any (!·) =
          (List.range parameterCount).any fun k => !found.contains k := by
        rw [usedFlags, List.any_map]
        rfl
      change (if (usedFlags parameterCount found).any (!·) then (fail _ : Exec String Text)
        else .ok result) = lift (if (List.range parameterCount).any fun k => !found.contains k then
          .error _ else .ok result)
      rw [hflags]
      by_cases hany : ((List.range parameterCount).any fun k => !found.contains k) = true
      · rw [if_pos hany, if_pos hany]
        rfl
      · rw [if_neg hany, if_neg hany]
        rfl

end Render

/-! ## Exactness -/

theorem byteLen_take_le (source : Text) {a b : Nat} (h : a ≤ b) :
    byteLen (source.take a) ≤ byteLen (source.take b) := by
  have htake : source.take a = (source.take b).take a := by
    rw [List.take_take, Nat.min_eq_left h]
  have hsplit := congrArg byteLen (List.take_append_drop a (source.take b))
  rw [byteLen_append, ← htake] at hsplit
  omega

/-- The bytes of a slice of a text. -/
theorem take_drop_bytes (source : Text) {a b : Nat} (h : a ≤ b) :
    ((toUtf8 source).take (byteLen (source.take b))).drop (byteLen (source.take a)) =
      toUtf8 ((source.take b).drop a) := by
  have hb : (toUtf8 source).take (byteLen (source.take b)) = toUtf8 (source.take b) := by
    conv_lhs => rw [← List.take_append_drop b source, toUtf8_append]
    rw [List.take_append_drop, byteLen, List.take_left]
  have ha : source.take a = (source.take b).take a := by
    rw [List.take_take, Nat.min_eq_left h]
  rw [hb, ha]
  conv_lhs => rw [← List.take_append_drop a (source.take b), toUtf8_append]
  rw [List.take_append_drop, byteLen, List.drop_left]

theorem drop_take_bytes (source : Text) (a : Nat) :
    (toUtf8 source).drop (byteLen (source.take a)) = toUtf8 (source.drop a) := by
  conv_lhs => rw [← List.take_append_drop a source, toUtf8_append]
  rw [List.take_append_drop, byteLen, List.drop_left]

/-- Replacing characters replaces their bytes and no others. -/
theorem splice_bytes (source : Text) {ps : List SqlPlaceholder} {previous : Nat}
    (h : Ordered previous ps) (literals : List Text) :
    toUtf8 (splice source previous ps literals) =
      splice (toUtf8 source) (byteLen (source.take previous)) (ps.map (byteRange source))
        (literals.map toUtf8) := by
  induction ps generalizing previous literals with
  | nil => exact (drop_take_bytes source previous).symm
  | cons p ps ih =>
      obtain ⟨hstart, hstop, hrest⟩ := h
      cases literals with
      | nil => exact (drop_take_bytes source previous).symm
      | cons literal literals =>
          rw [splice, toUtf8_append, toUtf8_append, ih hrest, List.map_cons, List.map_cons, splice,
            byteRange, take_drop_bytes source hstart]

/-- A byte range of a text that holds a `$` and the maximal run of digits behind it, all code. -/
def Placed (sql : Text) (q : SqlPlaceholder) : Prop :=
  ∃ p digits, Covers sql p digits ∧ q = byteRange sql p ∧ q.start < q.stop ∧ q.stop ≤ byteLen sql ∧
    ((toUtf8 sql).take q.stop).drop q.start = ascii '$' :: digits.map ascii

/-- What a scan of `sql` must find, and what `render` must make of it. -/
structure Exact (sql : Text) (placeholders : List SqlPlaceholder) : Prop where
  parses : ∀ fuel, byteLen sql < fuel → parseBytes fuel sql = some (.ok ⟨sql, placeholders⟩)
  placed : ∀ q ∈ placeholders, Placed sql q
  apart : placeholders.Pairwise fun p q => p.stop ≤ q.start
  complete : ∀ k d, sql[k]? = some '$' → sql[k + 1]? = some d → d.isDigit = true →
    (lexMarks sql)[k]? = some codeMark → ∃ q ∈ placeholders, q.start = byteLen (sql.take k)
  no_panic : ∀ parameterCount writeParameter,
    renderBytes ⟨sql, placeholders⟩ parameterCount writeParameter ≠ panics
  renders : ∀ parameterCount writeParameter out,
    renderBytes ⟨sql, placeholders⟩ parameterCount writeParameter = .ok out ↔
      (∀ q ∈ placeholders, q.index ≠ 0 ∧ q.index ≤ parameterCount) ∧
        (∀ k, k ≠ 0 → k ≤ parameterCount → ∃ q ∈ placeholders, q.index = k) ∧
          ∃ literals, Written writeParameter placeholders literals ∧
            toUtf8 out = splice (toUtf8 sql) 0 placeholders (literals.map toUtf8)

theorem toUtf8_inj {t u : Text} : toUtf8 t = toUtf8 u ↔ t = u := by
  constructor
  · intro h
    have hback := congrArg fromUtf8 h
    rw [fromUtf8_toUtf8, fromUtf8_toUtf8] at hback
    exact Option.some.inj hback
  · intro h
    rw [h]

theorem toUtf8_digits {digits : Text} (h : ∀ d ∈ digits, d.isDigit = true) :
    toUtf8 digits = digits.map ascii := by
  induction digits with
  | nil => rfl
  | cons d ds ih =>
      rw [toUtf8_ascii (isDigit_lt (h d List.mem_cons_self)), List.map_cons,
        ih fun e he => h e (List.mem_cons_of_mem d he)]

theorem Covers.placed {sql : Text} {p : SqlPlaceholder} {digits : Text} (h : Covers sql p digits) :
    Placed sql (byteRange sql p) := by
  have hle : p.start ≤ p.stop := by
    rw [h.stop]
    omega
  have hbytes : ((toUtf8 sql).take (byteRange sql p).stop).drop (byteRange sql p).start =
      ascii '$' :: digits.map ascii := by
    rw [byteRange, take_drop_bytes sql hle, h.token, toUtf8_ascii (by decide),
      toUtf8_digits h.digits_all]
  have hinside : (byteRange sql p).stop ≤ byteLen sql := by
    have := byteLen_take_le sql h.inside
    rwa [List.take_length] at this
  have hlen := congrArg List.length hbytes
  rw [List.length_drop, List.length_take_of_le hinside, List.length_cons] at hlen
  exact ⟨p, digits, h, rfl, by omega, hinside, hbytes⟩

/-- `parse` finds the numbers of code and no others, and `render` replaces them and nothing else. -/
theorem template_exact {sql : Text} (hnul : '\x00' ∉ sql) :
    ∃ placeholders, Exact sql placeholders := by
  obtain ⟨last, hmarks⟩ := (pieces_pieced sql).lexMarks_eq
  have hordered := numbered_ordered 0 (pieces sql)
  have hcontains : sql.contains '\x00' = false := by
    rw [Bool.eq_false_iff, Ne, List.contains_iff_mem]
    exact hnul
  refine ⟨(numbered 0 (pieces sql)).map (byteRange sql), ?_, ?_, ?_, ?_, ?_, ?_⟩
  · intro fuel hfuel
    have hscan := scan_pieces (pieces_pieced sql) [] [] fuel hfuel
    rw [parseBytes, hcontains, if_neg Bool.false_ne_true]
    exact congrArg (Option.map _) hscan
  · intro q hq
    obtain ⟨p, hp, rfl⟩ := List.mem_map.mp hq
    obtain ⟨digits, hcovers⟩ := numbered_covers (pieces_pieced sql) List.drop_zero (Nat.zero_le _)
      hmarks p hp
    exact hcovers.placed
  · rw [List.pairwise_map]
    exact hordered.pairwise.imp fun h => byteLen_take_le sql h
  · intro k d hdollar hd hdigit hcode
    obtain ⟨p, hp, hstart⟩ := numbered_complete (pieces_pieced sql) List.drop_zero (Nat.zero_le _)
      hmarks (Nat.zero_le k) hdollar hd hdigit hcode
    exact ⟨byteRange sql p, List.mem_map_of_mem hp, by rw [byteRange, hstart]⟩
  · intro parameterCount writeParameter
    rw [renderBytes_eq sql parameterCount writeParameter hordered]
    cases SqlTemplate.render ⟨sql, numbered 0 (pieces sql)⟩ parameterCount writeParameter <;>
      intro h <;> cases h
  · intro parameterCount writeParameter out
    have hlift : ∀ x : Except String Text, (lift x : Exec String Text) = .ok out ↔ x = .ok out := by
      intro x
      cases x with
      | ok t => exact ⟨lift_ok, fun h => by rw [h]; rfl⟩
      | error e => exact iff_of_false (fun h => by cases h) (fun h => by cases h)
    have hwritten : ∀ literals, Written writeParameter
        ((numbered 0 (pieces sql)).map (byteRange sql)) literals ↔
          Written writeParameter (numbered 0 (pieces sql)) literals := by
      intro literals
      rw [Written, List.forall₂_map_left_iff]
      rfl
    have hsplice : ∀ literals, toUtf8 out = splice (toUtf8 sql) 0
        ((numbered 0 (pieces sql)).map (byteRange sql)) (literals.map toUtf8) ↔
          out = splice sql 0 (numbered 0 (pieces sql)) literals := by
      intro literals
      have hbytes := splice_bytes sql hordered literals
      rw [List.take_zero, byteLen_nil] at hbytes
      rw [← hbytes, toUtf8_inj]
    have hindices : ∀ k, (∃ q ∈ (numbered 0 (pieces sql)).map (byteRange sql), q.index = k) ↔
        ∃ p ∈ numbered 0 (pieces sql), p.index = k := by
      intro k
      simp [List.mem_map, byteRange]
    rw [renderBytes_eq sql parameterCount writeParameter hordered, hlift,
      SqlTemplate.render_ok_iff]
    simp only [hwritten, hsplice, hindices, List.forall_mem_map, byteRange]

/-- A text that has a number behind a quoted one. -/
theorem quoted_number_template : ∃ placeholders, Exact "select '$1', $1".toList placeholders :=
  template_exact (by decide)

end NzRust.Sql
