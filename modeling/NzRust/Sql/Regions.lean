import NzRust.Sql.Params

/-!
# Regions of a text

`lexMarks` labels every position of a text with the region the lexer passes
there, and with whether the lexer is at rest in code just before it. The last
mark stands for the end of the text. Two questions are asked of the labels:
which region a character has, and whether a position begins or ends in code.
-/

namespace NzRust.Sql

structure Mark where
  region : Region
  boundary : Bool
  deriving DecidableEq, Repr

def codeMark : Mark := ⟨.code, true⟩

def spanMarks (r : Region) : Text → List Mark
  | [] => []
  | _ :: cs => ⟨r, true⟩ :: List.replicate cs.length ⟨r, false⟩

/-- The labels of a text, at most `fuel` regions of it. -/
def lexLoop : Nat → Text → List Mark
  | 0, _ => [codeMark]
  | _ + 1, [] => [codeMark]
  | fuel + 1, c :: cs =>
      match openedSpan (c :: cs) with
      | some (r, t, some rest) => spanMarks r t ++ lexLoop fuel rest
      | some (r, t, none) => spanMarks r t ++ [⟨r, false⟩]
      | none => codeMark :: lexLoop fuel cs

def lexMarks (text : Text) : List Mark :=
  lexLoop text.length text

@[simp] theorem spanMarks_length (r : Region) (t : Text) : (spanMarks r t).length = t.length := by
  cases t <;> simp [spanMarks]

theorem spanMarks_region {r : Region} {t : Text} {m : Mark} (h : m ∈ spanMarks r t) :
    m.region = r := by
  cases t with
  | nil => simp [spanMarks] at h
  | cons c cs =>
      simp only [spanMarks, List.mem_cons, List.mem_replicate] at h
      rcases h with rfl | ⟨-, rfl⟩ <;> rfl

theorem lexLoop_fuel {fuel : Nat} {text : Text} (h : text.length ≤ fuel) :
    lexLoop fuel text = lexMarks text := by
  suffices key : ∀ f g (t : Text), t.length ≤ f → t.length ≤ g → lexLoop f t = lexLoop g t from
    key _ _ _ h (Nat.le_refl _)
  intro f
  induction f with
  | zero =>
      intro g t hf _
      obtain rfl : t = [] := List.length_eq_zero_iff.mp (by omega)
      cases g <;> rfl
  | succ f ih =>
      intro g t hf hg
      cases t with
      | nil => cases g <;> rfl
      | cons c cs =>
          obtain ⟨g, rfl⟩ : ∃ k, g = k + 1 := ⟨g - 1, by simp only [List.length_cons] at hg; omega⟩
          simp only [List.length_cons] at hf hg
          rw [lexLoop, lexLoop]
          split
          case h_1 r t rest hopen =>
            have hlt := (openedSpan_eq_some hopen).rest_lt
            simp only [Cut.rest, Option.getD_some, List.length_cons] at hlt
            rw [ih g rest (by omega) (by omega)]
          case h_2 => rfl
          case h_3 => rw [ih g cs (by omega) (by omega)]

@[simp] theorem lexMarks_nil : lexMarks [] = [codeMark] := rfl

theorem lexMarks_closed {text t rest : Text} {r : Region} (h : Opened r (t, some rest) text) :
    lexMarks text = spanMarks r t ++ lexMarks rest := by
  have hlt := h.rest_lt
  have hopen := h.openedSpan_eq
  cases text with
  | nil => cases hopen
  | cons c cs =>
      rw [lexMarks, List.length_cons, lexLoop, hopen]
      simp only [Cut.rest, Option.getD_some, List.length_cons] at hlt
      simp only [lexLoop_fuel (show rest.length ≤ cs.length by omega)]

theorem lexMarks_unclosed {text t : Text} {r : Region} (h : Opened r (t, none) text) :
    lexMarks text = spanMarks r t ++ [⟨r, false⟩] := by
  have hopen := h.openedSpan_eq
  cases text with
  | nil => cases hopen
  | cons c cs => rw [lexMarks, List.length_cons, lexLoop, hopen]

theorem lexMarks_code {c : Char} {cs : Text} (h : openedSpan (c :: cs) = none) :
    lexMarks (c :: cs) = codeMark :: lexMarks cs := by
  rw [lexMarks, List.length_cons, lexLoop, h]
  rfl

/-- The lexer is at rest in code at the head of the marks. -/
def inCode : List Mark → Bool
  | [] => false
  | m :: _ => m.boundary

theorem inCode_lexMarks (text : Text) : inCode (lexMarks text) := by
  cases text with
  | nil => rfl
  | cons c cs =>
      cases hopen : openedSpan (c :: cs) with
      | none => rw [lexMarks_code hopen]; rfl
      | some span =>
          obtain ⟨r, t, rest⟩ := span
          have h := openedSpan_eq_some hopen
          obtain ⟨d, w, hw, -⟩ := h.head
          simp only at hw
          subst hw
          cases rest with
          | none => rw [lexMarks_unclosed h]; rfl
          | some rest => rw [lexMarks_closed h]; rfl

/-- Inside a region the lexer is not at rest. -/
theorem inCode_drop_spanMarks {r : Region} {t : Text} {k : Nat} (hpos : 0 < k)
    (hlt : k < t.length) (tail : List Mark) :
    inCode ((spanMarks r t ++ tail).drop k) = false := by
  cases t with
  | nil => simp at hlt
  | cons c cs =>
      simp only [List.length_cons] at hlt
      obtain ⟨j, rfl⟩ : ∃ j, k = j + 1 := ⟨k - 1, by omega⟩
      obtain ⟨n, hn⟩ : ∃ n, cs.length - j = n + 1 := ⟨cs.length - j - 1, by omega⟩
      rw [spanMarks, List.cons_append, List.drop_succ_cons, List.drop_append, List.drop_replicate,
        hn, List.replicate_succ]
      rfl

/-- A string of the template before another quote does not end there: the two quotes read as one
doubled quote. -/
theorem inCode_extended {text t rest : Text} (h : Opened .string (t, some rest) text)
    (more : Text) : inCode ((lexMarks (t ++ '\'' :: more)).drop t.length) = false := by
  generalize hcut : (t, some rest) = cut at h
  cases h with
  | string cs =>
      obtain ⟨v, hv, rfl⟩ := Cut.push_eq_closed hcut.symm
      have hopen := Opened.string (v ++ '\'' :: more)
      rw [quotedCut_extends hv more] at hopen
      generalize quotedCut '\'' more = cut at hopen
      obtain ⟨u, r⟩ := cut
      have hmarks : ∀ tail : List Mark, inCode ((spanMarks .string
          (['\''] ++ (v ++ ['\''] ++ u)) ++ tail).drop (['\''] ++ v).length) = false := by
        intro tail
        apply inCode_drop_spanMarks
        · simp
        · simp only [List.length_cons, List.length_append, List.length_nil]
          omega
      cases r with
      | none =>
          rw [List.append_assoc]
          have hlex := lexMarks_unclosed hopen
          exact hlex ▸ hmarks _
      | some r =>
          rw [List.append_assoc]
          have hlex := lexMarks_closed hopen
          exact hlex ▸ hmarks _

/-- From the head of `text` the lexer comes to rest in code at `rest`. -/
def Passes (t rest : Text) : Prop :=
  ∃ ms : List Mark, ms.length = t.length ∧ lexMarks (t ++ rest) = ms ++ lexMarks rest

theorem Passes.nil (rest : Text) : Passes [] rest :=
  ⟨[], rfl, rfl⟩

theorem Passes.append {t u rest : Text} (ht : Passes t (u ++ rest)) (hu : Passes u rest) :
    Passes (t ++ u) rest := by
  obtain ⟨ms, hms, ht⟩ := ht
  obtain ⟨ns, hns, hu⟩ := hu
  refine ⟨ms ++ ns, by simp [hms, hns], ?_⟩
  rw [List.append_assoc, ht, hu, List.append_assoc]

theorem Passes.closed {text t rest : Text} {r : Region} (h : Opened r (t, some rest) text) :
    Passes t rest := by
  refine ⟨spanMarks r t, spanMarks_length r t, ?_⟩
  rw [← lexMarks_closed h, ← h.splits]
  rfl

theorem Passes.char {c : Char} {rest : Text} (h : openedSpan (c :: rest) = none) :
    Passes [c] rest :=
  ⟨[codeMark], rfl, lexMarks_code h⟩

theorem lexMarks_inert {t : Text} (h : t.all isInert) (rest : Text) :
    lexMarks (t ++ rest) = List.replicate t.length codeMark ++ lexMarks rest := by
  induction t with
  | nil => rfl
  | cons c cs ih =>
      simp only [List.all_cons, Bool.and_eq_true] at h
      rw [List.cons_append, lexMarks_code (openedSpan_of_isInert h.1 _), ih h.2]
      rfl

theorem Passes.inert {t : Text} (h : t.all isInert) (rest : Text) : Passes t rest :=
  ⟨List.replicate t.length codeMark, by simp, lexMarks_inert h rest⟩

/-- A minus sign is code before anything but another minus sign. -/
theorem Passes.minus {rest : Text} (h : rest.head? ≠ some '-') : Passes ['-'] rest := by
  apply Passes.char
  rw [openedSpan_eq_none_iff]
  simp [h]

theorem Passes.inCode {t rest : Text} (h : Passes t rest) :
    inCode ((lexMarks (t ++ rest)).drop t.length) := by
  obtain ⟨ms, hms, heq⟩ := h
  rw [heq, ← hms, List.drop_left]
  exact inCode_lexMarks rest

end NzRust.Sql
