import NzRust.Sql.Pieces
import NzRust.Types.Utf8
import NzRust.Lib.Checked

/-!
# The scan over bytes

`SqlTemplate::parse` walks the bytes of a `str` and slices it. Positions here
are byte offsets and a slice away from a character boundary panics; the scan
over characters is what it comes to.
-/

namespace NzRust.Sql

open Checked

/-- `b'c'`. -/
def ascii (c : Char) : UInt8 :=
  UInt8.ofNat c.toNat

/-- `str::len`. -/
def byteLen (text : Text) : Nat :=
  (toUtf8 text).length

/-- `&s[i..]`. -/
def strFrom : Text → Nat → Exec String Text
  | text, 0 => .ok text
  | [], _ + 1 => panics
  | c :: cs, i + 1 => if c.utf8Size ≤ i + 1 then strFrom cs (i + 1 - c.utf8Size) else panics

/-- `&s[..i]`. -/
def strTo : Text → Nat → Exec String Text
  | _, 0 => .ok []
  | [], _ + 1 => panics
  | c :: cs, i + 1 =>
      if c.utf8Size ≤ i + 1 then (strTo cs (i + 1 - c.utf8Size)).map (c :: ·) else panics

/-- `&s[a..b]`. -/
def strRange (text : Text) (a b : Nat) : Exec String Text := do
  let upTo ← strTo text b
  strFrom upTo a

/-- `str::find`, as a byte offset. -/
def strFind (c : Char) : Text → Option Nat
  | [] => none
  | d :: ds => if d = c then some 0 else (strFind c ds).map (d.utf8Size + ·)

/-- The length of the first character. -/
def firstLen : Text → Nat
  | [] => 1
  | c :: _ => c.utf8Size

/-- The loop of `block_comment_end`, with the bytes from `index` on. -/
def blockCommentLoop : Nat → Nat → Bytes → Nat
  | depth, index, a :: b :: bytes =>
      if a = ascii '/' ∧ b = ascii '*' then blockCommentLoop (depth + 1) (index + 2) bytes
      else if a = ascii '*' ∧ b = ascii '/' then
        if depth - 1 = 0 then index + 2 else blockCommentLoop (depth - 1) (index + 2) bytes
      else blockCommentLoop depth (index + 1) (b :: bytes)
  | _, index, bytes => index + bytes.length

def blockCommentEnd (bytes : Bytes) (start : Nat) : Nat :=
  blockCommentLoop 1 (start + 2) (bytes.drop (start + 2))

/-- The loop over a quoted region, with the bytes from `i` on. -/
def quoteLoop (quote : UInt8) : Nat → Bytes → Nat
  | i, [] => i
  | i, [_] => i + 1
  | i, a :: b :: bytes =>
      if a = quote then if b = quote then quoteLoop quote (i + 2) bytes else i + 1
      else quoteLoop quote (i + 1) (b :: bytes)

def isTagByte (b : UInt8) : Bool :=
  (ascii 'A' ≤ b && b ≤ ascii 'Z') || (ascii 'a' ≤ b && b ≤ ascii 'z') || b == ascii '_'

def isDigitByte (b : UInt8) : Bool :=
  ascii '0' ≤ b && b ≤ ascii '9'

/-- The position of the `$` that closes a tag. -/
def tagLoop : Nat → Bytes → Option Nat
  | _, [] => none
  | i, b :: bytes =>
      if b = ascii '$' then some i else if isTagByte b then tagLoop (i + 1) bytes else none

def dollarTagBytes (rest : Text) : Exec String (Option Text) :=
  match toUtf8 rest with
  | [] => .ok none
  | b :: bytes =>
      if b = ascii '$' then
        match tagLoop 1 bytes with
        | some i => (strTo rest (i + 1)).map some
        | none => .ok none
      else .ok none

def dollarNumberBytes (rest : Text) : Option Nat :=
  match toUtf8 rest with
  | [] => none
  | b :: bytes =>
      if b = ascii '$' then
        let digits := (bytes.takeWhile isDigitByte).length
        if digits = 0 then none else some digits
      else none

structure Scan where
  i : Nat := 0
  dollarQuote : Option Text := none
  placeholders : List SqlPlaceholder := []

/-- One turn of the loop of `parse`, at a position inside the text. -/
def scanStep (sql : Text) (st : Scan) : Exec String Scan := do
  let bytes := toUtf8 sql
  match st.dollarQuote with
  | some tag =>
      let rest ← strFrom sql st.i
      if tag.isPrefixOf rest then
        .ok { st with i := st.i + byteLen tag, dollarQuote := none }
      else .ok { st with i := st.i + firstLen rest }
  | none =>
      let byte ← index bytes st.i
      if byte = ascii '-' ∧ bytes[st.i + 1]? = some (ascii '-') then
        let rest ← strFrom sql st.i
        match strFind '\n' rest with
        | some stop => .ok { st with i := st.i + stop + 1 }
        | none => .ok { st with i := byteLen sql }
      else if byte = ascii '/' ∧ bytes[st.i + 1]? = some (ascii '*') then
        .ok { st with i := blockCommentEnd bytes st.i }
      else if byte = ascii '\'' ∨ byte = ascii '"' then
        .ok { st with i := quoteLoop byte (st.i + 1) (bytes.drop (st.i + 1)) }
      else if byte = ascii '$' then
        let rest ← strFrom sql st.i
        match ← dollarTagBytes rest with
        | some tag => .ok { st with i := st.i + byteLen tag, dollarQuote := some tag }
        | none =>
            match dollarNumberBytes rest with
            | some numberLen =>
                let stop := st.i + 1 + numberLen
                let digits ← strRange sql (st.i + 1) stop
                .ok { st with
                  i := stop
                  placeholders := st.placeholders ++ [⟨st.i, stop, (parseUsize digits).getD 0⟩] }
            | none => .ok { st with i := st.i + 1 }
      else
        let rest ← strFrom sql st.i
        .ok { st with i := st.i + firstLen rest }

/-- The loop of `parse`; `none` when `fuel` turns do not reach the end. -/
def scanLoop (sql : Text) : Nat → Scan → Option (Exec String (List SqlPlaceholder))
  | 0, _ => none
  | fuel + 1, st =>
      if st.i < byteLen sql then
        match scanStep sql st with
        | .ok st' => scanLoop sql fuel st'
        | .error e => some (.error e)
      else some (.ok st.placeholders)

/-! ## Bytes and characters -/

theorem forall_byte {P : UInt8 → Prop} (h : ∀ n < 256, P (UInt8.ofNat n)) (byte : UInt8) :
    P byte := by
  have hbyte := h byte.toNat byte.toNat_lt
  rwa [UInt8.ofNat_toNat] at hbyte

theorem encode_ascii {c : Char} (h : c.toNat < 128) : String.utf8EncodeChar c = [ascii c] := by
  have hv : c.val.toNat ≤ 0x7f := Nat.lt_succ_iff.mp h
  unfold String.utf8EncodeChar
  dsimp only
  rw [if_pos hv]
  rfl

theorem encode_wide {c : Char} (h : 128 ≤ c.toNat) :
    ∀ b ∈ String.utf8EncodeChar c, 128 ≤ b.toNat := by
  have hv : ¬ c.val.toNat ≤ 0x7f := Nat.not_le.mpr h
  have hbyte : ∀ {n : Nat}, n < 256 → 128 ≤ n → 128 ≤ (UInt8.ofNat n).toNat := by
    intro n hn hle
    rw [ofNat_toNat hn]
    exact hle
  unfold String.utf8EncodeChar
  dsimp only
  rw [if_neg hv]
  generalize c.val.toNat = v
  intro b hb
  split_ifs at hb <;> simp only [List.mem_cons, List.not_mem_nil, or_false] at hb
  · rcases hb with rfl | rfl <;> exact hbyte (by omega) (by omega)
  · rcases hb with rfl | rfl | rfl <;> exact hbyte (by omega) (by omega)
  · rcases hb with rfl | rfl | rfl | rfl <;> exact hbyte (by omega) (by omega)

theorem encode_wide_cons {c : Char} (h : 128 ≤ c.toNat) :
    ∃ b bs, String.utf8EncodeChar c = b :: bs ∧ 128 ≤ b.toNat := by
  obtain ⟨b, bs, hencode, -⟩ := utf8Next_encode c []
  have hwide := encode_wide h
  rw [hencode] at hwide
  exact ⟨b, bs, hencode, hwide b List.mem_cons_self⟩

theorem ascii_toNat {c : Char} (h : c.toNat < 128) : (ascii c).toNat = c.toNat :=
  ofNat_toNat (by omega)

theorem ascii_inj {a c : Char} (ha : a.toNat < 128) (hc : c.toNat < 128) :
    ascii a = ascii c ↔ a = c := by
  rw [← UInt8.toNat_inj, ascii_toNat ha, ascii_toNat hc, Char.toNat_inj]

/-- A byte of a wider character is none of ASCII. -/
theorem wide_ne_ascii {b : UInt8} {a : Char} (hb : 128 ≤ b.toNat) (ha : a.toNat < 128) :
    b ≠ ascii a := by
  rintro rfl
  rw [ascii_toNat ha] at hb
  omega

@[simp] theorem toUtf8_nil : toUtf8 [] = [] := rfl

@[simp] theorem toUtf8_append (t u : Text) : toUtf8 (t ++ u) = toUtf8 t ++ toUtf8 u :=
  List.flatMap_append

theorem toUtf8_cons (c : Char) (cs : Text) :
    toUtf8 (c :: cs) = String.utf8EncodeChar c ++ toUtf8 cs :=
  List.flatMap_cons

theorem toUtf8_ascii {c : Char} (h : c.toNat < 128) (cs : Text) :
    toUtf8 (c :: cs) = ascii c :: toUtf8 cs := by
  rw [toUtf8_cons, encode_ascii h, List.singleton_append]

@[simp] theorem byteLen_nil : byteLen [] = 0 := rfl

@[simp] theorem byteLen_cons (c : Char) (cs : Text) :
    byteLen (c :: cs) = c.utf8Size + byteLen cs := by
  rw [byteLen, toUtf8_cons, List.length_append, String.length_utf8EncodeChar, byteLen]

@[simp] theorem byteLen_append (t u : Text) : byteLen (t ++ u) = byteLen t + byteLen u := by
  rw [byteLen, toUtf8_append, List.length_append, byteLen, byteLen]

theorem utf8Size_ascii {c : Char} (h : c.toNat < 128) : c.utf8Size = 1 := by
  rw [← String.length_utf8EncodeChar, encode_ascii h, List.length_singleton]

theorem toLower_ascii {c : Char} (h : c.toNat < 128) : c.toLower.toNat < 128 := by
  have hall : ∀ n < 128, (Char.ofNat n).toLower.toNat < 128 := by decide
  have hlt := hall c.toNat h
  rwa [Char.ofNat_toNat] at hlt

theorem toLower_wide {c : Char} (h : 128 ≤ c.toNat) : c.toLower = c := by
  apply dif_neg
  rintro ⟨-, hle⟩
  have : c.toNat ≤ 90 := hle
  omega

theorem byteLen_asciiLower (text : Text) : byteLen (asciiLower text) = byteLen text := by
  induction text with
  | nil => rfl
  | cons c cs ih =>
      have hsize : c.toLower.utf8Size = c.utf8Size := by
        by_cases hc : c.toNat < 128
        · rw [utf8Size_ascii hc, utf8Size_ascii (toLower_ascii hc)]
        · rw [toLower_wide (Nat.not_lt.mp hc)]
      rw [byteLen_cons, ← ih, ← hsize]
      exact byteLen_cons c.toLower (asciiLower cs)

/-- A text starts with an ASCII character where its bytes do. -/
theorem head_ascii {a : Char} (ha : a.toNat < 128) (text : Text) :
    (toUtf8 text).head? = some (ascii a) ↔ text.head? = some a := by
  cases text with
  | nil => simp
  | cons c cs =>
      by_cases hc : c.toNat < 128
      · rw [toUtf8_ascii hc, List.head?_cons, List.head?_cons, Option.some_inj, Option.some_inj,
          ascii_inj hc ha]
      · have hne : c ≠ a := by
          rintro rfl
          exact hc ha
        obtain ⟨b, bs, hencode, hb⟩ := encode_wide_cons (Nat.not_lt.mp hc)
        rw [toUtf8_cons, hencode, List.cons_append, List.head?_cons, List.head?_cons,
          Option.some_inj, Option.some_inj]
        exact iff_of_false (wide_ne_ascii hb ha) hne

theorem strFrom_append (before rest : Text) : strFrom (before ++ rest) (byteLen before) = .ok rest := by
  induction before with
  | nil => cases rest <;> rfl
  | cons c cs ih =>
      have hpos := c.utf8Size_pos
      have hlen : byteLen (c :: cs) = c.utf8Size + byteLen cs - 1 + 1 := by
        rw [byteLen_cons]
        omega
      rw [List.cons_append, hlen, strFrom, if_pos (by omega)]
      have hrest : c.utf8Size + byteLen cs - 1 + 1 - c.utf8Size = byteLen cs := by omega
      rw [hrest, ih]

theorem strTo_append (before rest : Text) : strTo (before ++ rest) (byteLen before) = .ok before := by
  induction before with
  | nil => cases rest <;> rfl
  | cons c cs ih =>
      have hpos := c.utf8Size_pos
      have hlen : byteLen (c :: cs) = c.utf8Size + byteLen cs - 1 + 1 := by
        rw [byteLen_cons]
        omega
      rw [List.cons_append, hlen, strTo, if_pos (by omega)]
      have hrest : c.utf8Size + byteLen cs - 1 + 1 - c.utf8Size = byteLen cs := by omega
      rw [hrest, ih]
      rfl

theorem strRange_append (before inner rest : Text) :
    strRange (before ++ (inner ++ rest)) (byteLen before) (byteLen before + byteLen inner) =
      .ok inner := by
  have hto := strTo_append (before ++ inner) rest
  rw [byteLen_append, List.append_assoc] at hto
  rw [strRange, hto]
  exact strFrom_append before inner

/-! ## Regions in bytes -/

theorem blockCommentLoop_wide {xs : Bytes} (h : ∀ x ∈ xs, 128 ≤ x.toNat) (depth index : Nat)
    (ys : Bytes) :
    blockCommentLoop depth index (xs ++ ys) = blockCommentLoop depth (index + xs.length) ys := by
  induction xs generalizing index with
  | nil => rfl
  | cons x xs ih =>
      have hx : 128 ≤ x.toNat := h x List.mem_cons_self
      have hslash : x ≠ ascii '/' := wide_ne_ascii hx (by decide)
      have hstar : x ≠ ascii '*' := wide_ne_ascii hx (by decide)
      have hrest := ih (fun y hy => h y (List.mem_cons_of_mem x hy)) (index + 1)
      rw [List.length_cons, Nat.add_comm xs.length, ← Nat.add_assoc, ← hrest, List.cons_append]
      cases xs ++ ys with
      | nil => rfl
      | cons y zs => simp [blockCommentLoop, hslash, hstar]

theorem quoteLoop_wide {quote : UInt8} {xs : Bytes} (h : ∀ x ∈ xs, x ≠ quote) (i : Nat)
    (ys : Bytes) : quoteLoop quote i (xs ++ ys) = quoteLoop quote (i + xs.length) ys := by
  induction xs generalizing i with
  | nil => rfl
  | cons x xs ih =>
      have hx : x ≠ quote := h x List.mem_cons_self
      have hrest := ih (fun y hy => h y (List.mem_cons_of_mem x hy)) (i + 1)
      rw [List.length_cons, Nat.add_comm xs.length, ← Nat.add_assoc, ← hrest, List.cons_append]
      cases xs ++ ys with
      | nil => rfl
      | cons y zs => simp [quoteLoop, hx]

/-- The byte loop passes a character in which nothing ends. -/
theorem blockCommentLoop_char {a : Char} {cs : Text} {depth : Nat} (index : Nat)
    (hopen : ¬ (a = '/' ∧ cs.head? = some '*')) (hclose : ¬ (a = '*' ∧ cs.head? = some '/')) :
    blockCommentLoop depth index (toUtf8 (a :: cs)) =
      blockCommentLoop depth (index + a.utf8Size) (toUtf8 cs) := by
  by_cases ha : a.toNat < 128
  · rw [toUtf8_ascii ha, utf8Size_ascii ha]
    have hopen' : ¬ (ascii a = ascii '/' ∧ (toUtf8 cs).head? = some (ascii '*')) := by
      rwa [ascii_inj ha (by decide), head_ascii (by decide)]
    have hclose' : ¬ (ascii a = ascii '*' ∧ (toUtf8 cs).head? = some (ascii '/')) := by
      rwa [ascii_inj ha (by decide), head_ascii (by decide)]
    cases hbytes : toUtf8 cs with
    | nil => rfl
    | cons b bytes =>
        rw [hbytes, List.head?_cons, Option.some_inj] at hopen' hclose'
        rw [blockCommentLoop, if_neg hopen', if_neg hclose']
  · rw [toUtf8_cons, blockCommentLoop_wide (encode_wide (Nat.not_lt.mp ha)),
      String.length_utf8EncodeChar]

theorem blockCommentLoop_cut {depth : Nat} (hdepth : 0 < depth) (index : Nat) (text : Text) :
    blockCommentLoop depth index (toUtf8 text) = index + byteLen (blockCommentCut depth text).1 := by
  fun_induction blockCommentCut depth text generalizing index with
  | case1 depth a b cs h ih =>
      obtain ⟨rfl, rfl⟩ := h
      rw [toUtf8_ascii (by decide), toUtf8_ascii (by decide), blockCommentLoop, if_pos ⟨rfl, rfl⟩,
        ih (Nat.succ_pos depth), Cut.push_fst, byteLen_append, ← Nat.add_assoc]
      rfl
  | case2 a b cs h hclose =>
      obtain ⟨rfl, rfl⟩ := hclose
      rw [toUtf8_ascii (by decide), toUtf8_ascii (by decide)]
      rfl
  | case3 depth a b cs h hclose hdeep ih =>
      obtain ⟨rfl, rfl⟩ := hclose
      have hslash : ascii '*' ≠ ascii '/' := by decide
      rw [toUtf8_ascii (by decide), toUtf8_ascii (by decide), blockCommentLoop,
        if_neg fun h => hslash h.1, if_pos ⟨rfl, rfl⟩, if_neg (by omega), ih (by omega),
        Cut.push_fst, byteLen_append, ← Nat.add_assoc]
      rfl
  | case4 depth a b cs h hclose ih =>
      rw [blockCommentLoop_char index (by simpa using h) (by simpa using hclose), ih hdepth,
        Cut.push_fst, byteLen_append, byteLen_cons, byteLen_nil, Nat.add_zero, Nat.add_assoc]
  | case5 depth text hshort =>
      cases text with
      | nil => rfl
      | cons a cs =>
          cases cs with
          | nil =>
              rw [blockCommentLoop_char index (by simp) (by simp), byteLen_cons]
              rfl
          | cons b cs => exact absurd rfl (hshort a b cs)

theorem quoteLoop_char {quote a : Char} (hquote : quote.toNat < 128) (hne : a ≠ quote) (i : Nat)
    (cs : Text) :
    quoteLoop (ascii quote) i (toUtf8 (a :: cs)) =
      quoteLoop (ascii quote) (i + a.utf8Size) (toUtf8 cs) := by
  have hbytes : ∀ b ∈ String.utf8EncodeChar a, b ≠ ascii quote := by
    by_cases ha : a.toNat < 128
    · intro b hb
      rw [encode_ascii ha, List.mem_singleton] at hb
      rwa [hb, Ne, ascii_inj ha hquote]
    · intro b hb
      exact wide_ne_ascii (encode_wide (Nat.not_lt.mp ha) b hb) hquote
  rw [toUtf8_cons, quoteLoop_wide hbytes, String.length_utf8EncodeChar]

theorem quoteLoop_cut {quote : Char} (hquote : quote.toNat < 128) (i : Nat) (text : Text) :
    quoteLoop (ascii quote) i (toUtf8 text) = i + byteLen (quotedCut quote text).1 := by
  fun_induction quotedCut quote text generalizing i with
  | case1 => rfl
  | case2 =>
      rw [toUtf8_ascii hquote]
      simp [quoteLoop, utf8Size_ascii hquote]
  | case3 a hne =>
      rw [quoteLoop_char hquote hne, byteLen_cons]
      rfl
  | case4 cs ih =>
      rw [toUtf8_ascii hquote, toUtf8_ascii hquote, quoteLoop, if_pos rfl, if_pos rfl, ih,
        Cut.push_fst, byteLen_append, ← Nat.add_assoc]
      simp [utf8Size_ascii hquote]
  | case5 b cs hne =>
      rw [toUtf8_ascii hquote]
      have hhead : (toUtf8 (b :: cs)).head? ≠ some (ascii quote) := by
        rw [Ne, head_ascii hquote]
        simpa using hne
      cases hbytes : toUtf8 (b :: cs) with
      | nil => simp [quoteLoop, utf8Size_ascii hquote]
      | cons y ys =>
          rw [hbytes, List.head?_cons, Ne, Option.some_inj] at hhead
          rw [quoteLoop, if_pos rfl, if_neg hhead]
          simp [utf8Size_ascii hquote]
  | case6 a b cs hne ih =>
      rw [quoteLoop_char hquote hne, ih, Cut.push_fst, byteLen_append, byteLen_cons, byteLen_nil,
        Nat.add_zero, Nat.add_assoc]

/-- What `find` yields, and the newline, lie behind each other. -/
theorem strFind_lineComment (text : Text) :
    (strFind '\n' text).elim (byteLen text) (· + 1) = byteLen (lineCommentCut text).1 := by
  induction text with
  | nil => rfl
  | cons c cs ih =>
      rw [strFind, lineCommentCut]
      by_cases hc : c = '\n'
      · subst hc
        rfl
      · rw [if_neg hc, if_neg hc, Cut.push_fst, byteLen_append, ← ih, byteLen_cons, byteLen_cons]
        cases strFind '\n' cs with
        | none => simp
        | some stop =>
            simp only [Option.map_some, Option.elim_some, byteLen_nil]
            omega

theorem isDigitByte_ascii {c : Char} (h : c.toNat < 128) : isDigitByte (ascii c) = c.isDigit := by
  have hzero : '0'.toNat = 48 := rfl
  have hnine : '9'.toNat = 57 := rfl
  rw [Bool.eq_iff_iff, Char.isDigit_iff_toNat, isDigitByte, Bool.and_eq_true, decide_eq_true_eq,
    decide_eq_true_eq, UInt8.le_iff_toNat_le, UInt8.le_iff_toNat_le, ascii_toNat h,
    ascii_toNat (by decide), ascii_toNat (by decide)]

theorem isDigitByte_wide {b : UInt8} (h : 128 ≤ b.toNat) : isDigitByte b = false := by
  have hnine : (ascii '9').toNat = 57 := rfl
  rw [isDigitByte, Bool.and_eq_false_iff, decide_eq_false_iff_not, decide_eq_false_iff_not,
    UInt8.le_iff_toNat_le, UInt8.le_iff_toNat_le]
  omega

theorem isDigit_lt {c : Char} (h : c.isDigit) : c.toNat < 128 := by
  have hnine : '9'.toNat = 57 := rfl
  have := (Char.isDigit_iff_toNat.mp h).2
  omega

theorem isTagChar_lt {c : Char} (h : isTagChar c) : c.toNat < 128 := by
  have hupper : 'Z'.val.toNat = 90 := rfl
  have hlower : 'z'.val.toNat = 122 := rfl
  have hunder : '_'.toNat = 95 := rfl
  rw [isTagChar, Bool.or_eq_true, beq_iff_eq] at h
  rcases h with h | rfl
  · change (decide (c.val ≥ 'A'.val ∧ c.val ≤ 'Z'.val) || (decide (c.val ≥ 'a'.val) &&
      decide (c.val ≤ 'z'.val))) = true at h
    simp only [Bool.and_eq_true, decide_eq_true_eq, Bool.or_eq_true, ge_iff_le,
      UInt32.le_iff_toNat_le] at h
    rw [← Char.toNat_val]
    omega
  · omega

/-- The tag letters of ASCII, as bytes and as characters. -/
theorem isTagByte_ascii {c : Char} (h : c.toNat < 128) : isTagByte (ascii c) = isTagChar c := by
  have hall : ∀ n < 128, isTagByte (ascii (Char.ofNat n)) = isTagChar (Char.ofNat n) := by decide
  have hc := hall c.toNat h
  rwa [Char.ofNat_toNat] at hc

theorem isTagByte_wide {b : UInt8} (h : 128 ≤ b.toNat) : isTagByte b = false := by
  have hupper : (ascii 'Z').toNat = 90 := rfl
  have hlower : (ascii 'z').toNat = 122 := rfl
  have hunder : b ≠ ascii '_' := wide_ne_ascii h (by decide)
  simp only [isTagByte, Bool.or_eq_false_iff, Bool.and_eq_false_iff, decide_eq_false_iff_not,
    UInt8.le_iff_toNat_le, beq_eq_false_iff_ne]
  exact ⟨by omega, hunder⟩

theorem tagLoop_eq (i : Nat) (text : Text) :
    tagLoop i (toUtf8 text) = (tagTail text).map fun tag => i + byteLen tag - 1 := by
  fun_induction tagTail text generalizing i with
  | case1 => rfl
  | case2 cs =>
      rw [toUtf8_ascii (by decide)]
      rfl
  | case3 c cs hne htag ih =>
      have hc := isTagChar_lt htag
      rw [toUtf8_ascii hc, tagLoop, if_neg (by rwa [ascii_inj hc (by decide)]),
        isTagByte_ascii hc, if_pos htag, ih, Option.map_map]
      refine Option.map_congr fun tag htail => ?_
      simp only [Function.comp_apply, byteLen_cons, utf8Size_ascii hc]
      omega
  | case4 c cs hne htag =>
      by_cases hc : c.toNat < 128
      · rw [toUtf8_ascii hc, tagLoop, if_neg (by rwa [ascii_inj hc (by decide)]),
          isTagByte_ascii hc, if_neg htag]
        rfl
      · obtain ⟨b, bs, hencode, hb⟩ := encode_wide_cons (Nat.not_lt.mp hc)
        rw [toUtf8_cons, hencode, List.cons_append, tagLoop,
          if_neg (wide_ne_ascii hb (by decide)), isTagByte_wide hb]
        rfl

theorem dollarTagBytes_eq (rest : Text) : dollarTagBytes rest = .ok (dollarTagStr rest) := by
  cases rest with
  | nil => rfl
  | cons c cs =>
      by_cases hc : c = '$'
      · subst hc
        rw [dollarTagBytes, toUtf8_ascii (by decide)]
        dsimp only
        rw [if_pos rfl, tagLoop_eq, dollarTagStr, if_pos rfl]
        cases htag : tagTail cs with
        | none => rfl
        | some tag =>
            obtain ⟨rest, rfl, -⟩ := tagTail_append htag
            have hlen : 1 + byteLen tag - 1 + 1 = byteLen ('$' :: tag) := by
              rw [byteLen_cons]
              have : '$'.utf8Size = 1 := rfl
              omega
            dsimp only [Option.map_some]
            rw [hlen, ← List.cons_append, strTo_append]
            rfl
      · have hhead : (toUtf8 (c :: cs)).head? ≠ some (ascii '$') := by
          rw [Ne, head_ascii (by decide)]
          simpa using hc
        rw [dollarTagBytes, dollarTagStr, if_neg hc]
        cases hbytes : toUtf8 (c :: cs) with
        | nil => rfl
        | cons b bytes =>
            rw [hbytes, List.head?_cons, Ne, Option.some_inj] at hhead
            dsimp only
            rw [if_neg hhead]

theorem takeWhile_digits (text : Text) :
    ((toUtf8 text).takeWhile isDigitByte).length = (text.takeWhile Char.isDigit).length := by
  induction text with
  | nil => rfl
  | cons c cs ih =>
      by_cases hc : c.toNat < 128
      · rw [toUtf8_ascii hc, List.takeWhile_cons, List.takeWhile_cons, isDigitByte_ascii hc]
        split
        · rw [List.length_cons, List.length_cons, ih]
        · rfl
      · have hdigit : c.isDigit = false := by
          rw [Bool.eq_false_iff]
          exact fun h => hc (isDigit_lt h)
        obtain ⟨b, bs, hencode, hb⟩ := encode_wide_cons (Nat.not_lt.mp hc)
        rw [toUtf8_cons, hencode, List.cons_append, List.takeWhile_cons, List.takeWhile_cons,
          isDigitByte_wide hb, hdigit]
        rfl

theorem dollarNumberBytes_eq (rest : Text) : dollarNumberBytes rest = dollarNumber rest := by
  cases rest with
  | nil => rfl
  | cons c cs =>
      by_cases hc : c = '$'
      · subst hc
        rw [dollarNumberBytes, toUtf8_ascii (by decide)]
        dsimp only
        rw [if_pos rfl, takeWhile_digits, dollarNumber, if_pos rfl]
      · have hhead : (toUtf8 (c :: cs)).head? ≠ some (ascii '$') := by
          rw [Ne, head_ascii (by decide)]
          simpa using hc
        rw [dollarNumberBytes, dollarNumber, if_neg hc]
        cases hbytes : toUtf8 (c :: cs) with
        | nil => rfl
        | cons b bytes =>
            rw [hbytes, List.head?_cons, Ne, Option.some_inj] at hhead
            dsimp only
            rw [if_neg hhead]

/-! ## The scan -/

/-- The bytes of a placeholder. -/
def byteRange (sql : Text) (p : SqlPlaceholder) : SqlPlaceholder :=
  ⟨byteLen (sql.take p.start), byteLen (sql.take p.stop), p.index⟩

theorem byte_at (before rest : Text) :
    (toUtf8 (before ++ rest))[byteLen before]? = (toUtf8 rest).head? := by
  rw [toUtf8_append, byteLen, List.getElem?_append_right (Nat.le_refl _), Nat.sub_self,
    List.head?_eq_getElem?]

theorem drop_bytes (before rest : Text) :
    (toUtf8 (before ++ rest)).drop (byteLen before) = toUtf8 rest := by
  rw [toUtf8_append, byteLen, List.drop_left]

theorem byteLen_snoc {c : Char} (h : c.toNat < 128) (before : Text) :
    byteLen (before ++ [c]) = byteLen before + 1 := by
  rw [byteLen_append, byteLen_cons, utf8Size_ascii h, byteLen_nil]

/-- The byte behind an ASCII character. -/
theorem byte_behind {c : Char} (h : c.toNat < 128) (before cs : Text) :
    (toUtf8 (before ++ c :: cs))[byteLen before + 1]? = (toUtf8 cs).head? := by
  rw [← byteLen_snoc h, List.append_cons, byte_at]

theorem drop_behind {c : Char} (h : c.toNat < 128) (before cs : Text) :
    (toUtf8 (before ++ c :: cs)).drop (byteLen before + 1) = toUtf8 cs := by
  rw [← byteLen_snoc h, List.append_cons before c cs, drop_bytes]

theorem index_at {b : UInt8} {before rest : Text} (h : (toUtf8 rest).head? = some b) :
    (index (toUtf8 (before ++ rest)) (byteLen before) : Exec String UInt8) = .ok b := by
  rw [index, byte_at, h]

theorem head_bytes {c : Char} (h : c.toNat < 128) (cs : Text) :
    (toUtf8 (c :: cs)).head? = some (ascii c) := by
  rw [toUtf8_ascii h, List.head?_cons]

/-- A comment or a quoted region is passed in one turn. -/
theorem scanStep_protected {r : Region} {cut : Cut} {text : Text} (hopen : Opened r cut text)
    (hr : r ≠ .dollarBody) (before : Text) (acc : List SqlPlaceholder) :
    scanStep (before ++ text) ⟨byteLen before, none, acc⟩ =
      .ok ⟨byteLen (before ++ cut.1), none, acc⟩ := by
  have hquote : ascii '"' ≠ ascii '-' ∧ ascii '"' ≠ ascii '/' := by decide
  have hapostrophe : ascii '\'' ≠ ascii '-' ∧ ascii '\'' ≠ ascii '/' := by decide
  have hslash : ascii '/' ≠ ascii '-' := by decide
  cases hopen with
  | lineComment cs =>
      have hnext : (toUtf8 (before ++ '-' :: '-' :: cs))[byteLen before + 1]? = some (ascii '-') := by
        rw [byte_behind (by decide), head_bytes (by decide)]
      have hcut := strFind_lineComment cs
      have hskip : strFind '\n' ('-' :: '-' :: cs) = (strFind '\n' cs).map (2 + ·) := by
        rw [strFind, strFind, if_neg (by decide), if_neg (by decide), Option.map_map]
        refine Option.map_congr fun stop _ => ?_
        have hsize : '-'.utf8Size = 1 := rfl
        rw [Function.comp_apply, hsize]
        omega
      have hsize : byteLen ['-', '-'] = 2 := rfl
      unfold scanStep
      dsimp only
      rw [index_at (head_bytes (by decide) _), ok_bind, if_pos ⟨rfl, hnext⟩, strFrom_append, ok_bind,
        hskip, Cut.push_fst, byteLen_append, byteLen_append, byteLen_append ['-', '-'], ← hcut, hsize]
      cases strFind '\n' cs with
      | none =>
          have hlen : byteLen ('-' :: '-' :: cs) = 2 + byteLen cs := by
            rw [← hsize, ← byteLen_append]
            rfl
          dsimp only [Option.map_none, Option.elim_none]
          rw [hlen]
      | some stop =>
          dsimp only [Option.map_some, Option.elim_some]
          rw [Nat.add_assoc, Nat.add_assoc]
  | blockComment cs =>
      have hnext : (toUtf8 (before ++ '/' :: '*' :: cs))[byteLen before + 1]? = some (ascii '*') := by
        rw [byte_behind (by decide), head_bytes (by decide)]
      have hsize : byteLen ['/', '*'] = 2 := rfl
      have hdrop : (toUtf8 (before ++ '/' :: '*' :: cs)).drop (byteLen before + 2) = toUtf8 cs := by
        have h := drop_bytes (before ++ ['/', '*']) cs
        rwa [byteLen_append, hsize, List.append_assoc] at h
      unfold scanStep
      dsimp only
      rw [index_at (head_bytes (by decide) _), ok_bind, if_neg fun h => hslash h.1,
        if_pos ⟨rfl, hnext⟩, blockCommentEnd, hdrop, blockCommentLoop_cut Nat.one_pos, Cut.push_fst,
        byteLen_append, byteLen_append, hsize, Nat.add_assoc]
  | string cs =>
      unfold scanStep
      dsimp only
      rw [index_at (head_bytes (by decide) _), ok_bind, if_neg fun h => hapostrophe.1 h.1,
        if_neg fun h => hapostrophe.2 h.1, if_pos (.inl rfl), drop_behind (by decide),
        quoteLoop_cut (by decide), Cut.push_fst, byteLen_append, byteLen_append, Nat.add_assoc]
      rfl
  | quotedIdentifier cs =>
      unfold scanStep
      dsimp only
      rw [index_at (head_bytes (by decide) _), ok_bind, if_neg fun h => hquote.1 h.1,
        if_neg fun h => hquote.2 h.1, if_pos (.inr rfl), drop_behind (by decide),
        quoteLoop_cut (by decide), Cut.push_fst, byteLen_append, byteLen_append, Nat.add_assoc]
      rfl
  | dollarBody => exact absurd rfl hr

/-- At a `$` a tag is tried first and then a number. -/
theorem scanStep_dollar (before cs : Text) (acc : List SqlPlaceholder) :
    scanStep (before ++ '$' :: cs) ⟨byteLen before, none, acc⟩ =
      match dollarTagStr ('$' :: cs) with
      | some tag => .ok ⟨byteLen (before ++ tag), some tag, acc⟩
      | none =>
          match dollarNumber ('$' :: cs) with
          | some n =>
              let stop := byteLen (before ++ '$' :: cs.take n)
              .ok ⟨stop, none, acc ++ [⟨byteLen before, stop, (parseUsize (cs.take n)).getD 0⟩]⟩
          | none => .ok ⟨byteLen (before ++ ['$']), none, acc⟩ := by
  have hdollar : ascii '$' ≠ ascii '-' ∧ ascii '$' ≠ ascii '/' ∧
      ¬ (ascii '$' = ascii '\'' ∨ ascii '$' = ascii '"') := by decide
  unfold scanStep
  dsimp only
  rw [index_at (head_bytes (by decide) _), ok_bind, if_neg fun h => hdollar.1 h.1,
    if_neg fun h => hdollar.2.1 h.1, if_neg hdollar.2.2, if_pos rfl, strFrom_append, ok_bind,
    dollarTagBytes_eq, ok_bind]
  cases dollarTagStr ('$' :: cs) with
  | some tag =>
      dsimp only
      rw [byteLen_append]
  | none =>
      dsimp only
      rw [dollarNumberBytes_eq]
      cases hnumber : dollarNumber ('$' :: cs) with
      | none =>
          dsimp only
          rw [byteLen_snoc (by decide)]
      | some n =>
          obtain ⟨-, -, hn, hdigits, -⟩ := dollarNumber_spec hnumber
          have hlen : byteLen (cs.take n) = n := by
            have hones : ∀ t : Text, (∀ d ∈ t, d.isDigit = true) → byteLen t = t.length := by
              intro t ht
              induction t with
              | nil => rfl
              | cons d ds ih =>
                  rw [byteLen_cons, utf8Size_ascii (isDigit_lt (ht d List.mem_cons_self)),
                    ih fun e he => ht e (List.mem_cons_of_mem d he), List.length_cons, Nat.add_comm]
            rw [hones _ hdigits, List.length_take_of_le hn]
          have hstop : byteLen (before ++ '$' :: cs.take n) = byteLen before + 1 + n := by
            rw [List.append_cons, byteLen_append, byteLen_snoc (by decide), hlen]
          have hslice : strRange (before ++ '$' :: cs) (byteLen before + 1) (byteLen before + 1 + n) =
              .ok (cs.take n) := by
            have h := strRange_append (before ++ ['$']) (cs.take n) (cs.drop n)
            rwa [List.take_append_drop, ← List.append_cons, byteLen_snoc (by decide), hlen] at h
          dsimp only
          rw [hslice, ok_bind, hstop]

theorem scanStep_char {c : Char} {cs : Text} (hopen : openedSpan (c :: cs) = none)
    (hnumber : dollarNumber (c :: cs) = none) (before : Text) (acc : List SqlPlaceholder) :
    scanStep (before ++ c :: cs) ⟨byteLen before, none, acc⟩ =
      .ok ⟨byteLen (before ++ [c]), none, acc⟩ := by
  by_cases hdollar : c = '$'
  · subst hdollar
    have htag : dollarTagStr ('$' :: cs) = none := by
      have := ((openedSpan_eq_none_iff _ _).mp hopen).2.2.2.2 rfl
      rw [dollarTagStr, if_pos rfl, this, Option.map_none]
    rw [scanStep_dollar, htag, hnumber]
  · obtain ⟨hline, hblock, hstring, hident, -⟩ := (openedSpan_eq_none_iff _ _).mp hopen
    obtain ⟨b, bs, hbytes, -⟩ := utf8Next_encode c (toUtf8 cs)
    have hhead : (toUtf8 (c :: cs)).head? = some b := by
      rw [toUtf8_cons, hbytes, List.cons_append, List.head?_cons]
    have hbyte : ∀ a : Char, a.toNat < 128 → (b = ascii a ↔ c = a) := by
      intro a ha
      have := head_ascii ha (c :: cs)
      rwa [hhead, List.head?_cons, Option.some_inj, Option.some_inj] at this
    have hbehind : ∀ a d : Char, a.toNat < 128 → d.toNat < 128 →
        ¬ (c = a ∧ cs.head? = some d) →
        ¬ (b = ascii a ∧ (toUtf8 (before ++ c :: cs))[byteLen before + 1]? = some (ascii d)) := by
      rintro a d ha hd hnot ⟨hb, hnext⟩
      obtain rfl := (hbyte a ha).mp hb
      rw [byte_behind ha, head_ascii hd] at hnext
      exact hnot ⟨rfl, hnext⟩
    unfold scanStep
    dsimp only
    rw [index_at hhead, ok_bind, if_neg (hbehind '-' '-' (by decide) (by decide) hline),
      if_neg (hbehind '/' '*' (by decide) (by decide) hblock),
      if_neg (by rw [hbyte _ (by decide), hbyte _ (by decide)]; exact not_or.mpr ⟨hstring, hident⟩),
      if_neg (by rwa [hbyte _ (by decide)]), strFrom_append, ok_bind, byteLen_append,
      byteLen_cons, byteLen_nil]
    rfl

/-! ## The loop -/

theorem scanLoop_step {sql : Text} {st st' : Scan} (hi : st.i < byteLen sql)
    (hstep : scanStep sql st = .ok st') (fuel : Nat) :
    scanLoop sql (fuel + 1) st = scanLoop sql fuel st' := by
  rw [scanLoop, if_pos hi, hstep]

theorem scanLoop_end {sql : Text} {st : Scan} (hi : byteLen sql ≤ st.i) (fuel : Nat) :
    scanLoop sql (fuel + 1) st = some (.ok st.placeholders) := by
  rw [scanLoop, if_neg (Nat.not_lt.mpr hi)]

theorem byteLen_pos (c : Char) (cs : Text) : 0 < byteLen (c :: cs) := by
  have hpos := c.utf8Size_pos
  rw [byteLen_cons]
  omega

/-- The scan ends with `out` from position `before` on, whatever the fuel beyond the length. -/
def Scans (before rest : Text) (quote : Option Text) (acc out : List SqlPlaceholder) : Prop :=
  ∀ fuel, byteLen rest < fuel →
    scanLoop (before ++ rest) fuel ⟨byteLen before, quote, acc⟩ = some (.ok out)

theorem Scans.ended (before : Text) (quote : Option Text) (acc : List SqlPlaceholder) :
    Scans before [] quote acc acc := by
  intro fuel hfuel
  obtain ⟨fuel, rfl⟩ := Nat.exists_eq_succ_of_ne_zero (Nat.ne_zero_of_lt hfuel)
  exact scanLoop_end (by rw [List.append_nil]) fuel

theorem Scans.step {before passed rest : Text} {quote quote' : Option Text}
    {acc acc' out : List SqlPlaceholder} (hpassed : 0 < byteLen passed)
    (hstep : scanStep (before ++ (passed ++ rest)) ⟨byteLen before, quote, acc⟩ =
      .ok ⟨byteLen (before ++ passed), quote', acc'⟩)
    (hrest : Scans (before ++ passed) rest quote' acc' out) :
    Scans before (passed ++ rest) quote acc out := by
  intro fuel hfuel
  obtain ⟨fuel, rfl⟩ := Nat.exists_eq_succ_of_ne_zero (Nat.ne_zero_of_lt hfuel)
  rw [byteLen_append] at hfuel
  have hinside : byteLen before < byteLen (before ++ (passed ++ rest)) := by
    rw [byteLen_append, byteLen_append]
    omega
  rw [scanLoop_step hinside hstep, ← List.append_assoc]
  exact hrest fuel (by omega)

/-- In a dollar-quoted body the scan moves to the closing tag, or to the end. -/
theorem Scans.body {tag : Text} (htag : 0 < byteLen tag) {text before : Text}
    {acc out : List SqlPlaceholder}
    (hrest : Scans (before ++ (dollarBodyCut tag text).1) (dollarBodyCut tag text).rest none acc out) :
    Scans before text (some tag) acc out := by
  fun_induction dollarBodyCut tag text generalizing before with
  | case1 =>
      have hout := hrest 1 (by simp [Cut.rest])
      have hacc : acc = out := by
        rw [scanLoop_end (by simp [Cut.rest])] at hout
        exact Except.ok.inj (Option.some.inj hout)
      exact hacc ▸ Scans.ended before (some tag) acc
  | case2 c cs hlead =>
      obtain ⟨rest, hsplit⟩ := List.isPrefixOf_iff_prefix.mp hlead
      have hdrop : (c :: cs).drop tag.length = rest := by rw [← hsplit, List.drop_left]
      rw [← hsplit]
      dsimp only [Cut.rest, Option.getD_some] at hrest
      rw [hdrop] at hrest
      refine Scans.step htag ?_ hrest
      rw [scanStep]
      dsimp only
      rw [hsplit, strFrom_append, ok_bind, if_pos hlead, byteLen_append]
  | case3 c cs hlead ih =>
      rw [Cut.push_fst, Cut.push_rest, ← List.append_assoc] at hrest
      refine Scans.step (byteLen_pos c []) ?_ (ih hrest)
      rw [scanStep]
      dsimp only
      rw [List.singleton_append, strFrom_append, ok_bind, if_neg hlead, byteLen_append,
        byteLen_cons, byteLen_nil]
      rfl

/-- The bytes of a number, behind the bytes of what stands before it. -/
theorem byteRange_append (before digits rest : Text) (index : Nat) :
    byteRange (before ++ ('$' :: digits ++ rest))
        ⟨before.length, before.length + 1 + digits.length, index⟩ =
      ⟨byteLen before, byteLen (before ++ '$' :: digits), index⟩ := by
  have hstop : (before ++ ('$' :: digits ++ rest)).take (before.length + 1 + digits.length) =
      before ++ '$' :: digits := by
    rw [← List.append_assoc, List.take_left' (by simp; omega)]
  rw [byteRange, hstop, List.take_left]

theorem scan_pieces {text : Text} {ps : List Piece} (h : Pieced text ps) (before : Text)
    (acc : List SqlPlaceholder) :
    Scans before text none acc
      (acc ++ (numbered before.length ps).map (byteRange (before ++ text))) := by
  induction h generalizing before acc with
  | nil =>
      rw [numbered, List.map_nil, List.append_nil]
      exact Scans.ended before none acc
  | @span text r cut ps hopen rest ih =>
      have hsplit : cut.1 ++ cut.rest = text := hopen.splits
      have hrest := ih (before ++ cut.1) acc
      rw [List.append_assoc, hsplit, List.length_append] at hrest
      rw [numbered]
      by_cases hr : r = .dollarBody
      · subst hr
        cases hopen with
        | dollarBody tail cs htag =>
            have hpos := byteLen_pos '$' tail
            rw [Cut.push_fst, Cut.push_rest, ← List.append_assoc] at hrest
            refine Scans.step hpos ?_ (Scans.body hpos hrest)
            rw [List.cons_append, scanStep_dollar, ← List.cons_append, htag]
      · have hpos : 0 < byteLen cut.1 := by
          obtain ⟨c, w, hw, -⟩ := hopen.head
          rw [hw]
          exact byteLen_pos c w
        have hstep := scanStep_protected hopen hr before acc
        rw [← hsplit] at hstep hrest ⊢
        exact Scans.step hpos hstep hrest
  | @number cs n ps hopen hnumber rest ih =>
      obtain ⟨-, -, hn, -, -⟩ := dollarNumber_spec hnumber
      have htag : dollarTagStr ('$' :: cs) = none := by
        have := ((openedSpan_eq_none_iff _ _).mp hopen).2.2.2.2 rfl
        rw [dollarTagStr, if_pos rfl, this, Option.map_none]
      have hsplit : ('$' :: cs.take n) ++ cs.drop n = '$' :: cs := by
        rw [List.cons_append, List.take_append_drop]
      have hrange := byteRange_append before (cs.take n) (cs.drop n)
        ((parseUsize (cs.take n)).getD 0)
      have hrest := ih (before ++ '$' :: cs.take n)
        (acc ++ [byteRange (before ++ '$' :: cs)
          ⟨before.length, before.length + 1 + (cs.take n).length, (parseUsize (cs.take n)).getD 0⟩])
      rw [hsplit] at hrange
      rw [List.append_assoc before, hsplit, List.append_assoc, List.length_append, List.length_cons,
        Nat.add_comm (cs.take n).length, ← Nat.add_assoc, List.singleton_append] at hrest
      rw [numbered, List.map_cons]
      rw [← hsplit] at hrest ⊢
      refine Scans.step (byteLen_pos '$' _) ?_ hrest
      rw [hsplit, scanStep_dollar, htag, hnumber, hrange]
  | @char c cs ps hopen hnumber rest ih =>
      have hrest := ih (before ++ [c]) acc
      rw [List.append_assoc, List.length_append] at hrest
      rw [numbered]
      exact Scans.step (byteLen_pos c []) (scanStep_char hopen hnumber before acc) hrest

end NzRust.Sql
