import NzRust.Row.Lazy
import NzRust.Types.Formatting

/-!
# Text export

The tab-separated text of a query result, from the buffered writer and from the
streaming sink. A writer is the bytes that it was given; a cell is escaped
while it is copied, in pieces between the characters that an escape replaces.
-/

namespace NzRust.TextExport

open Checked Sql Formatting

variable {N : Numerics} (ops : NumberOps N)

/-! ## Cells -/

def escapeChar (c : Char) : Text :=
  if c = '\t' then ['\\', 't']
  else if c = '\r' then ['\\', 'r']
  else if c = '\n' then ['\\', 'n']
  else if c = '\\' then ['\\', '\\']
  else [c]

def escapeCell (value : Text) : Text :=
  value.flatMap escapeChar

def renderValue (value : NzValue N) : Exec NzError Text := do
  let text ← toDisplayString value
  return escapeCell text

/-- What is written for a byte instead of it. -/
def replacement (byte : UInt8) : Option Bytes :=
  if byte = ascii '\t' then some [ascii '\\', ascii 't']
  else if byte = ascii '\r' then some [ascii '\\', ascii 'r']
  else if byte = ascii '\n' then some [ascii '\\', ascii 'n']
  else if byte = ascii '\\' then some [ascii '\\', ascii '\\']
  else none

/-- The loop of `write_escaped`, with the bytes from `index` on; those from `start` on are not
written yet. -/
def escapedLoop (value : Bytes) : Nat → Nat → Bytes → Bytes → Exec NzError Bytes
  | start, _, out, [] => do
      let piece ← slice value start value.length
      return out ++ piece
  | start, i, out, byte :: bytes =>
      match replacement byte with
      | none => escapedLoop value start (i + 1) out bytes
      | some escape => do
          let piece ← slice value start i
          escapedLoop value (i + 1) (i + 1) (out ++ piece ++ escape) bytes

def writeEscaped (out : Bytes) (value : Text) : Exec NzError Bytes :=
  escapedLoop (toUtf8 value) 0 0 out (toUtf8 value)

/-- `write!` of a text. -/
def writeText (out : Bytes) (text : Text) : Bytes :=
  out ++ toUtf8 text

/-- `{byte:02x}`. -/
def lowerHex (byte : UInt8) : Text :=
  (Nat.toDigits 16 byte.toNat).leftpad 2 '0'

def writeCell (out : Bytes) : NzValue N → Exec NzError Bytes
  | .null => .ok (writeText out "NULL".toList)
  | .bool value => .ok (writeText out (displayBool value))
  | .int2 value => .ok (writeText out (displayInt value.toInt))
  | .int4 value => .ok (writeText out (displayInt value.toInt))
  | .int8 value => .ok (writeText out (displayInt value.toInt))
  | .float4 value => .ok (writeText out (N.displayF64 (N.f32ToF64 value)))
  | .float8 value => .ok (writeText out (N.displayF64 value))
  | .decimal value => .ok (writeText out (N.displayDecimal value))
  | .numeric text | .text text | .date text | .time text | .timetz text | .timestamp text
  | .interval text => writeEscaped out text
  | .bytea bytes => .ok (bytes.foldl (fun out byte => writeText out (lowerHex byte))
      (writeText out "0x".toList))

/-! ## Rows -/

/-- A row with its values, or one over a payload that is decoded when it is read. -/
inductive Row (N : Numerics) where
  | eager (columns : List ColumnDesc) (values : List (NzValue N))
  | raw (row : RawRow N)

namespace Row

def columns : Row N → List ColumnDesc
  | eager columns _ => columns
  | raw row => row.columns

def tryGetValue (row : Row N) (i : Nat) : Exec NzError (NzValue N) × Row N :=
  match row with
  | eager columns values =>
      (if columns.length ≤ i then fail (.config s!"row index out of range: ordinal {i}")
        else orFail (.config "row values do not match columns") values[i]?, row)
  | raw row =>
      let result := row.tryGetValue ops i
      (result.1, raw result.2)

def tryValues (row : Row N) : Exec NzError (List (NzValue N)) × Row N :=
  match row with
  | eager _ values => (.ok values, row)
  | raw row =>
      let result := row.tryValues ops
      (result.1, raw result.2)

end Row

/-- The separator in front of all items but the first. -/
def separator (index : Nat) : Text :=
  if index ≠ 0 then ['\t'] else []

/-- Items one after the other, the first of them at `index`. -/
def writeTabbed {α : Type} (write : Bytes → α → Exec NzError Bytes) :
    Nat → List α → Bytes → Exec NzError Bytes
  | _, [], out => .ok out
  | index, item :: items, out => do
      let out ← write (writeText out (separator index)) item
      writeTabbed write (index + 1) items out

/-- The cells of a row from `index` on, `count` of them. -/
def writeRowCells : Nat → Nat → Row N → Bytes → Exec NzError Bytes
  | 0, _, _, out => .ok out
  | count + 1, index, row, out => do
      let out := writeText out (separator index)
      let result := row.tryGetValue ops index
      let value ← result.1
      let out ← writeCell out value
      writeRowCells count (index + 1) result.2 out

def writeRow (row : Row N) (out : Bytes) : Exec NzError Bytes := do
  let out ← writeRowCells ops row.columns.length 0 row out
  return writeText out ['\n']

def writeHeader (includeHeader : Bool) (columns : List ColumnDesc) (out : Bytes) :
    Exec NzError Bytes :=
  if includeHeader ∧ columns ≠ [] then do
    let out ← writeTabbed (fun out (column : ColumnDesc) => writeEscaped out column.name) 0 columns out
    return writeText out ['\n']
  else .ok out

def writeNotice (out : Bytes) (notice : Text) : Exec NzError Bytes := do
  let out ← writeEscaped (writeText out "# ".toList) notice
  return writeText out ['\n']

/-! ## The buffered writer -/

structure ResultSet (N : Numerics) where
  columns : List ColumnDesc
  rows : List (Row N)

structure QueryResult (N : Numerics) where
  resultSets : List (ResultSet N)
  notices : List Text

def banner (index rows : Nat) : Text :=
  "# result set ".toList ++ (Nat.toDigits 10 (index + 1) ++
    (" (".toList ++ (Nat.toDigits 10 rows ++ " rows)".toList)))

def writeSet (includeHeader : Bool) (index : Nat) (set : ResultSet N) (out : Bytes) :
    Exec NzError Bytes := do
  let out := writeText out (banner index set.rows.length ++ ['\n'])
  let out ← writeHeader includeHeader set.columns out
  set.rows.foldlM (fun out row => writeRow ops row out) out

def writeSets (includeHeader : Bool) : Nat → List (ResultSet N) → Bytes → Exec NzError Bytes
  | _, [], out => .ok out
  | index, set :: sets, out => do
      let out ← writeSet ops includeHeader index set out
      writeSets includeHeader (index + 1) sets out

def writeResultToTxt (out : Bytes) (result : QueryResult N) (includeHeader : Bool) :
    Exec NzError Bytes := do
  let out ← writeSets ops includeHeader 0 result.resultSets out
  if result.notices = [] then return out
  else result.notices.foldlM writeNotice (writeText out "# notices\n".toList)

/-! ## The streaming sink -/

structure TextExportSink where
  writer : Bytes
  includeHeader : Bool

namespace TextExportSink

/-- A callback that only writes. -/
def writing (sink : TextExportSink) (written : Exec NzError Bytes) : Exec NzError TextExportSink := do
  let out ← written
  return { sink with writer := out }

def onColumns (sink : TextExportSink) (index : Nat) (columns : List ColumnDesc) :
    Exec NzError TextExportSink :=
  sink.writing (writeHeader sink.includeHeader columns
    (writeText sink.writer ("# result set ".toList ++ (Nat.toDigits 10 (index + 1) ++ ['\n']))))

def onValues (sink : TextExportSink) (values : List (NzValue N)) : Exec NzError TextExportSink :=
  sink.writing (do
    let out ← writeTabbed writeCell 0 values sink.writer
    return writeText out ['\n'])

def onRow (sink : TextExportSink) (row : Row N) : Exec NzError TextExportSink := do
  let values ← (row.tryValues ops).1
  sink.onValues values

def onNotice (sink : TextExportSink) (message : Text) : Exec NzError TextExportSink :=
  sink.writing (writeNotice sink.writer message)

end TextExportSink

/-! ## Escapes -/

/-- The inverse of `escape_cell`. -/
def unescape : Text → Option Text
  | [] => some []
  | [c] => if c = '\\' then none else some [c]
  | c :: d :: cs =>
      if c = '\\' then
        if d = 't' then (unescape cs).map ('\t' :: ·)
        else if d = 'r' then (unescape cs).map ('\r' :: ·)
        else if d = 'n' then (unescape cs).map ('\n' :: ·)
        else if d = '\\' then (unescape cs).map ('\\' :: ·)
        else none
      else (unescape (d :: cs)).map (c :: ·)

theorem unescape_char (c : Char) (rest : Text) :
    unescape (escapeChar c ++ rest) = (unescape rest).map (c :: ·) := by
  rw [escapeChar]
  split_ifs with htab hreturn hnewline hslash
  · subst htab
    rfl
  · subst hreturn
    rfl
  · subst hnewline
    rfl
  · subst hslash
    rfl
  · cases rest with
    | nil => simp [unescape, hslash]
    | cons d ds => simp [unescape, hslash]

/-- No two texts are escaped to the same one. -/
theorem unescape_escapeCell (s : Text) : unescape (escapeCell s) = some s := by
  induction s with
  | nil => rfl
  | cons c cs ih =>
      rw [escapeCell, List.flatMap_cons, unescape_char, ← escapeCell, ih]
      rfl

/-- A character that is written as it is. -/
def Plain (c : Char) : Prop :=
  c ≠ '\t' ∧ c ≠ '\r' ∧ c ≠ '\n' ∧ c ≠ '\\'

theorem escapeChar_plain {c : Char} (h : Plain c) : escapeChar c = [c] := by
  rw [escapeChar, if_neg h.1, if_neg h.2.1, if_neg h.2.2.1, if_neg h.2.2.2]

theorem escapeCell_plain {text : Text} (h : ∀ c ∈ text, Plain c) : escapeCell text = text := by
  induction text with
  | nil => rfl
  | cons c cs ih =>
      rw [escapeCell, List.flatMap_cons, escapeChar_plain (h c List.mem_cons_self), ← escapeCell,
        ih fun d hd => h d (List.mem_cons_of_mem c hd), List.singleton_append]

/-- An escaped text holds neither a separator nor a line break. -/
theorem mem_escapeCell {text : Text} {c : Char} (h : c ∈ escapeCell text) :
    c ≠ '\t' ∧ c ≠ '\r' ∧ c ≠ '\n' := by
  obtain ⟨d, -, hc⟩ := List.mem_flatMap.mp h
  rw [escapeChar] at hc
  split_ifs at hc with htab hreturn hnewline hslash
  · rcases List.mem_pair.mp hc with rfl | rfl <;> decide
  · rcases List.mem_pair.mp hc with rfl | rfl <;> decide
  · rcases List.mem_pair.mp hc with rfl | rfl <;> decide
  · rcases List.mem_pair.mp hc with rfl | rfl <;> decide
  · obtain rfl := List.mem_singleton.mp hc
    exact ⟨htab, hreturn, hnewline⟩

/-! ## Escaped bytes -/

def escapeByte (byte : UInt8) : Bytes :=
  (replacement byte).getD [byte]

theorem escapeByte_plain {bytes : Bytes} (h : ∀ b ∈ bytes, replacement b = none) :
    bytes.flatMap escapeByte = bytes := by
  induction bytes with
  | nil => rfl
  | cons b bytes ih =>
      rw [List.flatMap_cons, ih fun d hd => h d (List.mem_cons_of_mem b hd), escapeByte,
        h b List.mem_cons_self, Option.getD_none, List.singleton_append]

theorem replacement_none {b : UInt8} (h : b ≠ ascii '\t' ∧ b ≠ ascii '\r' ∧ b ≠ ascii '\n' ∧
    b ≠ ascii '\\') : replacement b = none := by
  rw [replacement, if_neg h.1, if_neg h.2.1, if_neg h.2.2.1, if_neg h.2.2.2]

/-- The bytes of a character are escaped as the character is. -/
theorem escapeByte_char (c : Char) :
    (String.utf8EncodeChar c).flatMap escapeByte = toUtf8 (escapeChar c) := by
  rw [escapeChar]
  split_ifs with htab hreturn hnewline hslash
  · subst htab
    rfl
  · subst hreturn
    rfl
  · subst hnewline
    rfl
  · subst hslash
    rfl
  · rw [toUtf8_cons, toUtf8_nil, List.append_nil]
    apply escapeByte_plain
    intro b hb
    apply replacement_none
    by_cases hc : c.toNat < 128
    · rw [Sql.encode_ascii hc, List.mem_singleton] at hb
      subst hb
      rw [Ne, Ne, Ne, Ne, ascii_inj hc (by decide), ascii_inj hc (by decide),
        ascii_inj hc (by decide), ascii_inj hc (by decide)]
      exact ⟨htab, hreturn, hnewline, hslash⟩
    · have hwide := encode_wide (Nat.not_lt.mp hc) b hb
      exact ⟨wide_ne_ascii hwide (by decide), wide_ne_ascii hwide (by decide),
        wide_ne_ascii hwide (by decide), wide_ne_ascii hwide (by decide)⟩

theorem escapeByte_text (text : Text) :
    (toUtf8 text).flatMap escapeByte = toUtf8 (escapeCell text) := by
  induction text with
  | nil => rfl
  | cons c cs ih =>
      rw [toUtf8_cons, List.flatMap_append, escapeByte_char, ih, ← toUtf8_append]
      rfl

theorem slice_mid (front inner rest : Bytes) :
    (slice (front ++ (inner ++ rest)) front.length (front.length + inner.length) :
      Exec NzError Bytes) = .ok inner := by
  rw [slice_eq (Nat.le_add_right _ _) (by simp), List.drop_left, Nat.add_sub_cancel_left,
    List.take_left]

/-- What is not written yet holds no byte to replace. -/
theorem escapedLoop_eq (front pending rest out : Bytes)
    (h : ∀ b ∈ pending, replacement b = none) :
    escapedLoop (front ++ (pending ++ rest)) front.length (front.length + pending.length) out rest =
      .ok (out ++ (pending ++ rest.flatMap escapeByte)) := by
  induction rest generalizing front pending out with
  | nil =>
      have hslice := slice_mid front pending []
      rw [← List.length_append, List.append_nil] at hslice
      rw [escapedLoop, List.append_nil, hslice, ok_bind, List.flatMap_nil, List.append_nil]
      rfl
  | cons b rest ih =>
      rw [escapedLoop, List.flatMap_cons, escapeByte]
      cases hb : replacement b with
      | none =>
          have hpending : ∀ d ∈ pending ++ [b], replacement d = none := by
            intro d hd
            rcases List.mem_append.mp hd with hd | hd
            · exact h d hd
            · rwa [List.mem_singleton.mp hd]
          have hstep := ih front (pending ++ [b]) out hpending
          rw [List.append_assoc, List.singleton_append, List.length_append, List.length_singleton,
            List.append_assoc, List.singleton_append, ← Nat.add_assoc] at hstep
          exact hstep
      | some escape =>
          have hstep := ih (front ++ pending ++ [b]) [] (out ++ pending ++ escape) nofun
          have hlen : (front ++ pending ++ [b]).length = front.length + pending.length + 1 := by
            rw [List.length_append, List.length_append, List.length_singleton]
          rw [hlen, List.length_nil, Nat.add_zero, List.nil_append, List.nil_append] at hstep
          have hvalue : front ++ pending ++ [b] ++ rest = front ++ (pending ++ b :: rest) := by simp
          rw [hvalue] at hstep
          dsimp only
          rw [slice_mid, ok_bind, hstep, Option.getD_some]
          simp

theorem writeEscaped_eq (out : Bytes) (value : Text) :
    writeEscaped out value = .ok (out ++ toUtf8 (escapeCell value)) := by
  have hloop := escapedLoop_eq [] [] (toUtf8 value) out nofun
  rw [escapeByte_text] at hloop
  exact hloop

/-! ## Both ways to write a value -/

/-- Numbers are printed in letters, digits, signs and points. -/
structure PrintsPlainly (N : Numerics) : Prop where
  float : ∀ x, ∀ c ∈ N.displayF64 x, c.isAlphanum = true ∨ c = '-' ∨ c = '.'
  decimal : ∀ x, ∀ c ∈ N.displayDecimal x, c.isAlphanum = true ∨ c = '-' ∨ c = '.'

theorem plain_of_printed {c : Char} (h : c.isAlphanum = true ∨ c = '-' ∨ c = '.') : Plain c := by
  refine ⟨?_, ?_, ?_, ?_⟩ <;> rintro rfl <;> revert h <;> decide

theorem digit_plain {c : Char} (h : c.isDigit = true) : Plain c :=
  plain_of_printed (.inl (by simp [Char.isAlphanum, h]))

theorem displayInt_plain (i : Int) : ∀ c ∈ displayInt i, Plain c := by
  intro c hc
  cases i with
  | ofNat n => exact digit_plain ((spells_toDigits n).digits c hc)
  | negSucc n =>
      rcases List.mem_cons.mp hc with rfl | hc
      · exact plain_of_printed (.inr (.inl rfl))
      · exact digit_plain ((spells_toDigits (n + 1)).digits c hc)

theorem alphanum_plain {text : Text} (h : text.all Char.isAlphanum = true) :
    ∀ c ∈ text, Plain c :=
  fun c hc => plain_of_printed (.inl (List.all_eq_true.mp h c hc))

theorem lowerHex_eq (byte : UInt8) : lowerHex byte = hexText [byte] := by
  have hbyte : byte.toNat < 256 := byte.toNat_lt
  have hpair : lowerHex byte =
      [Nat.digitChar (byte.toNat / 16), Nat.digitChar (byte.toNat % 16)] := by
    rw [lowerHex]
    rcases Nat.lt_or_ge byte.toNat 16 with hsmall | hlarge
    · rw [Nat.toDigits_of_lt_base hsmall, Nat.div_eq_of_lt hsmall, Nat.mod_eq_of_lt hsmall]
      rfl
    · rw [Nat.toDigits_of_base_le (by decide) hlarge, Nat.toDigits_of_lt_base (by omega)]
      rfl
  exact hpair

theorem hexText_plain (bytes : Bytes) : ∀ c ∈ hexText bytes, Plain c := by
  intro c hc
  obtain ⟨b, -, hc⟩ := List.mem_flatMap.mp hc
  have hdigit : ∀ n < 16, (Nat.digitChar n).isAlphanum = true := by decide
  have hb : b.toNat < 256 := b.toNat_lt
  rcases List.mem_pair.mp hc with rfl | rfl
  · exact plain_of_printed (.inl (hdigit _ (by omega)))
  · exact plain_of_printed (.inl (hdigit _ (by omega)))

theorem writeText_append (out : Bytes) (t u : Text) :
    writeText (writeText out t) u = writeText out (t ++ u) := by
  rw [writeText, writeText, writeText, toUtf8_append, List.append_assoc]

theorem writeText_foldl (bytes : Bytes) (out : Bytes) (text : Text) :
    bytes.foldl (fun out byte => writeText out (lowerHex byte)) (writeText out text) =
      writeText out (text ++ hexText bytes) := by
  induction bytes generalizing text with
  | nil => rw [List.foldl_nil, hexText, List.flatMap_nil, List.append_nil]
  | cons b bytes ih =>
      rw [List.foldl_cons, writeText_append, ih, lowerHex_eq, List.append_assoc]
      rfl

/-- The cell as it is written. -/
def cellText (v : NzValue N) : Text :=
  escapeCell (displayText v)

theorem renderValue_eq (v : NzValue N) : renderValue v = .ok (cellText v) := by
  rw [renderValue, toDisplayString_eq]
  rfl

theorem cellText_plain {v : NzValue N} (h : ∀ c ∈ displayText v, Plain c) :
    cellText v = displayText v :=
  escapeCell_plain h

theorem writeCell_eq (hplain : PrintsPlainly N) (out : Bytes) (v : NzValue N) :
    writeCell out v = .ok (writeText out (cellText v)) := by
  have hraw (h : ∀ c ∈ displayText v, Plain c) :
      (.ok (writeText out (displayText v)) : Exec NzError Bytes) =
        .ok (writeText out (cellText v)) := by
    rw [cellText_plain h]
  cases v with
  | null => exact hraw (alphanum_plain rfl)
  | bool value => cases value <;> exact hraw (alphanum_plain rfl)
  | int2 value => exact hraw (displayInt_plain _)
  | int4 value => exact hraw (displayInt_plain _)
  | int8 value => exact hraw (displayInt_plain _)
  | float4 value => exact hraw fun c hc => plain_of_printed (hplain.float _ c hc)
  | float8 value => exact hraw fun c hc => plain_of_printed (hplain.float _ c hc)
  | decimal value => exact hraw fun c hc => plain_of_printed (hplain.decimal _ c hc)
  | bytea bytes =>
      rw [writeCell, writeText_foldl]
      refine hraw fun c hc => ?_
      rcases List.mem_append.mp hc with hc | hc
      · exact alphanum_plain rfl c hc
      · exact hexText_plain bytes c hc
  | numeric text => exact writeEscaped_eq out text
  | text text => exact writeEscaped_eq out text
  | date text => exact writeEscaped_eq out text
  | time text => exact writeEscaped_eq out text
  | timetz text => exact writeEscaped_eq out text
  | timestamp text => exact writeEscaped_eq out text
  | interval text => exact writeEscaped_eq out text

/-! ## Lines -/

/-- Items with separators, the first of them at `index`. -/
def tabbedFrom : Nat → List Text → Text
  | _, [] => []
  | index, item :: items => separator index ++ (item ++ tabbedFrom (index + 1) items)

/-- The line of a row without its end. -/
def rowLine (vs : List (NzValue N)) : Text :=
  tabbedFrom 0 (vs.map cellText)

/-- Lines, each with its end. -/
def asLines (lines : List Text) : Text :=
  lines.flatMap (· ++ ['\n'])

theorem writeTabbed_eq {α : Type} {write : Bytes → α → Exec NzError Bytes} {f : α → Text}
    (hwrite : ∀ out item, write out item = .ok (writeText out (f item))) (index : Nat)
    (items : List α) (out : Bytes) :
    writeTabbed write index items out = .ok (writeText out (tabbedFrom index (items.map f))) := by
  induction items generalizing index out with
  | nil => rw [writeTabbed, List.map_nil, tabbedFrom, writeText, toUtf8_nil, List.append_nil]
  | cons item items ih =>
      rw [writeTabbed, hwrite, ok_bind, ih, writeText_append, writeText_append, List.map_cons,
        tabbedFrom]

/-- The items come back when the line is split at its separators. -/
theorem split_tabbed {item : Text} {items : List Text}
    (h : ∀ text ∈ item :: items, '\t' ∉ text) :
    splitAt '\t' (tabbedFrom 0 (item :: items)) = item :: items := by
  have hplain {text : Text} (htext : text ∈ item :: items) : ∀ c ∈ text, (c == '\t') = false := by
    intro c hc
    rw [beq_eq_false_iff_ne]
    rintro rfl
    exact h text htext hc
  have hrest : ∀ (index : Nat) (front : Text) (rest : List Text), front ∈ item :: items →
      (∀ text ∈ rest, text ∈ item :: items) →
      splitAt '\t' (front ++ tabbedFrom (index + 1) rest) = front :: rest := by
    intro index front rest hfront hmem
    induction rest generalizing index front with
    | nil =>
        rw [tabbedFrom, List.append_nil]
        exact splitWhere_eq_singleton (hplain hfront)
    | cons text rest ih =>
        have htail := ih (index + 1) text (hmem text List.mem_cons_self)
          fun u hu => hmem u (List.mem_cons_of_mem text hu)
        rw [splitAt] at htail ⊢
        rw [tabbedFrom, separator, if_pos (Nat.succ_ne_zero index), List.singleton_append,
          splitWhere_append (hplain hfront) (beq_self_eq_true _), htail]
  rw [tabbedFrom]
  exact hrest 0 item items List.mem_cons_self fun u hu => List.mem_cons_of_mem item hu

theorem split_lines {lines : List Text} (h : ∀ line ∈ lines, '\n' ∉ line) :
    splitAt '\n' (asLines lines) = lines ++ [[]] := by
  induction lines with
  | nil => rfl
  | cons line lines ih =>
      have hline : ∀ c ∈ line, (c == '\n') = false := by
        intro c hc
        rw [beq_eq_false_iff_ne]
        rintro rfl
        exact h line List.mem_cons_self hc
      have htail := ih fun u hu => h u (List.mem_cons_of_mem line hu)
      rw [splitAt] at htail ⊢
      rw [asLines, List.flatMap_cons, List.append_assoc, List.singleton_append,
        splitWhere_append hline (beq_self_eq_true _), ← asLines, htail, List.cons_append]

theorem mem_tabbedFrom {index : Nat} {items : List Text} {c : Char}
    (hc : c ∈ tabbedFrom index items) : c = '\t' ∨ ∃ item ∈ items, c ∈ item := by
  induction items generalizing index with
  | nil => cases hc
  | cons item items ih =>
      rw [tabbedFrom] at hc
      rcases List.mem_append.mp hc with hc | hc
      · rw [separator] at hc
        split_ifs at hc
        · exact .inl (List.mem_singleton.mp hc)
        · cases hc
      rcases List.mem_append.mp hc with hc | hc
      · exact .inr ⟨item, List.mem_cons_self, hc⟩
      · rcases ih hc with rfl | ⟨u, hu, hcu⟩
        · exact .inl rfl
        · exact .inr ⟨u, List.mem_cons_of_mem item hu, hcu⟩

/-- A line of escaped cells holds no line break. -/
theorem tabbed_escaped (texts : List Text) : '\n' ∉ tabbedFrom 0 (texts.map escapeCell) := by
  intro hmem
  rcases mem_tabbedFrom hmem with h | ⟨item, hitem, hc⟩
  · cases h
  · obtain ⟨text, -, rfl⟩ := List.mem_map.mp hitem
    exact (mem_escapeCell hc).2.2 rfl

/-! ## Rows that hold values -/

namespace Row

def answer (row : Row N) : RawRow.Access → RawRow.Answer N × Row N
  | .get i =>
      let result := row.tryGetValue ops i
      (.value result.1, result.2)
  | .all =>
      let result := row.tryValues ops
      (.values result.1, result.2)

def answers (row : Row N) : List RawRow.Access → List (RawRow.Answer N)
  | [] => []
  | access :: rest =>
      let result := row.answer ops access
      result.1 :: result.2.answers rest

/-- Whatever is asked of the row, and how often, it answers with the values `vs`. -/
def Answers (row : Row N) (vs : List (NzValue N)) : Prop :=
  ∀ accesses, row.answers ops accesses = accesses.map (RawRow.expected vs)

variable {ops} {row : Row N} {vs : List (NzValue N)}

theorem Answers.step (h : row.Answers ops vs) (access : RawRow.Access) :
    (row.answer ops access).1 = RawRow.expected vs access ∧
      (row.answer ops access).2.Answers ops vs := by
  refine ⟨(List.cons.inj (h [access])).1, fun rest => ?_⟩
  exact (List.cons.inj (h (access :: rest))).2

theorem Answers.get (h : row.Answers ops vs) {i : Nat} {v : NzValue N} (hv : vs[i]? = some v) :
    (row.tryGetValue ops i).1 = .ok v ∧ (row.tryGetValue ops i).2.Answers ops vs := by
  obtain ⟨hanswer, hnext⟩ := h.step (.get i)
  rw [RawRow.expected, hv] at hanswer
  exact ⟨RawRow.Answer.value.inj hanswer, hnext⟩

theorem Answers.all (h : row.Answers ops vs) : (row.tryValues ops).1 = .ok vs :=
  RawRow.Answer.values.inj (h.step .all).1

/-- A row made of as many values as columns. -/
theorem eager_answers {columns : List ColumnDesc} (hlen : columns.length = vs.length) :
    (eager columns vs).Answers ops vs := by
  intro accesses
  induction accesses with
  | nil => rfl
  | cons access rest ih =>
      rw [answers, List.map_cons]
      congr 1
      · cases access with
        | all => rfl
        | get i =>
            rw [answer, tryGetValue, RawRow.expected]
            dsimp only
            by_cases hi : columns.length ≤ i
            · rw [if_pos hi, List.getElem?_eq_none (hlen ▸ hi)]
            · rw [if_neg hi, List.getElem?_eq_getElem (by omega), orFail]
      · cases access <;> exact ih

/-- A row over a payload that decodes. -/
theorem raw_answers {raw : RawRow N}
    (h : ∀ accesses, raw.answers ops accesses = accesses.map (RawRow.expected vs)) :
    (Row.raw raw).Answers ops vs := by
  have hsame : ∀ (accesses : List RawRow.Access) (raw : RawRow N),
      (Row.raw raw).answers ops accesses = raw.answers ops accesses := by
    intro accesses
    induction accesses with
    | nil => exact fun _ => rfl
    | cons access rest ih =>
        intro raw
        cases access <;> exact congrArg _ (ih _)
  exact fun accesses => (hsame accesses raw).trans (h accesses)

end Row

/-- The row decodes, to one value for each of its columns. -/
structure Row.Decodes (ops : NumberOps N) (row : Row N) (vs : List (NzValue N)) : Prop where
  width : row.columns.length = vs.length
  answers : row.Answers ops vs

/-- A text row of the wire that the eager parser accepts is such a row. -/
theorem text_row_decodes {columns : List ColumnDesc} {payload : Bytes} {vs : List (NzValue N)}
    (hsmall : payload.length < 2 ^ 32)
    (h : TextRow.parseTextDataRow ops payload columns = .ok vs) :
    ∃ raw : RawRow N, RawRow.fromTextRaw columns payload = .ok raw ∧
      (Row.raw raw).Decodes ops vs := by
  obtain ⟨raw, hraw, -, hfaithful⟩ := RawRow.fromTextRaw_of_parseTextDataRow hsmall h
  exact ⟨raw, hraw, hfaithful.ready.columns_length,
    Row.raw_answers (RawRow.answers_faithful hfaithful)⟩

section Writing

variable {ops} (hplain : PrintsPlainly N)
include hplain

theorem writeRowCells_eq {row : Row N} {vs : List (NzValue N)} (h : row.Answers ops vs)
    {count index : Nat} (hcount : index + count = vs.length) (out : Bytes) :
    writeRowCells ops count index row out =
      .ok (writeText out (tabbedFrom index ((vs.drop index).map cellText))) := by
  induction count generalizing index row out with
  | zero =>
      rw [List.drop_eq_nil_of_le (by omega), writeRowCells, List.map_nil, tabbedFrom, writeText,
        toUtf8_nil, List.append_nil]
  | succ count ih =>
      have hindex : index < vs.length := by omega
      obtain ⟨hget, hnext⟩ := h.get (List.getElem?_eq_getElem hindex)
      rw [writeRowCells, List.drop_eq_getElem_cons hindex, List.map_cons, tabbedFrom, hget, ok_bind,
        writeCell_eq hplain, ok_bind, ih hnext (by omega), writeText_append,
        writeText_append]

theorem writeRow_eq {row : Row N} {vs : List (NzValue N)} (h : row.Decodes ops vs) (out : Bytes) :
    writeRow ops row out = .ok (writeText out (rowLine vs ++ ['\n'])) := by
  rw [writeRow, writeRowCells_eq hplain h.answers (by rw [Nat.zero_add, h.width]), ok_bind,
    ← writeText_append, rowLine, List.drop_zero]
  rfl

theorem onValues_eq (sink : TextExportSink) (vs : List (NzValue N)) :
    sink.onValues vs = .ok { sink with writer := writeText sink.writer (rowLine vs ++ ['\n']) } := by
  rw [TextExportSink.onValues, writeTabbed_eq (writeCell_eq hplain), ok_bind, ← writeText_append]
  rfl

theorem onRow_eq {row : Row N} {vs : List (NzValue N)} (h : row.Decodes ops vs)
    (sink : TextExportSink) :
    sink.onRow ops row =
      .ok { sink with writer := writeText sink.writer (rowLine vs ++ ['\n']) } := by
  rw [TextExportSink.onRow, h.answers.all, ok_bind, onValues_eq hplain]

end Writing

/-! ## The whole result -/

/-- A result set as its values. -/
structure Table (N : Numerics) where
  columns : List ColumnDesc
  rows : List (List (NzValue N))

structure ResultSet.Holds (ops : NumberOps N) (set : ResultSet N) (table : Table N) : Prop where
  columns : set.columns = table.columns
  rows : List.Forall₂ (Row.Decodes ops) set.rows table.rows

def headerLines (includeHeader : Bool) (columns : List ColumnDesc) : List Text :=
  if includeHeader ∧ columns ≠ [] then
    [tabbedFrom 0 (columns.map fun column => escapeCell column.name)]
  else []

def tableLines (includeHeader : Bool) (index : Nat) (table : Table N) : List Text :=
  banner index table.rows.length ::
    (headerLines includeHeader table.columns ++ table.rows.map rowLine)

def tablesLines (includeHeader : Bool) : Nat → List (Table N) → List Text
  | _, [] => []
  | index, table :: tables =>
      tableLines includeHeader index table ++ tablesLines includeHeader (index + 1) tables

def noticeLine (notice : Text) : Text :=
  "# ".toList ++ escapeCell notice

def noticeLines (notices : List Text) : List Text :=
  if notices = [] then [] else "# notices".toList :: notices.map noticeLine

theorem asLines_append (a b : List Text) : asLines (a ++ b) = asLines a ++ asLines b :=
  List.flatMap_append

theorem asLines_cons (line : Text) (lines : List Text) :
    asLines (line :: lines) = line ++ ['\n'] ++ asLines lines :=
  List.flatMap_cons

theorem writeText_nil (out : Bytes) : writeText out [] = out := by
  rw [writeText, toUtf8_nil, List.append_nil]

theorem writeHeader_eq (includeHeader : Bool) (columns : List ColumnDesc) (out : Bytes) :
    writeHeader includeHeader columns out =
      .ok (writeText out (asLines (headerLines includeHeader columns))) := by
  rw [writeHeader, headerLines]
  split_ifs
  · rw [writeTabbed_eq fun out (column : ColumnDesc) => writeEscaped_eq out column.name, ok_bind,
      asLines, List.flatMap_singleton, ← writeText_append]
    rfl
  · exact congrArg Except.ok (writeText_nil out).symm

theorem writeNotice_eq (out : Bytes) (notice : Text) :
    writeNotice out notice = .ok (writeText out (noticeLine notice ++ ['\n'])) := by
  rw [writeNotice, writeEscaped_eq, ok_bind, noticeLine, ← writeText_append, ← writeText_append]
  rfl

theorem writeNotices_eq (notices : List Text) (out : Bytes) :
    notices.foldlM writeNotice out =
      .ok (writeText out (asLines (notices.map noticeLine))) := by
  induction notices generalizing out with
  | nil => exact congrArg Except.ok (writeText_nil out).symm
  | cons notice notices ih =>
      rw [List.foldlM_cons, writeNotice_eq, ok_bind, ih, writeText_append, List.map_cons, asLines_cons]

theorem writeRows_eq {ops : NumberOps N} (hplain : PrintsPlainly N) {rows : List (Row N)}
    {values : List (List (NzValue N))} (h : List.Forall₂ (Row.Decodes ops) rows values)
    (out : Bytes) :
    rows.foldlM (fun out row => writeRow ops row out) out =
      .ok (writeText out (asLines (values.map rowLine))) := by
  induction h generalizing out with
  | nil => exact congrArg Except.ok (writeText_nil out).symm
  | cons hrow _ ih =>
      rw [List.foldlM_cons, writeRow_eq hplain hrow, ok_bind, ih, writeText_append, List.map_cons,
        asLines_cons]

theorem writeSet_eq {ops : NumberOps N} (hplain : PrintsPlainly N) (includeHeader : Bool)
    (index : Nat) {set : ResultSet N} {table : Table N} (h : set.Holds ops table) (out : Bytes) :
    writeSet ops includeHeader index set out =
      .ok (writeText out (asLines (tableLines includeHeader index table))) := by
  rw [writeSet, writeHeader_eq, ok_bind, writeRows_eq hplain h.rows, writeText_append,
    writeText_append, h.columns, h.rows.length_eq, tableLines, asLines_cons,
    asLines_append, List.append_assoc]

theorem writeSets_eq {ops : NumberOps N} (hplain : PrintsPlainly N) (includeHeader : Bool)
    (index : Nat) {sets : List (ResultSet N)} {tables : List (Table N)}
    (h : List.Forall₂ (ResultSet.Holds ops) sets tables) (out : Bytes) :
    writeSets ops includeHeader index sets out =
      .ok (writeText out (asLines (tablesLines includeHeader index tables))) := by
  induction h generalizing index out with
  | nil => exact congrArg Except.ok (writeText_nil out).symm
  | cons hset _ ih =>
      rw [writeSets, writeSet_eq hplain includeHeader index hset, ok_bind, ih, writeText_append,
        tablesLines, asLines_append]

theorem writeResultToTxt_eq {ops : NumberOps N} (hplain : PrintsPlainly N) (includeHeader : Bool)
    {result : QueryResult N} {tables : List (Table N)}
    (h : List.Forall₂ (ResultSet.Holds ops) result.resultSets tables) (out : Bytes) :
    writeResultToTxt ops out result includeHeader =
      .ok (writeText out
        (asLines (tablesLines includeHeader 0 tables ++ noticeLines result.notices))) := by
  rw [writeResultToTxt, writeSets_eq hplain includeHeader 0 h, ok_bind, asLines_append, noticeLines,
    ← writeText_append]
  split_ifs
  · exact congrArg Except.ok (writeText_nil _).symm
  · rw [writeNotices_eq, writeText_append, asLines_cons]
    rfl

/-! ## No line is broken -/

theorem toDigits_no_break (n : Nat) : '\n' ∉ Nat.toDigits 10 n :=
  (spells_toDigits n).not_mem (by decide)

theorem banner_no_break (index rows : Nat) : '\n' ∉ banner index rows := by
  unfold banner
  simp only [List.mem_append, not_or]
  exact ⟨by decide, toDigits_no_break _, by decide, toDigits_no_break _, by decide⟩

theorem rowLine_eq (vs : List (NzValue N)) :
    rowLine vs = tabbedFrom 0 ((vs.map displayText).map escapeCell) := by
  rw [rowLine, List.map_map]
  rfl

theorem headerLines_no_break {includeHeader : Bool} {columns : List ColumnDesc} {line : Text}
    (h : line ∈ headerLines includeHeader columns) : '\n' ∉ line := by
  rw [headerLines] at h
  split_ifs at h
  · rw [List.mem_singleton.mp h]
    have hnames := tabbed_escaped (columns.map ColumnDesc.name)
    rwa [List.map_map] at hnames
  · cases h

theorem tablesLines_no_break {includeHeader : Bool} {index : Nat} {tables : List (Table N)}
    {line : Text} (h : line ∈ tablesLines includeHeader index tables) : '\n' ∉ line := by
  induction tables generalizing index with
  | nil => cases h
  | cons table tables ih =>
      rcases List.mem_append.mp h with h | h
      · rcases List.mem_cons.mp h with rfl | h
        · exact banner_no_break _ _
        rcases List.mem_append.mp h with h | h
        · exact headerLines_no_break h
        · obtain ⟨vs, -, rfl⟩ := List.mem_map.mp h
          rw [rowLine_eq]
          exact tabbed_escaped _
      · exact ih h

theorem noticeLines_no_break {notices : List Text} {line : Text}
    (h : line ∈ noticeLines notices) : '\n' ∉ line := by
  rw [noticeLines] at h
  split_ifs at h
  · cases h
  · rcases List.mem_cons.mp h with rfl | h
    · decide
    · obtain ⟨notice, -, rfl⟩ := List.mem_map.mp h
      intro hmem
      rcases List.mem_append.mp hmem with hc | hc
      · revert hc
        decide
      · exact (mem_escapeCell hc).2.2 rfl

/-- The cells of a row come back from its line. -/
theorem split_rowLine {vs : List (NzValue N)} (hne : vs ≠ []) :
    splitAt '\t' (rowLine vs) = vs.map cellText := by
  obtain ⟨v, rest, rfl⟩ := List.exists_cons_of_ne_nil hne
  rw [rowLine, List.map_cons]
  apply split_tabbed
  rw [← List.map_cons]
  intro text htext hmem
  obtain ⟨w, -, rfl⟩ := List.mem_map.mp htext
  exact (mem_escapeCell hmem).1 rfl

theorem unescape_cells (vs : List (NzValue N)) :
    List.Forall₂ (fun cell v => ∃ text, unescape cell = some text ∧ toDisplayString v = .ok text)
      (vs.map cellText) vs := by
  rw [List.forall₂_map_left_iff, List.forall₂_same]
  intro v _
  exact ⟨displayText v, unescape_escapeCell _, toDisplayString_eq v⟩

/-- The streaming cell writer writes what `render_value` renders; escapes are undone by
un-escaping; a result is written as its lines, none of them broken, and a row with columns splits
at the separators into its cells, whichever of the two writers wrote it. -/
theorem text_export_lines (ops : NumberOps N) (hplain : PrintsPlainly N) :
    (∀ v : NzValue N, writeCell [] v = (renderValue v).map toUtf8) ∧
    (∀ s, unescape (escapeCell s) = some s) ∧
    (∀ (includeHeader : Bool) (result : QueryResult N) (tables : List (Table N)),
      List.Forall₂ (ResultSet.Holds ops) result.resultSets tables →
      let lines := tablesLines includeHeader 0 tables ++ noticeLines result.notices
      writeResultToTxt ops [] result includeHeader = .ok (toUtf8 (asLines lines)) ∧
        splitAt '\n' (asLines lines) = lines ++ [[]]) ∧
    ∀ (row : Row N) (vs : List (NzValue N)), row.Decodes ops vs →
      (∀ out, writeRow ops row out = .ok (out ++ toUtf8 (rowLine vs ++ ['\n']))) ∧
      (∀ sink : TextExportSink, sink.onRow ops row =
        .ok { sink with writer := sink.writer ++ toUtf8 (rowLine vs ++ ['\n']) }) ∧
      (row.columns ≠ [] →
        (splitAt '\t' (rowLine vs)).length = row.columns.length ∧
        List.Forall₂ (fun cell v => ∃ text, unescape cell = some text ∧
          toDisplayString v = .ok text) (splitAt '\t' (rowLine vs)) vs) := by
  refine ⟨fun v => ?_, unescape_escapeCell, fun includeHeader result tables h => ⟨?_, ?_⟩,
    fun row vs h => ⟨writeRow_eq hplain h, onRow_eq hplain h, fun hne => ?_⟩⟩
  · rw [writeCell_eq hplain, renderValue_eq]
    rfl
  · exact writeResultToTxt_eq hplain includeHeader h []
  · apply split_lines
    intro line hline
    rcases List.mem_append.mp hline with hline | hline
    · exact tablesLines_no_break hline
    · exact noticeLines_no_break hline
  · have hvs : vs ≠ [] := by
      rintro rfl
      exact hne (List.eq_nil_of_length_eq_zero h.width)
    rw [split_rowLine hvs, List.length_map]
    exact ⟨h.width.symm, unescape_cells vs⟩

theorem bitPatterns_print_plainly : PrintsPlainly RawRow.bitPatterns := by
  have hint : ∀ (i : Int), ∀ c ∈ displayInt i, c.isAlphanum = true ∨ c = '-' ∨ c = '.' := by
    intro i c hc
    cases i with
    | ofNat n => exact .inl (by simp [Char.isAlphanum, (spells_toDigits n).digits c hc])
    | negSucc n =>
        rcases List.mem_cons.mp hc with rfl | hc
        · exact .inr (.inl rfl)
        · exact .inl (by simp [Char.isAlphanum, (spells_toDigits (n + 1)).digits c hc])
  exact ⟨fun (x : Nat) => hint x, hint⟩

theorem sample_cell_lines :
    let row : Row RawRow.bitPatterns := .eager [⟨"v".toList, 1043, -1, -1, 0⟩] [.text "a\tb".toList]
    writeRow RawRow.bitOps row [] = .ok (toUtf8 "a\\tb\n".toList) :=
  ((text_export_lines RawRow.bitOps bitPatterns_print_plainly).2.2.2 _ [.text "a\tb".toList]
    ⟨rfl, Row.eager_answers rfl⟩).1 []

/-- The line of a row without columns splits into one empty cell. -/
theorem no_columns_one_cell :
    ¬ ∀ (row : Row RawRow.bitPatterns) (vs : List (NzValue RawRow.bitPatterns)),
      row.Decodes RawRow.bitOps vs → ∃ line,
        writeRow RawRow.bitOps row [] = .ok (toUtf8 (line ++ ['\n'])) ∧
          (splitAt '\t' line).length = row.columns.length := by
  intro h
  obtain ⟨line, hwrite, hlen⟩ := h (.eager [] []) [] ⟨rfl, Row.eager_answers rfl⟩
  have hbytes : toUtf8 ['\n'] = toUtf8 (line ++ ['\n']) := Except.ok.inj hwrite
  have htext := congrArg fromUtf8 hbytes
  rw [fromUtf8_toUtf8, fromUtf8_toUtf8, Option.some_inj] at htext
  have hnil : [] ++ ['\n'] = line ++ ['\n'] := htext
  have hline : line = [] := (List.append_cancel_right hnil).symm
  rw [hline] at hlen
  exact absurd hlen (by decide)

end NzRust.TextExport
