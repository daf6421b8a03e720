import NzRust.Sql.Lexer
import NzRust.Types.Value

/-!
# Client-side parameter substitution

The literals, the `$n` templates and the named and `?` parameters of the
driver. Positions are counted in characters. The pushes onto `result` are kept
apart as `Part`s, so that every piece of an output is known as a copy of the
template or as the literal of a placeholder.
-/

namespace NzRust.Sql

variable {N : Numerics}

/-- Skips an optional sign. -/
def skipSign : Text → Text
  | [] => []
  | c :: cs => if c = '+' ∨ c = '-' then cs else c :: cs

/-- The exponent of a numeric literal, up to the end of the text. -/
def validExponent : Text → Bool
  | [] => true
  | c :: cs =>
      if c = 'e' ∨ c = 'E' then
        !((skipSign cs).takeWhile Char.isDigit).isEmpty &&
          ((skipSign cs).dropWhile Char.isDigit).isEmpty
      else false

def validNumericLiteral (s : Text) : Bool :=
  let whole := (skipSign s).takeWhile Char.isDigit
  let rest := (skipSign s).dropWhile Char.isDigit
  if rest.head? = some '.' then
    let fraction := rest.tail.takeWhile Char.isDigit
    whole.length + fraction.length ≠ 0 && validExponent (rest.tail.dropWhile Char.isDigit)
  else
    whole.length ≠ 0 && validExponent rest

def doubleQuotes : Text → Text
  | [] => []
  | c :: cs => if c = '\'' then c :: c :: doubleQuotes cs else c :: doubleQuotes cs

def appendQuotedText (value : Text) : Text :=
  '\'' :: doubleQuotes value ++ ['\'']

def joinQuoted : List Text → Text
  | [] => []
  | [part] => appendQuotedText part
  | part :: parts => appendQuotedText part ++ " || chr(92) || ".toList ++ joinQuoted parts

def writeTextLiteral (value : Text) : Except String Text :=
  if value.contains '\x00' then .error "SQL parameters cannot contain NUL"
  else if value.contains '\\' then .ok ('(' :: joinQuoted (splitAt '\\' value) ++ [')'])
  else .ok (appendQuotedText value)

def writeFloat (N : Numerics) (number : N.F64) : Except String Text :=
  if N.f64IsFinite number then .ok (N.displayF64 number)
  else .error ("Cannot bind non-finite number: " ++ String.ofList (N.displayF64 number))

/-- `escape_literal`, the text that `write_nz_value_sql` appends. -/
def escapeLiteral : NzValue N → Except String Text
  | .null => .ok "NULL".toList
  | .bool value => .ok (if value then "'t'".toList else "'f'".toList)
  | .int2 value => .ok (displayInt value.toInt)
  | .int4 value => .ok (displayInt value.toInt)
  | .int8 value => .ok (displayInt value.toInt)
  | .float4 value => writeFloat N (N.f32ToF64 value)
  | .float8 value => writeFloat N value
  | .numeric value =>
      if validNumericLiteral value then .ok value else .error "Invalid numeric parameter"
  | .decimal value => .ok (N.displayDecimal value)
  | .text value | .date value | .time value | .timetz value | .timestamp value
  | .interval value => writeTextLiteral value
  | .bytea _ =>
      .error "Binary SQL parameters are unsupported; use an external-table reader"

/-- `str::parse::<usize>` of a run of digits. -/
def parseUsize (digits : Text) : Option Nat :=
  let value := Nat.ofDigitChars 10 digits 0
  if value < 2 ^ 64 then some value else none

/-! ## Numbered placeholders -/

structure SqlPlaceholder where
  start : Nat
  stop : Nat
  index : Nat
  deriving DecidableEq, Repr

structure SqlTemplate where
  source : Text
  placeholders : List SqlPlaceholder
  deriving DecidableEq, Repr

/-- The scan of `SqlTemplate::parse`, at most `fuel` steps from position `i`. -/
def parseLoop : Nat → Nat → Text → List SqlPlaceholder
  | 0, _, _ => []
  | _ + 1, _, [] => []
  | fuel + 1, i, c :: cs =>
      match openedSpan (c :: cs) with
      | some (_, cut) => parseLoop fuel (i + cut.1.length) cut.rest
      | none =>
          match dollarNumber (c :: cs) with
          | some n =>
              ⟨i, i + 1 + n, (parseUsize (cs.take n)).getD 0⟩ ::
                parseLoop fuel (i + 1 + n) (cs.drop n)
          | none => parseLoop fuel (i + 1) cs

def SqlTemplate.parse (sql : Text) : Except String SqlTemplate :=
  if sql.contains '\x00' then .error "SQL cannot contain NUL"
  else .ok ⟨sql, parseLoop sql.length 0 sql⟩

def missingValue (token : Text) : String :=
  "Missing value for SQL parameter '" ++ String.ofList token ++ "'"

/-- The loop of `render` over the placeholders behind position `previous`. -/
def renderLoop (source : Text) (parameterCount : Nat)
    (writeParameter : Nat → Except String Text) :
    List SqlPlaceholder → Nat → Text → List Nat → Except String (Text × List Nat)
  | [], previous, result, used => .ok (result ++ source.drop previous, used)
  | p :: ps, previous, result, used =>
      if p.index = 0 ∨ parameterCount < p.index then
        .error (missingValue ((source.take p.stop).drop p.start))
      else
        match writeParameter (p.index - 1) with
        | .error e => .error e
        | .ok literal =>
            renderLoop source parameterCount writeParameter ps p.stop
              (result ++ (source.take p.start).drop previous ++ literal) ((p.index - 1) :: used)

def SqlTemplate.render (template : SqlTemplate) (parameterCount : Nat)
    (writeParameter : Nat → Except String Text) : Except String Text :=
  match renderLoop template.source parameterCount writeParameter template.placeholders 0 [] [] with
  | .error e => .error e
  | .ok (result, used) =>
      if (List.range parameterCount).any fun k => !used.contains k then
        .error "Unused SQL parameter value"
      else .ok result

def literalAt (params : List (NzValue N)) (index : Nat) : Except String Text :=
  match params[index]? with
  | some value => escapeLiteral value
  | none => .error "index out of bounds"

def substituteParameters (sql : Text) (params : List (NzValue N)) : Except String Text :=
  match SqlTemplate.parse sql with
  | .error e => .error e
  | .ok template => template.render params.length (literalAt params)

/-! ## Named and question-mark placeholders -/

structure NzParameter (N : Numerics) where
  name : Option Text
  value : NzValue N
  positional : Bool

def NzParameter.named (name : Text) (value : NzValue N) : NzParameter N :=
  ⟨some (name.dropWhile fun c => c == ':' || c == '@'), value, false⟩

def NzParameter.ofPosition (value : NzValue N) : NzParameter N :=
  ⟨none, value, true⟩

/-- One piece of a substituted text. -/
inductive Part where
  | copied (region : Region) (text : Text)
  | literal (token text : Text)
  deriving DecidableEq, Repr

def Part.text : Part → Text
  | .copied _ text => text
  | .literal _ text => text

def outputOf (parts : List Part) : Text :=
  parts.flatMap Part.text

/-- What stands at a position of code. -/
inductive Lead where
  | code
  | doubleColon
  | numbered (digits : Nat)
  | named (name : Text)
  | question
  deriving DecidableEq, Repr

/-- The checks of `substitute_bound_parameters` at a position of code, in their order. -/
def leadAt (hasNamed hasPositional : Bool) : Text → Lead
  | [] => .code
  | c :: cs =>
      match (if hasPositional then dollarNumber (c :: cs) else none) with
      | some n => .numbered n
      | none =>
          if hasNamed ∧ c = ':' ∧ cs.head? = some ':' then .doubleColon
          else if hasNamed ∧ (c = ':' ∨ c = '@') ∧ cs.head?.any isIdentifierStart then
            .named (cs.takeWhile isIdentifierPart)
          else if hasPositional ∧ c = '?' then .question
          else .code

def asciiLower (s : Text) : Text :=
  s.map Char.toLower

def eqIgnoreAsciiCase (s t : Text) : Bool :=
  asciiLower s == asciiLower t

def findNamed (params : List (NzParameter N)) (lookup : Text) : Option (NzParameter N) :=
  params.find? fun p => !p.positional && p.name.any (eqIgnoreAsciiCase · lookup)

structure BoundScan where
  result : List Part := []
  usedNames : List Text := []
  usedPositional : List Nat := []
  positionalIndex : Nat := 0

def BoundScan.push (scan : BoundScan) (part : Part) : BoundScan :=
  { scan with result := scan.result ++ [part] }

def BoundScan.pushPositional (scan : BoundScan) (index : Nat) (part : Part) : BoundScan :=
  { scan with result := scan.result ++ [part], usedPositional := index :: scan.usedPositional }

def BoundScan.pushQuestion (scan : BoundScan) (part : Part) : BoundScan :=
  { scan with
    result := scan.result ++ [part]
    usedPositional := (scan.positionalIndex + 1) :: scan.usedPositional
    positionalIndex := scan.positionalIndex + 1 }

def BoundScan.pushNamed (scan : BoundScan) (name : Text) (part : Part) : BoundScan :=
  { scan with result := scan.result ++ [part], usedNames := asciiLower name :: scan.usedNames }

def numberedLiteral (params : List (NzParameter N)) (token : Text) : Except String (Nat × Text) :=
  match parseUsize token.tail with
  | none => .error "Invalid positional parameter"
  | some index =>
      match (if index = 0 then none else params[index - 1]?) with
      | none => .error (missingValue token ++ ".")
      | some param => (escapeLiteral param.value).map fun literal => (index, literal)

def namedLiteral (params : List (NzParameter N)) (token : Text) : Except String Text :=
  match findNamed params token.tail with
  | none => .error (missingValue token ++ ".")
  | some param => escapeLiteral param.value

def questionLiteral (params : List (NzParameter N)) (index : Nat) : Except String Text :=
  match params[index]? with
  | none => .error (missingValue ['?'] ++ ".")
  | some param => escapeLiteral param.value

/-- The scan of `substitute_bound_parameters`, at most `fuel` steps. -/
def boundLoop (params : List (NzParameter N)) (hasNamed hasPositional : Bool) :
    Nat → BoundScan → Text → Except String BoundScan
  | 0, scan, _ => .ok scan
  | _ + 1, scan, [] => .ok scan
  | fuel + 1, scan, c :: cs =>
      match openedSpan (c :: cs) with
      | some (region, cut) =>
          boundLoop params hasNamed hasPositional fuel (scan.push (.copied region cut.1)) cut.rest
      | none =>
          match leadAt hasNamed hasPositional (c :: cs) with
          | .code =>
              boundLoop params hasNamed hasPositional fuel (scan.push (.copied .code [c])) cs
          | .doubleColon =>
              boundLoop params hasNamed hasPositional fuel
                (scan.push (.copied .code [':', ':'])) cs.tail
          | .numbered n =>
              let token := c :: cs.take n
              match numberedLiteral params token with
              | .error e => .error e
              | .ok (index, literal) =>
                  boundLoop params hasNamed hasPositional fuel
                    (scan.pushPositional index (.literal token literal)) (cs.drop n)
          | .named name =>
              let token := c :: name
              match namedLiteral params token with
              | .error e => .error e
              | .ok literal =>
                  boundLoop params hasNamed hasPositional fuel
                    (scan.pushNamed name (.literal token literal)) (cs.drop name.length)
          | .question =>
              match questionLiteral params scan.positionalIndex with
              | .error e => .error e
              | .ok literal =>
                  boundLoop params hasNamed hasPositional fuel
                    (scan.pushQuestion (.literal [c] literal)) cs

/-- The first text that `substitute_bound_parameters` would take for a placeholder. -/
def firstPlaceholderLoop : Nat → Text → Option Text
  | 0, _ => none
  | _ + 1, [] => none
  | fuel + 1, c :: cs =>
      match openedSpan (c :: cs) with
      | some (_, cut) => firstPlaceholderLoop fuel cut.rest
      | none =>
          match dollarNumber (c :: cs) with
          | some n => some (c :: cs.take n)
          | none =>
              if ((c = ':' ∧ cs.head? ≠ some ':') ∨ c = '@') ∧ cs.head?.any isIdentifierStart then
                some (c :: cs.takeWhile isIdentifierPart)
              else if c = '?' then some ['?']
              else firstPlaceholderLoop fuel cs

def firstPlaceholder (sql : Text) : Option Text :=
  firstPlaceholderLoop sql.length sql

def hasNamed (params : List (NzParameter N)) : Bool :=
  params.any fun p => !p.positional

def hasPositional (params : List (NzParameter N)) : Bool :=
  params.any fun p => p.positional

/-- The first parameter whose name the scan never met. -/
def unusedName (params : List (NzParameter N)) (usedNames : List Text) : Option Text :=
  (params.filterMap NzParameter.name).find? fun name => !usedNames.contains (asciiLower name)

/-- The checks behind the scan. -/
def checkUsed (params : List (NzParameter N)) (scan : BoundScan) : Except String Unit :=
  if hasNamed params then
    match unusedName params scan.usedNames with
    | some name =>
        .error ("SQL parameter '" ++ String.ofList name ++ "' was provided but not used.")
    | none => .ok ()
  else if (List.range params.length).any fun k => !scan.usedPositional.contains (k + 1) then
    .error "More positional parameter values were supplied than placeholders."
  else .ok ()

def boundScan (sql : Text) (params : List (NzParameter N)) : Except String BoundScan :=
  boundLoop params (hasNamed params) (hasPositional params) sql.length {} sql

def substituteBoundParameters (sql : Text) (params : List (NzParameter N)) :
    Except String Text :=
  if sql.contains '\x00' then .error "SQL contains NUL"
  else if params.isEmpty then
    match firstPlaceholder sql with
    | some token => .error (missingValue token ++ ".")
    | none => .ok sql
  else if hasNamed params && hasPositional params then
    .error "Named and positional parameters cannot be mixed in the same command."
  else
    match boundScan sql params with
    | .error e => .error e
    | .ok scan =>
        match checkUsed params scan with
        | .error e => .error e
        | .ok () => .ok (outputOf scan.result)

end NzRust.Sql
