import ModelMint.Source.Form
import ModelMint.Source.Formatted

/-!
# Expressions

A reader of expressions by recursive descent.  Every function takes the tokens from
where it starts and gives the form of what it read and the tokens behind it.  The depth
of the descent is bounded by a number that the length of the text is enough for.
-/

namespace ModelMint.Source

abbrev Tokens := List Token

/-- The form of what was read, and the tokens behind it. -/
abbrev Reading := Option (Form × Tokens)

def mark? (text : String) : Tokens → Option Tokens
  | .mark other :: rest => if other == text then some rest else none
  | _ => none

def keyword? (text : String) : Tokens → Option Tokens
  | .keyword other :: rest => if other == text then some rest else none
  | _ => none

def anyName? : Tokens → Option Tokens
  | .name _ :: rest => some rest
  | _ => none

def readAs (form : Form) (reading : Reading) : Reading :=
  reading.map fun (_, rest) => (form, rest)

def closedBy (text : String) (form : Form) (reading : Option Tokens) : Reading :=
  (reading.bind (mark? text)).map (form, ·)

/-! ## Operators -/

/-- The marks of two-sided operators from the loosest level to the tightest. -/
def levelMarks : Nat → List String
  | 3 => ["==", "!=", "<=", "<", ">=", ">"]
  | 4 => ["|"]
  | 5 => ["^"]
  | 6 => ["&"]
  | 7 => ["<<", ">>"]
  | 8 => ["+", "-"]
  | 9 => ["*", "/", "//", "%", "@"]
  | _ => []

def signMarks : List String := ["+", "-", "~"]

/-- The tokens behind an operator of the level; comparisons have level 3. -/
def operator? (level : Nat) (tokens : Tokens) : Option Tokens :=
  match level, tokens with
  | 0, .keyword "or" :: rest => some rest
  | 1, .keyword "and" :: rest => some rest
  | 3, .keyword "not" :: .keyword "in" :: rest => some rest
  | 3, .keyword "in" :: rest => some rest
  | 3, .keyword "is" :: .keyword "not" :: rest => some rest
  | 3, .keyword "is" :: rest => some rest
  | _, .mark text :: rest => if (levelMarks level).contains text then some rest else none
  | _, _ => none

/-! ## Constants -/

/-- Adjacent texts are one text; those of bytes and others do not mix. -/
def textRun : Tokens → List (TextKind × List Char) × Tokens
  | .text kind body :: rest =>
    let (texts, rest) := textRun rest
    ((kind, body) :: texts, rest)
  | rest => ([], rest)

def sameKinds (texts : List (TextKind × List Char)) : Bool :=
  texts.all (·.1.bytes) || texts.all (!·.1.bytes)

/-! ## Parameters -/

/-- How far a list of parameters has come: whether one with a default value came, whether the
mark that ends the positional ones may still come, and whether only named ones follow. -/
structure ParameterState where
  defaulted : Bool := false
  first : Bool := true
  slashed : Bool := false
  named : Bool := false
  /-- A lone star needs a parameter after it. -/
  owed : Bool := false

/-! ## Arguments -/

/-- How far a list of arguments has come. -/
inductive ArgumentPhase where
  | positional
  | named
  | unpacked
deriving DecidableEq

mutual

-- Expressions.

def expression : Nat → Tokens → Reading
  | 0, _ => none
  | fuel + 1, tokens =>
    match keyword? "lambda" tokens with
    | some rest => do
      let rest ← parameters fuel false ":" {} rest
      readAs .other (expression fuel rest)
    | none => do
      let (form, rest) ← operation fuel 0 tokens
      match keyword? "if" rest with
      | none => some (form, rest)
      | some rest => do
        let (_, rest) ← operation fuel 0 rest
        let rest ← keyword? "else" rest
        readAs .other (expression fuel rest)

/-- A name may be given to the value on the way. -/
def namedExpression : Nat → Tokens → Reading
  | 0, _ => none
  | fuel + 1, tokens =>
    match tokens with
    | .name _ :: .mark ":=" :: rest => readAs .other (expression fuel rest)
    | _ => expression fuel tokens

def operation : Nat → Nat → Tokens → Reading
  | 0, _, _ => none
  | fuel + 1, level, tokens =>
    if level = 2 then
      match keyword? "not" tokens with
      | some rest => readAs .other (operation fuel 2 rest)
      | none => operation fuel 3 tokens
    else if 10 ≤ level then signed fuel tokens
    else do
      let (form, rest) ← operation fuel (level + 1) tokens
      operationRest fuel level form rest

def operationRest : Nat → Nat → Form → Tokens → Reading
  | 0, _, _, _ => none
  | fuel + 1, level, form, tokens =>
    match operator? level tokens with
    | none => some (form, tokens)
    | some rest => do
      let (_, rest) ← operation fuel (level + 1) rest
      operationRest fuel level .other rest

def signed : Nat → Tokens → Reading
  | 0, _ => none
  | fuel + 1, tokens =>
    match signMarks.findSome? (mark? · tokens) with
    | some rest => readAs .other (signed fuel rest)
    | none => do
      let (form, rest) ← awaited fuel tokens
      match mark? "**" rest with
      | some rest => readAs .other (signed fuel rest)
      | none => some (form, rest)

def awaited : Nat → Tokens → Reading
  | 0, _ => none
  | fuel + 1, tokens =>
    match keyword? "await" tokens with
    | some rest => readAs .other (primary fuel rest)
    | none => primary fuel tokens

def primary : Nat → Tokens → Reading
  | 0, _ => none
  | fuel + 1, tokens => do
    let (form, rest) ← atom fuel tokens
    primaryRest fuel form rest

def primaryRest : Nat → Form → Tokens → Reading
  | 0, _, _ => none
  | fuel + 1, form, tokens =>
    match tokens with
    | .mark "." :: .name _ :: rest => primaryRest fuel .attr rest
    | .mark "(" :: rest => do
      let rest ← arguments fuel true true .positional rest
      primaryRest fuel .other rest
    | .mark "[" :: rest => do
      let rest ← slices fuel rest
      primaryRest fuel .item rest
    | _ => some (form, tokens)

def atom : Nat → Tokens → Reading
  | 0, _ => none
  | fuel + 1, tokens =>
    match tokens with
    | .name _ :: rest => some (.name, rest)
    | .keyword "True" :: rest | .keyword "False" :: rest | .keyword "None" :: rest =>
      some (.other, rest)
    | .number _ :: rest => some (.other, rest)
    | .text .. :: _ =>
      let (texts, rest) := textRun tokens
      if sameKinds texts && textsRead fuel texts then some (.other, rest) else none
    | .mark "..." :: rest => some (.other, rest)
    | .mark "(" :: rest => parenthesized fuel rest
    | .mark "[" :: rest => bracketed fuel rest
    | .mark "\x7b" :: rest => braced fuel rest
    | _ => none

-- Texts.

def textsRead : Nat → List (TextKind × List Char) → Bool
  | 0, _ => false
  | _ + 1, [] => true
  | fuel + 1, (kind, body) :: rest =>
    (if kind.formatted then formatted fuel kind.raw 0 body == some []
     else (decode kind body).isSome) && textsRead fuel rest

/-- What follows a formatted text: nothing, or within a format the closing brace. -/
def formatted : Nat → Bool → Nat → List Char → Option (List Char)
  | 0, _, _, _ => none
  | fuel + 1, raw, level, body => do
    let (literal, rest) ← scanLiteral raw (0 < level) false body
    if (decode { raw } literal).isNone then none
    match rest with
    | '\x7b' :: text =>
      if 2 ≤ level then none
      else do
        let field ← readField text
        let tokens ← scan ('(' :: (field.expression ++ [')']))
        let (_, rest) ← starExpressions fuel tokens
        if rest != [.newline] then none
        match field.rest with
        | ':' :: format => do
          let rest ← formatted fuel raw (level + 1) format
          if rest.head? == some '\x7d' then formatted fuel raw level (rest.drop 1) else none
        | '\x7d' :: rest => formatted fuel raw level rest
        | _ => none
    | rest => some rest

-- Brackets.

/-- Behind an opening parenthesis. -/
def parenthesized : Nat → Tokens → Reading
  | 0, _ => none
  | fuel + 1, tokens =>
    match tokens with
    | .mark ")" :: rest => some (.tuple [], rest)
    | .keyword "yield" :: _ => do
      let (_, rest) ← yielded fuel tokens
      closedBy ")" (.group .other) (some rest)
    | _ => do
      let (form, rest) ← starNamed fuel tokens
      match rest with
      | .mark ")" :: rest => if form.isStarred then none else some (.group form, rest)
      | .mark "," :: rest => do
        let (forms, rest) ← items fuel ")" rest
        some (.tuple (form :: forms), rest)
      | _ =>
        if form.isStarred then none else closedBy ")" .other (clauses fuel rest)

/-- Behind an opening bracket. -/
def bracketed : Nat → Tokens → Reading
  | 0, _ => none
  | fuel + 1, tokens =>
    match tokens with
    | .mark "]" :: rest => some (.list [], rest)
    | _ => do
      let (form, rest) ← starNamed fuel tokens
      match rest with
      | .mark "]" :: rest => some (.list [form], rest)
      | .mark "," :: rest => do
        let (forms, rest) ← items fuel "]" rest
        some (.list (form :: forms), rest)
      | _ => if form.isStarred then none else closedBy "]" .other (clauses fuel rest)

/-- Behind an opening brace: members of a map, or elements of a set. -/
def braced : Nat → Tokens → Reading
  | 0, _ => none
  | fuel + 1, tokens =>
    match tokens with
    | .mark "\x7d" :: rest => some (.other, rest)
    | .mark "**" :: _ => readAs .other (members fuel tokens)
    | .name _ :: .mark ":=" :: _ => elements fuel tokens
    | _ => do
      let (form, rest) ← starNamed fuel tokens
      match rest with
      | .mark ":" :: rest =>
        if form.isStarred then none
        else do
          let (_, rest) ← expression fuel rest
          match rest with
          | .mark "\x7d" :: rest => some (.other, rest)
          | .mark "," :: rest => members fuel rest
          | _ => closedBy "\x7d" .other (clauses fuel rest)
      | _ => elements fuel tokens

/-- The elements of a set, at least one, with the brace behind them. -/
def elements : Nat → Tokens → Reading
  | 0, _ => none
  | fuel + 1, tokens => do
    let (form, rest) ← starNamed fuel tokens
    match rest with
    | .mark "\x7d" :: rest => some (.other, rest)
    | .mark "," :: rest =>
      readAs .other ((items fuel "\x7d" rest).map fun (_, rest) => (.other, rest))
    | _ => if form.isStarred then none else closedBy "\x7d" .other (clauses fuel rest)

/-- The members of a map that are left, with the brace behind them. -/
def members : Nat → Tokens → Reading
  | 0, _ => none
  | fuel + 1, tokens =>
    match tokens with
    | .mark "\x7d" :: rest => some (.other, rest)
    | _ => do
      let rest ← match mark? "**" tokens with
        | some rest => (operation fuel 4 rest).map Prod.snd
        | none => do
          let (_, rest) ← expression fuel tokens
          let rest ← mark? ":" rest
          (expression fuel rest).map Prod.snd
      match rest with
      | .mark "," :: rest => members fuel rest
      | _ => closedBy "\x7d" .other (some rest)

/-- The items that are left, with the bracket behind them. -/
def items : Nat → String → Tokens → Option (List Form × Tokens)
  | 0, _, _ => none
  | fuel + 1, close, tokens =>
    match mark? close tokens with
    | some rest => some ([], rest)
    | none => do
      let (form, rest) ← starNamed fuel tokens
      match mark? "," rest with
      | some rest => (items fuel close rest).map fun (forms, rest) => (form :: forms, rest)
      | none => (mark? close rest).map ([form], ·)

def starNamed : Nat → Tokens → Reading
  | 0, _ => none
  | fuel + 1, tokens =>
    match mark? "*" tokens with
    | some rest => (operation fuel 4 rest).map fun (form, rest) => (.starred form, rest)
    | none => namedExpression fuel tokens

-- Clauses.

/-- The clauses of a comprehension, at least one. -/
def clauses : Nat → Tokens → Option Tokens
  | 0, _ => none
  | fuel + 1, tokens => do
    let rest := (keyword? "async" tokens).getD tokens
    let rest ← keyword? "for" rest
    let (form, rest) ← targets fuel rest
    if !form.isTarget then none
    let rest ← keyword? "in" rest
    let (_, rest) ← operation fuel 0 rest
    let rest ← conditions fuel rest
    match rest with
    | .keyword "for" :: _ | .keyword "async" :: _ => clauses fuel rest
    | _ => some rest

def conditions : Nat → Tokens → Option Tokens
  | 0, _ => none
  | fuel + 1, tokens =>
    match keyword? "if" tokens with
    | none => some tokens
    | some rest => do
      let (_, rest) ← operation fuel 0 rest
      conditions fuel rest

/-- Targets in front of `in`: comparisons are not read. -/
def targets : Nat → Tokens → Reading
  | 0, _ => none
  | fuel + 1, tokens => do
    let (form, rest) ← target fuel tokens
    match mark? "," rest with
    | none => some (form, rest)
    | some rest => do
      let (forms, rest) ← targetsRest fuel rest
      some (.tuple (form :: forms), rest)

def targetsRest : Nat → Tokens → Option (List Form × Tokens)
  | 0, _ => none
  | fuel + 1, tokens =>
    match target fuel tokens with
    | none => some ([], tokens)
    | some (form, rest) => match mark? "," rest with
      | none => some ([form], rest)
      | some rest => (targetsRest fuel rest).map fun (forms, rest) => (form :: forms, rest)

def target : Nat → Tokens → Reading
  | 0, _ => none
  | fuel + 1, tokens =>
    match mark? "*" tokens with
    | some rest => (operation fuel 4 rest).map fun (form, rest) => (.starred form, rest)
    | none => operation fuel 4 tokens

-- Arguments and slices.

/-- Behind an opening parenthesis, up to and with the closing one.  One comprehension may stand
alone, where `comprehension` allows it. -/
def arguments : Nat → Bool → Bool → ArgumentPhase → Tokens → Option Tokens
  | 0, _, _, _, _ => none
  | fuel + 1, comprehension, first, phase, tokens =>
    match tokens with
    | .mark ")" :: rest => some rest
    | .mark "*" :: rest =>
      if phase == .unpacked then none
      else do
        let (_, rest) ← expression fuel rest
        argumentsRest fuel phase rest
    | .mark "**" :: rest => do
      let (_, rest) ← expression fuel rest
      argumentsRest fuel .unpacked rest
    | .name _ :: .mark "=" :: rest => do
      let (_, rest) ← expression fuel rest
      argumentsRest fuel (if phase == .unpacked then .unpacked else .named) rest
    | _ =>
      if phase != .positional then none
      else do
        let (_, rest) ← namedExpression fuel tokens
        match rest with
        | .keyword "for" :: _ | .keyword "async" :: _ =>
          if comprehension && first then (clauses fuel rest).bind (mark? ")") else none
        | _ => argumentsRest fuel phase rest

def argumentsRest : Nat → ArgumentPhase → Tokens → Option Tokens
  | 0, _, _ => none
  | fuel + 1, phase, tokens =>
    match tokens with
    | .mark ")" :: rest => some rest
    | .mark "," :: rest => arguments fuel false false phase rest
    | _ => none

/-- Behind an opening bracket, up to and with the closing one; at least one slice. -/
def slices : Nat → Tokens → Option Tokens
  | 0, _ => none
  | fuel + 1, tokens => do
    let rest ← match mark? "*" tokens with
      | some rest => (expression fuel rest).map Prod.snd
      | none => slice fuel tokens
    match rest with
    | .mark "]" :: rest => some rest
    | .mark "," :: .mark "]" :: rest => some rest
    | .mark "," :: rest => slices fuel rest
    | _ => none

def slice : Nat → Tokens → Option Tokens
  | 0, _ => none
  | fuel + 1, tokens =>
    match tokens with
    | .mark ":" :: rest => sliceRest fuel rest
    | .name _ :: .mark ":=" :: rest => (expression fuel rest).map Prod.snd
    | _ => do
      let (_, rest) ← expression fuel tokens
      match rest with
      | .mark ":" :: rest => sliceRest fuel rest
      | _ => some rest

/-- Behind the first colon of a slice. -/
def sliceRest : Nat → Tokens → Option Tokens
  | 0, _ => none
  | fuel + 1, tokens => do
    let rest ← sliceEnd fuel tokens
    match mark? ":" rest with
    | some rest => sliceEnd fuel rest
    | none => some rest

def sliceEnd : Nat → Tokens → Option Tokens
  | 0, _ => none
  | fuel + 1, tokens =>
    match tokens with
    | .mark ":" :: _ | .mark "," :: _ | .mark "]" :: _ => some tokens
    | _ => (expression fuel tokens).map Prod.snd

-- Parameters.

/-- The parameters up to and with the token that closes them. -/
def parameters : Nat → Bool → String → ParameterState → Tokens → Option Tokens
  | 0, _, _, _, _ => none
  | fuel + 1, annotated, close, state, tokens =>
    match tokens with
    | .name _ :: rest => do
      let rest ← annotation fuel annotated rest
      let (defaulted, rest) ← match mark? "=" rest with
        | some rest => (expression fuel rest).map fun (_, rest) => (true, rest)
        | none => some (false, rest)
      if state.defaulted && !defaulted && !state.named then none
      parametersRest fuel annotated close
        { state with
          defaulted := state.defaulted || (defaulted && !state.named), first := false,
          owed := false } rest
    | .mark "/" :: rest =>
      if state.first || state.slashed || state.named then none
      else parametersRest fuel annotated close { state with slashed := true } rest
    | .mark "*" :: .name _ :: rest =>
      if state.named then none
      else do
        let rest ← starAnnotation fuel annotated rest
        parametersRest fuel annotated close { state with named := true } rest
    | .mark "*" :: rest =>
      if state.named then none
      else do
        let rest ← mark? "," rest
        if (mark? close rest).isSome then none
        parameters fuel annotated close { state with named := true, owed := true } rest
    | .mark "**" :: .name _ :: rest =>
      if state.owed then none
      else do
        let rest ← annotation fuel annotated rest
        let rest := (mark? "," rest).getD rest
        mark? close rest
    | _ => if state.owed then none else mark? close tokens

def parametersRest : Nat → Bool → String → ParameterState → Tokens → Option Tokens
  | 0, _, _, _, _ => none
  | fuel + 1, annotated, close, state, tokens =>
    match mark? "," tokens with
    | some rest => parameters fuel annotated close state rest
    | none => mark? close tokens

def annotation : Nat → Bool → Tokens → Option Tokens
  | 0, _, _ => none
  | fuel + 1, annotated, tokens =>
    match annotated, mark? ":" tokens with
    | true, some rest => (expression fuel rest).map Prod.snd
    | _, _ => some tokens

def starAnnotation : Nat → Bool → Tokens → Option Tokens
  | 0, _, _ => none
  | fuel + 1, annotated, tokens =>
    match annotated, mark? ":" tokens with
    | true, some rest => (starExpression fuel rest).map Prod.snd
    | _, _ => some tokens

-- Lists of expressions.

def starExpression : Nat → Tokens → Reading
  | 0, _ => none
  | fuel + 1, tokens =>
    match mark? "*" tokens with
    | some rest => (operation fuel 4 rest).map fun (form, rest) => (.starred form, rest)
    | none => expression fuel tokens

def starExpressions : Nat → Tokens → Reading
  | 0, _ => none
  | fuel + 1, tokens => do
    let (form, rest) ← starExpression fuel tokens
    match mark? "," rest with
    | none => some (form, rest)
    | some rest => do
      let (forms, rest) ← starExpressionsRest fuel rest
      some (.tuple (form :: forms), rest)

def starExpressionsRest : Nat → Tokens → Option (List Form × Tokens)
  | 0, _ => none
  | fuel + 1, tokens =>
    match starExpression fuel tokens with
    | none => some ([], tokens)
    | some (form, rest) => match mark? "," rest with
      | none => some ([form], rest)
      | some rest =>
        (starExpressionsRest fuel rest).map fun (forms, rest) => (form :: forms, rest)

def yielded : Nat → Tokens → Reading
  | 0, _ => none
  | fuel + 1, tokens =>
    match tokens with
    | .keyword "yield" :: .keyword "from" :: rest => readAs .other (expression fuel rest)
    | .keyword "yield" :: rest => match starExpressions fuel rest with
      | some (_, rest) => some (.other, rest)
      | none => some (.other, rest)
    | _ => none

end

end ModelMint.Source
