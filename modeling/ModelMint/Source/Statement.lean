import ModelMint.Source.Pattern

/-!
# Statements

A module is a list of statements.  A statement keeps its tokens, and its parts where
they matter: what a declaration annotates, and the blocks of a compound statement.
-/

namespace ModelMint.Source

inductive Statement where
  | simple (tokens : Tokens)
  | annotated (target annotation : Tokens) (value : Option Tokens)
  /-- Clauses, each a head, its colon included, and a block. -/
  | compound (clauses : List (Tokens × List Statement))

/-- The tokens between two points of a text. -/
def between (start rest : Tokens) : Tokens := start.take (start.length - rest.length)

/-! ## Simple statements -/

def valueOf (fuel : Nat) (tokens : Tokens) : Option Tokens :=
  match yielded fuel tokens with
  | some (_, rest) => some rest
  | none => (starExpressions fuel tokens).map Prod.snd

def updateMarks : List String :=
  ["+=", "-=", "*=", "@=", "/=", "%=", "&=", "|=", "^=", "<<=", ">>=", "**=", "//="]

/-- Behind the first `=`: further targets, and the value. -/
def assignmentRest : Nat → Tokens → Option Tokens
  | 0, _ => none
  | fuel + 1, tokens =>
    match yielded fuel tokens with
    | some (_, rest) => if (mark? "=" rest).isSome then none else some rest
    | none => do
      let (form, rest) ← starExpressions fuel tokens
      match mark? "=" rest with
      | some rest => if form.isTarget then assignmentRest fuel rest else none
      | none => some rest

/-- Whether the tokens start with a place in parentheses that is only a part of what was read; such
a target cannot be annotated. -/
def opensWithPlace (fuel : Nat) (tokens rest : Tokens) : Bool :=
  match atom fuel tokens with
  | some (.group inner, after) => inner.isPlace && after.length != rest.length
  | _ => false

/-- An expression, or an assignment or declaration that starts with one. -/
def expressionStatement (fuel : Nat) (tokens : Tokens) : Option (Statement × Tokens) := do
  let (form, rest) ← match yielded fuel tokens with
    | some reading => some reading
    | none => starExpressions fuel tokens
  match rest with
  | .mark ":" :: tail =>
    if form.isPlace && !opensWithPlace fuel tokens rest then do
      let (_, rest) ← expression fuel tail
      let annotation := between tail rest
      match mark? "=" rest with
      | some start => do
        let rest ← valueOf fuel start
        some (.annotated (between tokens (.mark ":" :: tail)) annotation
          (some (between start rest)), rest)
      | none => some (.annotated (between tokens (.mark ":" :: tail)) annotation none, rest)
    else none
  | .mark "=" :: tail =>
    if form.isTarget then do
      let rest ← assignmentRest fuel tail
      some (.simple (between tokens rest), rest)
    else none
  | .mark text :: tail =>
    if updateMarks.contains text then
      if form.isPlace then do
        let rest ← valueOf fuel tail
        some (.simple (between tokens rest), rest)
      else none
    else some (.simple (between tokens rest), rest)
  | _ => some (.simple (between tokens rest), rest)

def nameList : Nat → Tokens → Option Tokens
  | 0, _ => none
  | fuel + 1, tokens => do
    let rest ← anyName? tokens
    match mark? "," rest with
    | some rest => nameList fuel rest
    | none => some rest

def dottedName? (tokens : Tokens) : Option Tokens := (anyName? tokens).map dottedRest

def renamed? (tokens : Tokens) : Option Tokens :=
  match keyword? "as" tokens with
  | some rest => anyName? rest
  | none => some tokens

def importNames : Nat → Tokens → Option Tokens
  | 0, _ => none
  | fuel + 1, tokens => do
    let rest ← dottedName? tokens
    let rest ← renamed? rest
    match mark? "," rest with
    | some rest => importNames fuel rest
    | none => some rest

/-- Names to import from a module; in parentheses a comma may end them. -/
def fromNames : Nat → Bool → Tokens → Option Tokens
  | 0, _, _ => none
  | fuel + 1, closed, tokens => do
    let rest ← anyName? tokens
    let rest ← renamed? rest
    match mark? "," rest with
    | some rest =>
      if closed && (mark? ")" rest).isSome then mark? ")" rest else fromNames fuel closed rest
    | none => if closed then mark? ")" rest else some rest

/-- Leading points, and whether there are any. -/
def leadingPoints : Tokens → Bool × Tokens
  | .mark "." :: rest => (true, (leadingPoints rest).2)
  | .mark "..." :: rest => (true, (leadingPoints rest).2)
  | rest => (false, rest)

def fromImport (fuel : Nat) (tokens : Tokens) : Option Tokens := do
  let (relative, rest) := leadingPoints tokens
  let rest ← match dottedName? rest with
    | some rest => some rest
    | none => if relative then some rest else none
  let rest ← keyword? "import" rest
  match rest with
  | .mark "*" :: rest => some rest
  | .mark "(" :: rest => fromNames fuel true rest
  | _ => fromNames fuel false rest

/-- Whether a simple statement may end here. -/
def endsStatement : Tokens → Bool
  | .newline :: _ | .mark ";" :: _ => true
  | _ => false

/-- What follows a statement that starts with a keyword of its own. -/
def keywordStatement (fuel : Nat) (word : String) (rest : Tokens) : Option Tokens :=
  let expressionOf (tokens : Tokens) : Option Tokens := (expression fuel tokens).map Prod.snd
  match word with
  | "pass" | "break" | "continue" => some rest
  | "return" =>
    if endsStatement rest then some rest else (starExpressions fuel rest).map Prod.snd
  | "raise" =>
    if endsStatement rest then some rest
    else do
      let rest ← expressionOf rest
      match keyword? "from" rest with
      | some rest => expressionOf rest
      | none => some rest
  | "global" | "nonlocal" => nameList fuel rest
  | "del" => do
    let (form, rest) ← starExpressions fuel rest
    if form.isDeletable && endsStatement rest then some rest else none
  | "assert" => do
    let rest ← expressionOf rest
    match mark? "," rest with
    | some rest => expressionOf rest
    | none => some rest
  | "import" => importNames fuel rest
  | "from" => fromImport fuel rest
  | _ => none

def ownKeywords : List String :=
  ["pass", "break", "continue", "return", "raise", "global", "nonlocal", "del", "assert",
    "import", "from"]

def simpleStatement (fuel : Nat) (tokens : Tokens) : Option (Statement × Tokens) :=
  match tokens with
  | .keyword word :: rest =>
    if ownKeywords.contains word then
      (keywordStatement fuel word rest).map fun rest => (.simple (between tokens rest), rest)
    else expressionStatement fuel tokens
  | _ => expressionStatement fuel tokens

/-- The simple statements of one line, with its end. -/
def simpleLine : Nat → Tokens → Option (List Statement × Tokens)
  | 0, _ => none
  | fuel + 1, tokens => do
    let (statement, rest) ← simpleStatement fuel tokens
    match rest with
    | .newline :: rest => some ([statement], rest)
    | .mark ";" :: .newline :: rest => some ([statement], rest)
    | .mark ";" :: rest =>
      (simpleLine fuel rest).map fun (statements, rest) => (statement :: statements, rest)
    | _ => none

/-! ## Heads of compound statements -/

def withItem (fuel : Nat) (tokens : Tokens) : Option Tokens := do
  let (_, rest) ← expression fuel tokens
  match keyword? "as" rest with
  | none => some rest
  | some rest => do
    let (form, rest) ← target fuel rest
    if form.isTarget then some rest else none

/-- Items up to and with the colon; `closed` says that they are in parentheses, where a comma may
end them. -/
def withItems : Nat → Bool → Tokens → Option Tokens
  | 0, _, _ => none
  | fuel + 1, closed, tokens => do
    let rest ← withItem fuel tokens
    match closed, rest with
    | true, .mark "," :: .mark ")" :: .mark ":" :: rest => some rest
    | true, .mark ")" :: .mark ":" :: rest => some rest
    | false, .mark ":" :: rest => some rest
    | _, .mark "," :: rest => withItems fuel closed rest
    | _, _ => none

def withHead (fuel : Nat) (tokens : Tokens) : Option Tokens :=
  ((mark? "(" tokens).bind (withItems fuel true)).orElse fun _ => withItems fuel false tokens

def forHead (fuel : Nat) (tokens : Tokens) : Option Tokens := do
  let (form, rest) ← targets fuel tokens
  if !form.isTarget then none
  let rest ← keyword? "in" rest
  let (_, rest) ← starExpressions fuel rest
  mark? ":" rest

def conditionHead (fuel : Nat) (tokens : Tokens) : Option Tokens := do
  let (_, rest) ← namedExpression fuel tokens
  mark? ":" rest

def functionHead (fuel : Nat) (tokens : Tokens) : Option Tokens := do
  let rest ← anyName? tokens
  let rest ← mark? "(" rest
  let rest ← parameters fuel true ")" {} rest
  let rest ← match mark? "->" rest with
    | some rest => (expression fuel rest).map Prod.snd
    | none => some rest
  mark? ":" rest

def classHead (fuel : Nat) (tokens : Tokens) : Option Tokens := do
  let rest ← anyName? tokens
  let rest ← match mark? "(" rest with
    | some rest => arguments fuel false true .positional rest
    | none => some rest
  mark? ":" rest

/-- Behind `except` or `except*`. -/
def handlerHead (fuel : Nat) (tokens : Tokens) : Option Tokens := do
  let (_, rest) ← expression fuel tokens
  let rest ← renamed? rest
  mark? ":" rest

def subjectHead (fuel : Nat) (tokens : Tokens) : Option Tokens := do
  let (form, rest) ← starNamed fuel tokens
  let rest ← match mark? "," rest with
    | some rest => some ((subjectRest fuel rest))
    | none => if form.isStarred then none else some rest
  mark? ":" rest
where
  subjectRest : Nat → Tokens → Tokens
  | 0, tokens => tokens
  | fuel + 1, tokens =>
    match starNamed fuel tokens with
    | none => tokens
    | some (_, rest) => match mark? "," rest with
      | some rest => subjectRest fuel rest
      | none => rest

def caseHead (fuel : Nat) (tokens : Tokens) : Option Tokens := do
  let rest ← casePattern fuel tokens
  match keyword? "if" rest with
  | some rest => conditionHead fuel rest
  | none => mark? ":" rest

def decorators : Nat → Tokens → Option Tokens
  | 0, _ => none
  | fuel + 1, tokens =>
    match mark? "@" tokens with
    | none => some tokens
    | some rest => do
      let (_, rest) ← namedExpression fuel rest
      match rest with
      | .newline :: rest => decorators fuel rest
      | _ => none

/-! ## Statements and blocks -/

mutual

/-- Statements up to the end of the text or of the block. -/
def statements : Nat → Tokens → Option (List Statement × Tokens)
  | 0, _ => none
  | fuel + 1, tokens =>
    match tokens with
    | [] => some ([], [])
    | .dedent :: _ => some ([], tokens)
    | _ => do
      let (first, rest) ← statement fuel tokens
      let (others, rest) ← statements fuel rest
      some (first ++ others, rest)

/-- One compound statement, or the simple statements of a line. -/
def statement : Nat → Tokens → Option (List Statement × Tokens)
  | 0, _ => none
  | fuel + 1, tokens =>
    match tokens with
    | .keyword "async" :: .keyword word :: rest =>
      if ["def", "for", "with"].contains word then compound fuel tokens word rest else none
    | .keyword word :: rest =>
      if ["def", "for", "with", "class", "if", "while", "try"].contains word then
        compound fuel tokens word rest
      else simpleLine fuel tokens
    | .mark "@" :: _ => do
      match ← decorators fuel tokens with
      | .keyword "async" :: .keyword "def" :: rest => compound fuel tokens "def" rest
      | .keyword "def" :: rest => compound fuel tokens "def" rest
      | .keyword "class" :: rest => compound fuel tokens "class" rest
      | _ => none
    | .name "match" :: rest =>
      (choice fuel tokens rest).orElse fun _ => simpleLine fuel tokens
    | _ => simpleLine fuel tokens

/-- `start` is where the statement begins, `rest` what follows its keyword. -/
def compound : Nat → Tokens → String → Tokens → Option (List Statement × Tokens)
  | 0, _, _, _ => none
  | fuel + 1, start, word, rest => do
    let body ← match word with
      | "def" => functionHead fuel rest
      | "class" => classHead fuel rest
      | "for" => forHead fuel rest
      | "with" => withHead fuel rest
      | "try" => mark? ":" rest
      | _ => conditionHead fuel rest
    let (block, rest) ← block fuel body
    let first := (between start body, block)
    let (others, rest) ← match word with
      | "if" => branches fuel rest
      | "for" | "while" => finally? fuel "else" rest
      | "try" => handlers fuel rest
      | _ => some ([], rest)
    some ([.compound (first :: others)], rest)

/-- `elif` clauses, and the `else` clause. -/
def branches : Nat → Tokens → Option (List (Tokens × List Statement) × Tokens)
  | 0, _ => none
  | fuel + 1, tokens =>
    match keyword? "elif" tokens with
    | none => finally? fuel "else" tokens
    | some rest => do
      let body ← conditionHead fuel rest
      let (block, rest) ← block fuel body
      let (others, rest) ← branches fuel rest
      some ((between tokens body, block) :: others, rest)

/-- A clause without a condition, if it is there. -/
def finally? : Nat → String → Tokens → Option (List (Tokens × List Statement) × Tokens)
  | 0, _, _ => none
  | fuel + 1, word, tokens =>
    match keyword? word tokens with
    | none => some ([], tokens)
    | some rest => do
      let body ← mark? ":" rest
      let (block, rest) ← block fuel body
      some ([(between tokens body, block)], rest)

/-- What follows a `try` block: handlers, all with a star or none, perhaps an `else` clause, and
perhaps a `finally` clause, which has to be there if there is no handler. -/
def handlers : Nat → Tokens → Option (List (Tokens × List Statement) × Tokens)
  | 0, _ => none
  | fuel + 1, tokens => do
    let starred := match tokens with
      | .keyword "except" :: .mark "*" :: _ => true
      | _ => false
    let (caught, rest) ← handlerRest fuel starred tokens
    let (alternative, rest) ← if caught.isEmpty then some ([], rest) else finally? fuel "else" rest
    let (last, rest) ← finally? fuel "finally" rest
    if caught.isEmpty && last.isEmpty then none
    some (caught ++ alternative ++ last, rest)

def handlerRest : Nat → Bool → Tokens → Option (List (Tokens × List Statement) × Tokens)
  | 0, _, _ => none
  | fuel + 1, starred, tokens =>
    match keyword? "except" tokens with
    | none => some ([], tokens)
    | some rest => do
      let body ← match starred, rest with
        | true, .mark "*" :: rest => handlerHead fuel rest
        | true, _ => none
        | false, .mark ":" :: rest => some rest
        | false, _ => handlerHead fuel rest
      let (block, rest) ← block fuel body
      let (others, rest) ← handlerRest fuel starred rest
      some ((between tokens body, block) :: others, rest)

/-- A choice between cases; its keywords are names elsewhere. -/
def choice : Nat → Tokens → Tokens → Option (List Statement × Tokens)
  | 0, _, _ => none
  | fuel + 1, start, tokens => do
    let body ← subjectHead fuel tokens
    match body with
    | .newline :: .indent :: rest => do
      let (cases, rest) ← cases fuel rest
      if cases.isEmpty then none
      match rest with
      | .dedent :: rest => some ([.compound ((between start body, []) :: cases)], rest)
      | _ => none
    | _ => none

def cases : Nat → Tokens → Option (List (Tokens × List Statement) × Tokens)
  | 0, _ => none
  | fuel + 1, tokens =>
    match tokens with
    | .name "case" :: rest => do
      let body ← caseHead fuel rest
      let (block, rest) ← block fuel body
      let (others, rest) ← cases fuel rest
      some ((between tokens body, block) :: others, rest)
    | _ => some ([], tokens)

/-- Simple statements on the same line, or indented statements on lines of their own. -/
def block : Nat → Tokens → Option (List Statement × Tokens)
  | 0, _ => none
  | fuel + 1, tokens =>
    match tokens with
    | .newline :: .indent :: rest => do
      let (body, rest) ← statements fuel rest
      match rest with
      | .dedent :: rest => some (body, rest)
      | _ => none
    | _ => simpleLine fuel tokens

end

/-! ## Modules -/

/-- No function descends through more than this many others without taking a token. -/
def descent : Nat := 32

/-- The statements of a module without null characters. -/
def readModule (text : List Char) : Option (List Statement) := do
  let tokens ← scan text
  let (body, rest) ← statements (descent * (text.length + 2)) tokens
  if rest.isEmpty then some body else none

end ModelMint.Source
