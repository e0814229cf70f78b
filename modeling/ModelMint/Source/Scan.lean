import ModelMint.Source.Number
import ModelMint.Source.Quotation
import ModelMint.Text.Identifier

/-!
# Scanning

The text of a module as tokens.  Indentation is measured twice, with tabs up to columns
of eight and with tabs of one column, and the two have to agree on every comparison.
Within brackets line ends and indentation do not matter, nor on lines without tokens.
-/

namespace ModelMint.Source

/-! ## Line ends -/

def unifyEnds : List Char → List Char
  | [] => []
  | '\r' :: '\n' :: rest => '\n' :: unifyEnds rest
  | '\r' :: rest => '\n' :: unifyEnds rest
  | c :: rest => c :: unifyEnds rest

/-- Every line has an end, the last one too. -/
def closeLine (text : List Char) : List Char :=
  if text.getLast? == some '\n' then text else text ++ ['\n']

/-! ## Marks -/

/-- Longer marks come first. -/
def marks : List (List Char) := [
  "**=", "//=", ">>=", "<<=", "...",
  "!=", "%=", "&=", "**", "*=", "+=", "-=", "->", "//", "/=", ":=", "<<", "<=", "<>", "==", ">=",
  ">>", "@=", "^=", "|=",
  "%", "&", "(", ")", "*", "+", ",", "-", ".", "/", ":", ";", "<", "=", ">", "@", "[", "]", "^",
  "\x7b", "|", "\x7d", "~"].map String.toList

def closing? : Char → Option Char
  | '(' => some ')'
  | '[' => some ']'
  | '\x7b' => some '\x7d'
  | _ => none

def isClosing (c : Char) : Bool := c == ')' || c == ']' || c == '\x7d'

/-- The most brackets that are open at once. -/
def bracketLimit : Nat := 200

/-- The brackets that are to be closed after a mark, innermost first. -/
def nestBrackets (brackets : List Char) (mark : List Char) : Option (List Char) :=
  match mark with
  | [c] => match closing? c with
    | some close => if brackets.length < bracketLimit then some (close :: brackets) else none
    | none =>
      if isClosing c then
        match brackets with
        | close :: rest => if close == c then some rest else none
        | [] => none
      else some brackets
  | _ => some brackets

/-! ## Words -/

def wordToken (word : List Char) : Option Token :=
  if Text.isKeyword word then some (.keyword (String.ofList word))
  else if Text.isIdentifier word then some (.name (String.ofList word))
  else none

/-- The letters before a quote, each at most once and in the combinations that have a meaning. -/
def textKind? (letters : List Char) : Option TextKind :=
  match letters.map Char.toLower with
  | [] => some {}
  | ['r'] => some { raw := true }
  | ['u'] => some {}
  | ['b'] => some { bytes := true }
  | ['b', 'r'] | ['r', 'b'] => some { bytes := true, raw := true }
  | ['f'] => some { formatted := true }
  | ['f', 'r'] | ['r', 'f'] => some { formatted := true, raw := true }
  | _ => none

/-! ## Indentation -/

/-- A width with tabs up to columns of eight, and one with tabs of one column. -/
structure Indentation where
  wide : Nat := 0
  narrow : Nat := 0
deriving DecidableEq, Repr

structure Layout where
  /-- Open indentations, innermost first; the outermost is none. -/
  indents : List Indentation := []
  /-- Closing brackets to come, innermost first. -/
  brackets : List Char := []

/-- The indentation of a line and its text.  A backslash at the start of a line joins the next
one to it; the indentation is then the one before the first such backslash. -/
def measureIndent (held : Nat) (indent : Indentation) :
    List Char → Option (Indentation × List Char)
  | ' ' :: rest => measureIndent held ⟨indent.wide + 1, indent.narrow + 1⟩ rest
  | '\t' :: rest => measureIndent held ⟨(indent.wide / 8 + 1) * 8, indent.narrow + 1⟩ rest
  | '\x0c' :: rest => measureIndent held ⟨0, 0⟩ rest
  | '\\' :: '\n' :: c :: rest =>
    measureIndent (if held = 0 then indent.wide else held) indent (c :: rest)
  | '\\' :: _ => none
  | rest => some (if held = 0 then indent else ⟨held, held⟩, rest)

/-- The most indentations that are open at once. -/
def indentLimit : Nat := 99

/-- The indentations that stay open, and how many are closed. -/
def closeIndents (wide : Nat) : List Indentation → List Indentation × Nat
  | [] => ([], 0)
  | top :: rest =>
    if wide < top.wide then
      let (indents, closed) := closeIndents wide rest
      (indents, closed + 1)
    else (top :: rest, 0)

def changeIndent (indents : List Indentation) (new : Indentation) :
    Option (List Indentation × List Token) :=
  let current := indents.headD {}
  if new.wide = current.wide then
    if new.narrow = current.narrow then some (indents, []) else none
  else if current.wide < new.wide then
    if current.narrow < new.narrow && indents.length < indentLimit then
      some (new :: indents, [.indent])
    else none
  else
    let (indents, closed) := closeIndents new.wide indents
    if indents.headD {} == new then some (indents, List.replicate closed .dedent) else none

def isSkipped (c : Char) : Bool := c == ' ' || c == '\t' || c == '\x0c'

/-- Whether the line has no token. -/
def isEmptyLine (text : List Char) : Bool :=
  match text with
  | '#' :: _ | '\n' :: _ => true
  | _ => false

def skipComment (text : List Char) : List Char := text.dropWhile (· != '\n')

/-! ## Tokens -/

/-- One token, or nothing where white space, a comment or a joined line is passed over: what is
read, the brackets that are open then, and the rest. -/
structure Step where
  token : Option Token
  brackets : List Char
  rest : List Char

def scanWord (brackets text : List Char) : Option Step :=
  let word := text.takeWhile isWordChar
  let rest := text.drop word.length
  match rest with
  | quote :: body =>
    match (if quote == '"' || quote == '\'' then textKind? word else none) with
    | some kind => do
      let (body, rest) ← scanQuoted quote body
      some ⟨some (.text kind body), brackets, rest⟩
    | none => (wordToken word).map fun token => ⟨some token, brackets, rest⟩
  | [] => (wordToken word).map fun token => ⟨some token, brackets, rest⟩

def scanMark (brackets text : List Char) : Option Step := do
  let mark ← marks.find? (·.isPrefixOf text)
  let brackets ← nestBrackets brackets mark
  some ⟨some (.mark (String.ofList mark)), brackets, text.drop mark.length⟩

def scanNumber (brackets text : List Char) : Option Step := do
  let rest ← numberEnd text
  let number := text.take (text.length - rest.length)
  some ⟨some (.number (String.ofList number)), brackets, rest⟩

/-- The text is not at a line end. -/
def scanStep (brackets text : List Char) : Option Step :=
  match text with
  | [] => none
  | '#' :: rest => some ⟨none, brackets, skipComment rest⟩
  | '\\' :: '\n' :: c :: rest => some ⟨none, brackets, c :: rest⟩
  | c :: rest =>
    if isSkipped c then some ⟨none, brackets, rest⟩
    else if c == '"' || c == '\'' || isWordStart c then scanWord brackets text
    else if c.isDigit || (c == '.' && rest.head?.any Char.isDigit) then scanNumber brackets text
    else scanMark brackets text

/-- Every step but the one at the start of a line takes a character, and every line has one. -/
def scanFrom : Nat → Layout → Bool → List Char → Option (List Token)
  | 0, _, _, _ => none
  | _ + 1, layout, _, [] =>
    if layout.brackets.isEmpty then some (layout.indents.map fun _ => .dedent) else none
  | fuel + 1, layout, true, text => do
    let (indent, rest) ← measureIndent 0 {} text
    if isEmptyLine rest then scanFrom fuel layout true ((skipComment rest).drop 1)
    else if layout.brackets.isEmpty then do
      let (indents, tokens) ← changeIndent layout.indents indent
      let others ← scanFrom fuel { layout with indents } false rest
      some (tokens ++ others)
    else scanFrom fuel layout false rest
  | fuel + 1, layout, false, '\n' :: rest => do
    let others ← scanFrom fuel layout true rest
    some (if layout.brackets.isEmpty then .newline :: others else others)
  | fuel + 1, layout, false, text => do
    let step ← scanStep layout.brackets text
    let others ← scanFrom fuel { layout with brackets := step.brackets } false step.rest
    some (step.token.toList ++ others)

/-- The tokens of a text without null characters. -/
def scan (text : List Char) : Option (List Token) :=
  let text := closeLine (unifyEnds text)
  scanFrom (2 * text.length + 2) {} true text

end ModelMint.Source
