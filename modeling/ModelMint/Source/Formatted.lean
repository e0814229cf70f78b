import ModelMint.Source.Scan

/-!
# Formatted texts

The body of a formatted text is literal text with replacement fields in braces.  A
double brace stands for one, outside of format specifications.  A field holds an
expression, and then perhaps a mark to show its text, a conversion and a format.
-/

namespace ModelMint.Source

/-- Literal text up to a field or, within a format, up to the closing brace.  `inName` holds
inside the name of a character. -/
def scanLiteral (raw nested inName : Bool) : List Char → Option (List Char × List Char)
  | [] => some ([], [])
  | c :: rest =>
    let keep (found : Option (List Char × List Char)) : Option (List Char × List Char) :=
      found.map fun (literal, rest) => (c :: literal, rest)
    if inName then keep (scanLiteral raw nested (c != '\x7d') rest)
    else if c == '\\' && !raw then
      match rest with
      | 'N' :: '\x7b' :: tail =>
        (scanLiteral raw nested true tail).map fun (literal, rest) =>
          ('\\' :: 'N' :: '\x7b' :: literal, rest)
      | d :: tail =>
        if d == '\x7b' || d == '\x7d' then keep (scanLiteral raw nested false (d :: tail))
        else (scanLiteral raw nested false tail).map fun (literal, rest) =>
          (c :: d :: literal, rest)
      | [] => some ([c], [])
    else if c == '\x7b' || c == '\x7d' then
      match nested, rest with
      | true, _ => some ([], c :: rest)
      | false, d :: tail =>
        if d == c then keep (scanLiteral raw nested false tail)
        else if c == '\x7d' then none
        else some ([], c :: rest)
      | false, [] => if c == '\x7d' then none else some ([], c :: rest)
    else keep (scanLiteral raw nested false rest)

/-- A quoted text within the expression of a field. -/
structure FieldText where
  quote : Char
  block : Bool

/-- The expression of a field, up to the character that ends it.  `brackets` are to be closed,
`skip` characters belong to a mark that was read. -/
def scanField (brackets : List Char) (inside : Option FieldText) (skip : Nat) :
    List Char → Option (List Char × List Char)
  | [] => none
  | c :: rest =>
    let keep (found : Option (List Char × List Char)) : Option (List Char × List Char) :=
      found.map fun (expression, rest) => (c :: expression, rest)
    match skip with
    | skip + 1 => keep (scanField brackets inside skip rest)
    | 0 =>
      if c == '\\' then none
      else match inside with
        | some text =>
          if c != text.quote then keep (scanField brackets inside 0 rest)
          else if !text.block then keep (scanField brackets none 0 rest)
          else if [c, c].isPrefixOf rest then keep (scanField brackets none 2 rest)
          else keep (scanField brackets inside 0 rest)
        | none =>
          if c == '"' || c == '\'' then
            if [c, c].isPrefixOf rest then keep (scanField brackets (some ⟨c, true⟩) 2 rest)
            else keep (scanField brackets (some ⟨c, false⟩) 0 rest)
          else if (closing? c).isSome || (!brackets.isEmpty && isClosing c) then
            match nestBrackets brackets [c] with
            | some brackets => keep (scanField brackets none 0 rest)
            | none => none
          else if c == '#' then none
          else if !brackets.isEmpty then keep (scanField brackets none 0 rest)
          else if ['!', '=', '<', '>'].contains c && rest.head? == some '=' then
            keep (scanField brackets none 1 rest)
          else if ['!', '=', ':', '\x7d'].contains c then some ([], c :: rest)
          else if isClosing c then none
          else keep (scanField brackets none 0 rest)

/-- The text from a field's expression to its format, as far as it can be read without reading
expressions. -/
structure Field where
  expression : List Char
  /-- What starts with the colon of a format or the closing brace. -/
  rest : List Char

def isSpace (c : Char) : Bool := c == ' ' || (9 ≤ c.toNat && c.toNat ≤ 13)

/-- An expression may be shown with its text, and converted in one of three ways. -/
def scanConversion (rest : List Char) : Option (List Char) :=
  let rest := match rest with
    | '=' :: rest => rest.dropWhile isSpace
    | rest => rest
  match rest with
  | '!' :: c :: rest =>
    if ['s', 'r', 'a'].contains c && (rest.head? == some ':' || rest.head? == some '\x7d') then
      some rest
    else none
  | rest => some rest

def readField (text : List Char) : Option Field := do
  let (expression, rest) ← scanField [] none 0 text
  if expression.all (fun c => [' ', '\t', '\n', '\x0c'].contains c) then none
  let rest ← scanConversion rest
  some ⟨expression, rest⟩

end ModelMint.Source
