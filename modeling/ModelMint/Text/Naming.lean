import ModelMint.Text.Identifier

/-!
# Names

Three names are made from the free names of a schema: the attribute of a property,
in lower case with underscores between words; the name prefix of its constants, in
upper case; and the word that a constant's value contributes.  All keep ASCII letters
and digits only.
-/

namespace ModelMint.Text

/-- Every run of characters other than ASCII letters and digits becomes one underscore. -/
def collapse : List Char → List Char
  | [] => []
  | c :: rest =>
    if c.isAlphanum then c :: collapse rest
    else match rest with
      | [] => ['_']
      | d :: _ => if d.isAlphanum then '_' :: collapse rest else collapse rest

/-! ## Constants -/

/-- An underscore before every capital but the first character. -/
def markCapitals : List Char → List Char
  | [] => []
  | c :: rest => c :: rest.flatMap fun d => if d.isUpper then ['_', d] else [d]

def highSnakeCase (name : List Char) : List Char :=
  (collapse (markCapitals name)).map Char.toUpper

/-- A name that would start with a digit gets an underscore in front. -/
def constantPrefix (name : List Char) : List Char :=
  let body := highSnakeCase name
  match body with
  | c :: _ => if c.isDigit then '_' :: body else body
  | [] => []

/-! ## Attributes -/

/-- Words part before a capital that follows a small letter or a digit, and before the last of
several capitals if a small letter follows it. -/
def startsWord (before here : Char) (after : Option Char) : Bool :=
  here.isUpper && (before.isLower || before.isDigit ||
    (before.isUpper && after.any Char.isLower))

def markWords : List Char → List Char
  | [] => []
  | [c] => [c]
  | before :: here :: rest =>
    if startsWord before here rest.head? then before :: '_' :: markWords (here :: rest)
    else before :: markWords (here :: rest)

def stripUnderscores (text : List Char) : List Char :=
  ((text.dropWhile (· == '_')).reverse.dropWhile (· == '_')).reverse

def snakeCase (name : List Char) : List Char :=
  let words := (stripUnderscores (collapse (markWords name))).map Char.toLower
  let body := if words.isEmpty then "field".toList else words
  let body := if body.head?.any Char.isDigit then '_' :: body else body
  if isKeyword body then body ++ ['_'] else body

/-- Names that an attribute may not take beside the reserved words: the receiver of an accessor
and the export of an instance. -/
def reservedAttributes : List String := ["self", "to_dict"]

def attributeName (name : List Char) : List Char :=
  let body := snakeCase name
  if reservedAttributes.any (·.toList == body) then body ++ ['_'] else body

end ModelMint.Text
