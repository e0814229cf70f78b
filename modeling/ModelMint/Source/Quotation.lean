import ModelMint.Source.Token

/-!
# Quoted texts in source

A quoted text ends at the first quote like its own, or at the first three together, that
no backslash takes away.  Its value is its body with the escapes worked out; an escape
that is not complete makes the source invalid, and an unknown one stands for itself.
-/

namespace ModelMint.Source

/-! ## The body -/

/-- The body of a text in single quotes, which ends on its line, and what follows it. -/
def scanLine (quote : Char) : List Char → Option (List Char × List Char)
  | [] => none
  | '\\' :: c :: rest => (scanLine quote rest).map fun (body, rest) => ('\\' :: c :: body, rest)
  | c :: rest =>
    if c == quote then some ([], rest)
    else if c == '\n' then none
    else (scanLine quote rest).map fun (body, rest) => (c :: body, rest)

/-- The body of a text in triple quotes. -/
def scanBlock (quote : Char) : List Char → Option (List Char × List Char)
  | [] => none
  | '\\' :: c :: rest => (scanBlock quote rest).map fun (body, rest) => ('\\' :: c :: body, rest)
  | c :: rest =>
    if c == quote && [quote, quote].isPrefixOf rest then some ([], rest.drop 2)
    else (scanBlock quote rest).map fun (body, rest) => (c :: body, rest)

/-- The text starts behind the first quote. -/
def scanQuoted (quote : Char) (text : List Char) : Option (List Char × List Char) :=
  match text with
  | c :: d :: rest =>
    if c == quote && d == quote then scanBlock quote rest
    else scanLine quote text
  | _ => scanLine quote text

/-! ## Escapes -/

def hexValue? (c : Char) : Option Nat :=
  if c.isDigit then some (c.toNat - 48)
  else if 'a' ≤ c && c ≤ 'f' then some (c.toNat - 87)
  else if 'A' ≤ c && c ≤ 'F' then some (c.toNat - 55)
  else none

def hexNumber? (digits : List Char) : Option Nat :=
  digits.foldlM (fun value c => (hexValue? c).map (16 * value + ·)) 0

/-- A code point that is no character of its own is replaced. -/
def charOfCode (code : Nat) : Char :=
  if 0xD800 ≤ code && code < 0xE000 then Char.ofNat 0xFFFD else Char.ofNat code

/-- The escapes of one letter. -/
def letterEscape? : Char → Option Char
  | '\\' => some '\\'
  | '\'' => some '\''
  | '"' => some '"'
  | 'a' => some '\x07'
  | 'b' => some '\x08'
  | 'f' => some '\x0c'
  | 'n' => some '\n'
  | 'r' => some '\r'
  | 't' => some '\t'
  | 'v' => some '\x0b'
  | _ => none

def octalDigits (text : List Char) : List Char :=
  (text.take 3).takeWhile fun c => '0' ≤ c && c ≤ '7'

def octalValue (digits : List Char) : Nat :=
  digits.foldl (fun value c => 8 * value + (c.toNat - 48)) 0

/-- Letters of the names of characters. -/
def isCharacterName (name : List Char) : Bool :=
  !name.isEmpty && name.all fun c => c.isAlphanum || c == ' ' || c == '-'

/-- The character of an escape that starts behind the backslash, and how long the escape is. -/
def escape? (bytes : Bool) (text : List Char) : Option (List Char × Nat) :=
  let ofHex (width : Nat) : Option (List Char × Nat) := do
    let digits := (text.drop 1).take width
    if digits.length < width then none
    let code ← hexNumber? digits
    if 0x10FFFF < code then none else some ([charOfCode code], width + 1)
  match text with
  | [] => some (['\\'], 0)
  | '\n' :: _ => some ([], 1)
  | 'x' :: _ => ofHex 2
  | c :: rest =>
    if !bytes && c == 'u' then ofHex 4
    else if !bytes && c == 'U' then ofHex 8
    else if !bytes && c == 'N' then
      match rest with
      | '\x7b' :: rest =>
        let name := rest.takeWhile (· != '\x7d')
        if name.length < rest.length && isCharacterName name then
          some ([Char.ofNat 0xFFFD], name.length + 3)
        else none
      | _ => none
    else match letterEscape? c with
      | some value => some ([value], 1)
      | none =>
        let digits := octalDigits text
        if digits.isEmpty then some (['\\', c], 1)
        else some ([charOfCode (octalValue digits)], digits.length)

/-- The value of a body; `skip` characters belong to the escape before. -/
def decodeFrom (bytes : Bool) (skip : Nat) : List Char → Option (List Char)
  | [] => some []
  | c :: rest => match skip with
    | skip + 1 => decodeFrom bytes skip rest
    | 0 =>
      if c == '\\' then do
        let (value, length) ← escape? bytes rest
        let tail ← decodeFrom bytes length rest
        some (value ++ tail)
      else (decodeFrom bytes 0 rest).map (c :: ·)

/-- Bytes hold ASCII characters only, and a raw text has no escapes. -/
def decode (kind : TextKind) (body : List Char) : Option (List Char) :=
  if kind.bytes && body.any (fun c => 128 ≤ c.toNat) then none
  else if kind.raw then some body
  else decodeFrom kind.bytes 0 body

end ModelMint.Source
