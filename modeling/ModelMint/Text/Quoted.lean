import ModelMint.Text.Printable

/-!
# Quoted text

Two quoted forms.  The shown form is for messages: single quotes, or double quotes
when the text has single ones only, and an escape for each character that is not
printable.  The written form is for source text: double quotes, and an escape only
where the character could not stand for itself.
-/

namespace ModelMint.Text

def hexDigit (value : Nat) : Char :=
  if value < 10 then Char.ofNat ('0'.toNat + value) else Char.ofNat ('a'.toNat + (value - 10))

/-- The last `width` hexadecimal digits. -/
def hexDigits : Nat → Nat → List Char
  | 0, _ => []
  | width + 1, value => hexDigits width (value / 16) ++ [hexDigit (value % 16)]

/-! ## The shown form -/

/-- The escape of a code point, as short as it can be. -/
def codeEscape (code : Nat) : List Char :=
  if code < 0x100 then '\\' :: 'x' :: hexDigits 2 code
  else if code < 0x10000 then '\\' :: 'u' :: hexDigits 4 code
  else '\\' :: 'U' :: hexDigits 8 code

def showChar (mark : Char) (c : Char) : List Char :=
  if c == mark || c == '\\' then ['\\', c]
  else if c == '\n' then ['\\', 'n']
  else if c == '\r' then ['\\', 'r']
  else if c == '\t' then ['\\', 't']
  else if isPrintable c then [c]
  else codeEscape c.toNat

def quoteMark (text : List Char) : Char :=
  if text.contains '\'' && !text.contains '"' then '"' else '\''

def shown (text : List Char) : List Char :=
  let mark := quoteMark text
  mark :: (text.flatMap (showChar mark) ++ [mark])

/-! ## The written form -/

def writeChar (c : Char) : List Char :=
  if c == '"' || c == '\\' then ['\\', c]
  else if c == '\n' then ['\\', 'n']
  else if c == '\r' then ['\\', 'r']
  else if c == '\t' then ['\\', 't']
  else if c == '\x08' then ['\\', 'b']
  else if c == '\x0c' then ['\\', 'f']
  else if c.toNat < 32 then '\\' :: 'u' :: hexDigits 4 c.toNat
  else [c]

def written (text : List Char) : List Char :=
  '"' :: (text.flatMap writeChar ++ ['"'])

end ModelMint.Text
