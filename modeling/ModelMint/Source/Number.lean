/-!
# Numbers

The numbers of the target language.  Underscores may part digits, a whole decimal number
other than zero does not start with zero, and no letter follows a number, unless it
starts a keyword that can stand there.
-/

namespace ModelMint.Source

def isWordStart (c : Char) : Bool := c.isAlpha || c == '_' || 128 ≤ c.toNat

def isWordChar (c : Char) : Bool := isWordStart c || c.isDigit

/-- Keywords that may follow a number with no blank between them. -/
def followingWords : List (List Char) :=
  ["and", "else", "for", "or", "not"].map String.toList

def startsWithWord (word text : List Char) : Bool :=
  word.isPrefixOf text && !(text.drop word.length).head?.any isWordChar

def endsNumber (rest : List Char) : Bool :=
  match rest with
  | 'i' :: 'f' :: _ | 'i' :: 'n' :: _ | 'i' :: 's' :: _ => true
  | c :: _ => !isWordChar c || followingWords.any (startsWithWord · rest)
  | [] => true

/-- What follows the digits that go on after a digit. -/
def decimalTail : List Char → Option (List Char)
  | [] => some []
  | '_' :: d :: rest => if d.isDigit then decimalTail rest else none
  | c :: rest =>
    if c.isDigit then decimalTail rest
    else if c == '_' then none
    else some (c :: rest)

/-- What follows the digits of a number to another base.  `after` says whether a digit came
just before. -/
def radixTail (isDigit : Char → Bool) (after : Bool) : List Char → Option (List Char)
  | [] => if after then some [] else none
  | '_' :: d :: rest => if isDigit d then radixTail isDigit true rest else none
  | c :: rest =>
    if isDigit c then radixTail isDigit true rest
    else if after && c != '_' then some (c :: rest)
    else none

def isHexDigit (c : Char) : Bool :=
  c.isDigit || ('a' ≤ c && c ≤ 'f') || ('A' ≤ c && c ≤ 'F')

def isOctalDigit (c : Char) : Bool := '0' ≤ c && c ≤ '7'

def isBinaryDigit (c : Char) : Bool := c == '0' || c == '1'

def endsAt (rest : List Char) : Option (List Char) := if endsNumber rest then some rest else none

def imaginaryEnd (rest : List Char) : Option (List Char) :=
  match rest with
  | 'j' :: rest | 'J' :: rest => endsAt rest
  | _ => endsAt rest

/-- An `e` that no digit follows is not part of the number. -/
def exponentEnd (rest : List Char) : Option (List Char) :=
  match rest with
  | e :: sign :: tail =>
    if e == 'e' || e == 'E' then
      if sign == '+' || sign == '-' then
        match tail with
        | d :: tail => if d.isDigit then (decimalTail tail).bind imaginaryEnd else none
        | [] => none
      else if sign.isDigit then (decimalTail tail).bind imaginaryEnd
      else endsAt rest
    else imaginaryEnd rest
  | _ => imaginaryEnd rest

/-- What follows the digits behind a point. -/
def fractionEnd (rest : List Char) : Option (List Char) :=
  match rest with
  | d :: tail => if d.isDigit then (decimalTail tail).bind exponentEnd else exponentEnd rest
  | [] => exponentEnd rest

/-- The most digits of a whole number other than zero. -/
def wholeDigits : Nat := 4300

/-- `digits` are those of the whole part. -/
def wholeEnd (digits rest : List Char) : Option (List Char) :=
  match rest with
  | '.' :: rest => fractionEnd rest
  | 'e' :: _ | 'E' :: _ => exponentEnd rest
  | 'j' :: _ | 'J' :: _ => imaginaryEnd rest
  | _ =>
    if digits.head? == some '0' then
      if digits.all (fun c => c == '0' || c == '_') then endsAt rest else none
    else if wholeDigits < (digits.filter Char.isDigit).length then none
    else endsAt rest

/-- What follows a number at the start of the text. -/
def numberEnd (text : List Char) : Option (List Char) :=
  match text with
  | '0' :: 'x' :: rest | '0' :: 'X' :: rest => (radixTail isHexDigit false rest).bind endsAt
  | '0' :: 'o' :: rest | '0' :: 'O' :: rest => (radixTail isOctalDigit false rest).bind endsAt
  | '0' :: 'b' :: rest | '0' :: 'B' :: rest => (radixTail isBinaryDigit false rest).bind endsAt
  | '.' :: rest => fractionEnd rest
  | d :: rest =>
    if d.isDigit then do
      let tail ← decimalTail rest
      wholeEnd (text.take (text.length - tail.length)) tail
    else none
  | [] => none

end ModelMint.Source
