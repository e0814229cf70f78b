import ModelMint.Json.Basic

/-!
# Reading documents

The grammar is JSON with three additions among the numbers: `NaN`, `Infinity` and
`-Infinity`.  White space is the blank, the tab and the two line ends; a string holds
no raw control character; nothing follows the value.  Of a repeated key the last value
counts, at the place of the first.
-/

namespace ModelMint.Json

inductive ReadError where
  | malformed
  | tooManyDigits
deriving DecidableEq, Repr

def skipSpace : List Char → List Char
  | ' ' :: rest | '\t' :: rest | '\n' :: rest | '\r' :: rest => skipSpace rest
  | rest => rest

/-! ## Strings -/

def hexDigit? (c : Char) : Option Nat :=
  if c.isDigit then some (c.toNat - '0'.toNat)
  else if 'a' ≤ c ∧ c ≤ 'f' then some (c.toNat - 'a'.toNat + 10)
  else if 'A' ≤ c ∧ c ≤ 'F' then some (c.toNat - 'A'.toNat + 10)
  else none

def hexWord? (a b c d : Char) : Option Nat := do
  let a ← hexDigit? a
  let b ← hexDigit? b
  let c ← hexDigit? c
  let d ← hexDigit? d
  some (((a * 16 + b) * 16 + c) * 16 + d)

def isHighSurrogate (code : Nat) : Bool := 0xD800 ≤ code && code < 0xDC00
def isLowSurrogate (code : Nat) : Bool := 0xDC00 ≤ code && code < 0xE000

def joinSurrogates (high low : Nat) : Nat :=
  0x10000 + (high - 0xD800) * 0x400 + (low - 0xDC00)

/-- A surrogate that stands alone is replaced. -/
def charOfUnit (code : Nat) : Char :=
  if isHighSurrogate code || isLowSurrogate code then Char.ofNat 0xFFFD else Char.ofNat code

def escaped? : Char → Option Char
  | '"' => some '"'
  | '\\' => some '\\'
  | '/' => some '/'
  | 'b' => some '\x08'
  | 'f' => some '\x0c'
  | 'n' => some '\n'
  | 'r' => some '\r'
  | 't' => some '\t'
  | _ => none

/-- The characters up to the closing quote, and what follows it. -/
def readString : List Char → Option (List Char × List Char)
  | [] => none
  | '"' :: rest => some ([], rest)
  | '\\' :: 'u' :: a :: b :: c :: d :: '\\' :: 'u' :: e :: f :: g :: h :: rest => do
    let first ← hexWord? a b c d
    match hexWord? e f g h with
    | some second =>
      if isHighSurrogate first && isLowSurrogate second then
        let (text, rest) ← readString rest
        some (Char.ofNat (joinSurrogates first second) :: text, rest)
      else
        let (text, rest) ← readString ('\\' :: 'u' :: e :: f :: g :: h :: rest)
        some (charOfUnit first :: text, rest)
    | none => none
  | '\\' :: 'u' :: a :: b :: c :: d :: rest => do
    let code ← hexWord? a b c d
    let (text, rest) ← readString rest
    some (charOfUnit code :: text, rest)
  | '\\' :: c :: rest => do
    let c ← escaped? c
    let (text, rest) ← readString rest
    some (c :: text, rest)
  | c :: rest =>
    if c.toNat < 32 then none
    else do
      let (text, rest) ← readString rest
      some (c :: text, rest)

/-! ## Numbers -/

def digitsValue (digits : List Char) : Nat :=
  digits.foldl (fun value c => 10 * value + (c.toNat - '0'.toNat)) 0

/-- The digits of a whole part: zero, or digits that do not start with zero. -/
def wholePart? (text : List Char) : Option (List Char × List Char) :=
  match text with
  | '0' :: rest => some (['0'], rest)
  | _ =>
    let digits := text.takeWhile Char.isDigit
    if digits.isEmpty then none else some (digits, text.drop digits.length)

def fractionPart (text : List Char) : List Char × List Char :=
  match text with
  | '.' :: rest =>
    let digits := rest.takeWhile Char.isDigit
    if digits.isEmpty then ([], text) else (digits, rest.drop digits.length)
  | _ => ([], text)

def signPart : List Char → Bool × List Char
  | '-' :: rest => (true, rest)
  | '+' :: rest => (false, rest)
  | rest => (false, rest)

def exponentPart (text : List Char) : Option Int × List Char :=
  match text with
  | 'e' :: rest | 'E' :: rest =>
    let (negative, tail) := signPart rest
    let digits := tail.takeWhile Char.isDigit
    if digits.isEmpty then (none, text)
    else
      let value : Int := digitsValue digits
      (some (if negative then -value else value), tail.drop digits.length)
  | _ => (none, text)

/-- The most digits of a whole number. -/
def digitLimit : Nat := 4300

def readNumber (negative : Bool) (text : List Char) : Except ReadError (Json × List Char) :=
  match wholePart? text with
  | none => .error .malformed
  | some (whole, rest) =>
    let (fraction, rest) := fractionPart rest
    let (power, rest) := exponentPart rest
    if fraction.isEmpty && power.isNone then
      if digitLimit < whole.length then .error .tooManyDigits
      else
        let value : Int := digitsValue whole
        .ok (.int (if negative then -value else value), rest)
    else
      let exponent := power.getD 0 - fraction.length
      .ok (.float (Binary64.ofDecimal negative (digitsValue (whole ++ fraction)) exponent), rest)

def readWord? (word : List Char) (text : List Char) : Option (List Char) :=
  if word.isPrefixOf text then some (text.drop word.length) else none

/-- The words that stand for values. -/
def words : List (List Char × Json) := [
  ("null".toList, .null), ("true".toList, .bool true), ("false".toList, .bool false),
  ("NaN".toList, .float .nan), ("Infinity".toList, .float (.infinite false)),
  ("-Infinity".toList, .float (.infinite true))
]

def readAtom (text : List Char) : Except ReadError (Json × List Char) :=
  match words.findSome? fun (word, value) => (readWord? word text).map (value, ·) with
  | some found => .ok found
  | none => match text with
    | '-' :: rest => readNumber true rest
    | _ => readNumber false text

/-! ## Values -/

mutual

/-- Each nested value takes at least one character, so the length of the text is fuel enough. -/
def readValue : Nat → List Char → Except ReadError (Json × List Char)
  | 0, _ => .error .malformed
  | fuel + 1, text => match text with
    | '"' :: rest => match readString rest with
      | some (value, rest) => .ok (.str (String.ofList value), rest)
      | none => .error .malformed
    | '[' :: rest => match skipSpace rest with
      | ']' :: rest => .ok (.arr [], rest)
      | rest => do
        let (items, rest) ← readItems fuel rest
        .ok (.arr items, rest)
    | '\x7b' :: rest => match skipSpace rest with
      | '\x7d' :: rest => .ok (.obj [], rest)
      | rest => do
        let (members, rest) ← readMembers fuel rest
        .ok (.obj (Entries.ofList members), rest)
    | _ => readAtom text

def readItems : Nat → List Char → Except ReadError (List Json × List Char)
  | 0, _ => .error .malformed
  | fuel + 1, text => do
    let (item, rest) ← readValue fuel (skipSpace text)
    match skipSpace rest with
    | ']' :: rest => .ok ([item], rest)
    | ',' :: rest =>
      let (items, rest) ← readItems fuel rest
      .ok (item :: items, rest)
    | _ => .error .malformed

def readMembers : Nat → List Char → Except ReadError (List (String × Json) × List Char)
  | 0, _ => .error .malformed
  | fuel + 1, text => match skipSpace text with
    | '"' :: rest => match readString rest with
      | none => .error .malformed
      | some (key, rest) => match skipSpace rest with
        | ':' :: rest => do
          let (value, rest) ← readValue fuel (skipSpace rest)
          match skipSpace rest with
          | '\x7d' :: rest => .ok ([(String.ofList key, value)], rest)
          | ',' :: rest =>
            let (members, rest) ← readMembers fuel rest
            .ok ((String.ofList key, value) :: members, rest)
          | _ => .error .malformed
        | _ => .error .malformed
    | _ => .error .malformed

end

/-- The whole text as one document. -/
def read (text : List Char) : Except ReadError Json := do
  let (value, rest) ← readValue (text.length + 1) (skipSpace text)
  match skipSpace rest with
  | [] => .ok value
  | _ => .error .malformed

end ModelMint.Json
