import ModelMint.Moment.Basic

/-!
# Reading moments

A text is a date, and perhaps one character of any kind and a time.  A date is written
`YYYY-MM-DD`, `YYYYMMDD`, `YYYY-Www`, `YYYY-Www-D`, `YYYYWww` or `YYYYWwwD`; a time has
hours, minutes and seconds as far as given, a fraction, and an offset.  Digits are the
ASCII ones.
-/

namespace ModelMint.Moment

def digit? (c : Char) : Option Nat :=
  if c.isDigit then some (c.toNat - '0'.toNat) else none

/-- The number written by all the characters, each a digit. -/
def number? (digits : List Char) : Option Nat :=
  digits.foldlM (fun value c => (digit? c).map (10 * value + ·)) 0

/-- A number of exactly `count` digits, and the rest. -/
def readDigits? (count : Nat) (text : List Char) : Option (Nat × List Char) :=
  if text.length < count then none
  else (number? (text.take count)).map (·, text.drop count)

/-! ## Dates -/

/-- How many characters the date takes.  A week date in the short form may be followed by digits
of the time: an even number of digits in all means that no day of the week is among them. -/
def dateLength (text : List Char) : Nat :=
  match text with
  | _ :: _ :: _ :: _ :: '-' :: 'W' :: _ :: _ :: '-' :: _ :: next :: _ =>
    if next.isDigit then 8 else 10
  | _ :: _ :: _ :: _ :: '-' :: 'W' :: _ :: _ :: '-' :: _ => 10
  | _ :: _ :: _ :: _ :: '-' :: 'W' :: _ => 8
  | _ :: _ :: _ :: _ :: '-' :: _ => 10
  | _ :: _ :: _ :: _ :: 'W' :: _ :: _ :: rest =>
    let digits := (rest.takeWhile Char.isDigit).length
    if digits < 2 then 7 + digits else if digits % 2 == 1 then 7 else 8
  | _ => 8

def readDate? (text : List Char) : Option (Nat × Nat × Nat) := do
  let (year, rest) ← readDigits? 4 text
  match rest with
  | '-' :: 'W' :: rest => do
    let (week, rest) ← readDigits? 2 rest
    match rest with
    | [] => ofWeek? year week 1
    | '-' :: rest => do
      let (day, _) ← readDigits? 1 rest
      ofWeek? year week day
    | _ => none
  | 'W' :: rest => do
    let (week, rest) ← readDigits? 2 rest
    match rest with
    | [] => ofWeek? year week 1
    | _ => do
      let (day, _) ← readDigits? 1 rest
      ofWeek? year week day
  | '-' :: rest => do
    let (month, rest) ← readDigits? 2 rest
    match rest with
    | '-' :: rest => do
      let (day, _) ← readDigits? 2 rest
      if isDate year month day then some (year, month, day) else none
    | _ => none
  | rest => do
    let (month, rest) ← readDigits? 2 rest
    let (day, _) ← readDigits? 2 rest
    if isDate year month day then some (year, month, day) else none

/-! ## Times -/

structure Clock where
  hour : Nat := 0
  minute : Nat := 0
  second : Nat := 0
  microsecond : Nat := 0
  /-- Whether the text ends with the clock: nothing stands behind it but one null character. -/
  clean : Bool := true

def endsClean (rest : List Char) : Bool := rest.head?.all (· == '\x00')

/-- Up to six digits count; those behind them are passed over. -/
def readFraction? (text : List Char) : Option (Nat × Bool) :=
  if text.length < 6 then
    (number? text).map fun value => (value * Nat.pow 10 (6 - text.length), true)
  else
    (number? (text.take 6)).map fun value =>
      (value, endsClean ((text.drop 6).dropWhile Char.isDigit))

/-- What stands behind two digits of a time. -/
inductive Follow where
  | finished (clean : Bool)
  | fraction (text : List Char)
  | next (text : List Char)

/-- `colons` says whether the parts are parted by colons.  One last ASCII character that starts
nothing is left to the caller to refuse. -/
def follow? (colons : Bool) : List Char → Option Follow
  | [] => some (.finished true)
  | [c] => if c.toNat < 128 then some (.finished (c == '\x00')) else none
  | ':' :: rest => some (if colons then .next rest else .next (':' :: rest))
  | '.' :: rest | ',' :: rest => some (.fraction rest)
  | rest => if colons then none else some (.next rest)

def readClock? (text : List Char) : Option Clock := do
  let (hour, rest) ← readDigits? 2 text
  let colons := rest.head? == some ':'
  let close (clock : Clock) (rest : List Char) : Option Clock :=
    (readFraction? rest).map fun (microsecond, clean) => { clock with microsecond, clean }
  match ← follow? colons rest with
  | .finished clean => some { hour, clean }
  | .fraction rest => close { hour } rest
  | .next rest => do
    let (minute, rest) ← readDigits? 2 rest
    match ← follow? colons rest with
    | .finished clean => some { hour, minute, clean }
    | .fraction rest => close { hour, minute } rest
    | .next rest => do
      let (second, rest) ← readDigits? 2 rest
      match ← follow? colons rest with
      | .finished clean => some { hour, minute, second, clean }
      | .fraction rest | .next rest => close { hour, minute, second } rest

def isOffsetMark (c : Char) : Bool := c == '+' || c == '-' || c == 'Z'

def Clock.isTimeOfDay (clock : Clock) : Bool :=
  clock.hour < 24 && clock.minute < 60 && clock.second < 60

def Clock.seconds (clock : Clock) : Nat :=
  (clock.hour * 60 + clock.minute) * 60 + clock.second

/-- Less than a day to either side; an offset of no whole second is none at all. -/
def Clock.toOffset? (negative : Bool) (clock : Clock) : Option Int :=
  let size := clock.seconds * 1000000 + clock.microsecond
  if clock.seconds = 0 then some 0
  else if size < 24 * 60 * 60 * 1000000 then some (if negative then -(size : Int) else size)
  else none

def readOffset? (mark : Char) (rest : List Char) : Option Int :=
  if mark == 'Z' then (if endsClean rest then some 0 else none)
  else do
    let clock ← readClock? rest
    if clock.clean then clock.toOffset? (mark == '-') else none

def readTime? (text : List Char) : Option (Clock × Option Int) := do
  let clock ← readClock? (text.takeWhile (!isOffsetMark ·))
  match text.dropWhile (!isOffsetMark ·) with
  | [] => if clock.clean then some (clock, none) else none
  | mark :: rest => do
    let offset ← readOffset? mark rest
    some (clock, some offset)

def read? (text : List Char) : Option Moment := do
  if text.length < 7 then none
  let length := dateLength text
  let (year, month, day) ← readDate? (text.take length)
  let (clock, offset) ← match text.drop length with
    | [] => some ({}, none)
    | _ :: time => readTime? time
  if clock.isTimeOfDay then
    if isDate year month day then
      some ⟨year, month, day, clock.hour, clock.minute, clock.second, clock.microsecond, offset⟩
    else none
  else none

end ModelMint.Moment
