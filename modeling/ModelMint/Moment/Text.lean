import ModelMint.Moment.Basic

/-!
# Moments as text

Two forms: the date and the time with a mark between them, and the form in which
messages show a moment as a value.
-/

namespace ModelMint.Moment

/-- At least `width` digits. -/
def padded (width value : Nat) : List Char :=
  let digits := (Nat.repr value).toList
  List.replicate (width - digits.length) '0' ++ digits

/-- Hours and minutes; seconds and microseconds as far as they say anything. -/
def offsetText (offset : Int) : List Char :=
  let size := offset.natAbs
  let seconds := size / 1000000
  let microseconds := size % 1000000
  let sign := if offset < 0 then '-' else '+'
  sign :: padded 2 (seconds / 3600) ++ ':' :: padded 2 (seconds / 60 % 60) ++
    (if seconds % 60 = 0 ∧ microseconds = 0 then [] else ':' :: padded 2 (seconds % 60)) ++
    (if microseconds = 0 then [] else '.' :: padded 6 microseconds)

def textWith (mark : Char) (moment : Moment) : List Char :=
  padded 4 moment.year ++ '-' :: padded 2 moment.month ++ '-' :: padded 2 moment.day ++
    mark :: padded 2 moment.hour ++ ':' :: padded 2 moment.minute ++
    ':' :: padded 2 moment.second ++
    (if moment.microsecond = 0 then [] else '.' :: padded 6 moment.microsecond) ++
    (moment.offset.map offsetText).getD []

def isoText (moment : Moment) : List Char := textWith 'T' moment

def plain (moment : Moment) : List Char := textWith ' ' moment

/-! ## The shown form -/

def numberText (value : Int) : List Char :=
  if value < 0 then '-' :: (Nat.repr value.natAbs).toList else (Nat.repr value.natAbs).toList

def joined (parts : List (List Char)) : List Char := [',', ' '].intercalate parts

/-- Only the number of days is ever negative, and parts that are zero are left out. -/
def spanText (span : Int) : List Char :=
  let seconds := Int.fdiv span 1000000
  let parts := [("days=", Int.fdiv seconds 86400), ("seconds=", Int.fmod seconds 86400),
    ("microseconds=", Int.fmod span 1000000)].filter (·.2 ≠ 0)
  let shown := parts.map fun (label, value) => label.toList ++ numberText value
  "datetime.timedelta(".toList ++ joined shown ++ [')']

def zoneText (offset : Int) : List Char :=
  if offset = 0 then "datetime.timezone.utc".toList
  else "datetime.timezone(".toList ++ spanText offset ++ [')']

/-- Seconds and microseconds are left out while there are none behind them. -/
def shown (moment : Moment) : List Char :=
  let clock :=
    if moment.microsecond ≠ 0 then [moment.second, moment.microsecond]
    else if moment.second ≠ 0 then [moment.second]
    else []
  let numbers := [moment.year, moment.month, moment.day, moment.hour, moment.minute] ++ clock
  let zone := (moment.offset.map fun offset => "tzinfo=".toList ++ zoneText offset).toList
  "datetime.datetime(".toList ++
    joined (numbers.map (fun value => (Nat.repr value).toList) ++ zone) ++ [')']

end ModelMint.Moment
