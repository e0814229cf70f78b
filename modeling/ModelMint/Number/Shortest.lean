import ModelMint.Number.Binary64

/-!
# The shortest decimal of a double

A finite double is written with the fewest digits that read back as the same
double; of the decimals with so many digits that do, the nearest is taken, and of
two equally near the one with the even last digit.  Seventeen digits always do.
-/

namespace ModelMint

/-- The value `digits * 10 ^ exponent`. -/
structure Decimal where
  digits : Nat
  exponent : Int
deriving DecidableEq, Repr

namespace Binary64

/-- The exact value of a mantissa and a power of two as a quotient. -/
def ratio (mantissa : Nat) : Int → Nat × Nat
  | .ofNat k => (mantissa * Nat.pow 2 k, 1)
  | .negSucc k => (mantissa, Nat.pow 2 (k + 1))

/-- The number `k` with `10 ^ (k - 1) ≤ num / den < 10 ^ k`, for quotients above `10 ^ -340`. -/
def magnitude (num den : Nat) : Int :=
  (Nat.repr (num * Nat.pow 10 340 / den)).length - 340

/-- `num / den` in units of `10 ^ place`, as a quotient. -/
def inPlaces (num den : Nat) : Int → Nat × Nat
  | .ofNat k => (num, den * Nat.pow 10 k)
  | .negSucc k => (num * Nat.pow 10 (k + 1), den)

/-- The neighbours of the value on the grid of a place, the nearer one first. -/
def neighbours (num den : Nat) (place : Int) : List Nat :=
  let (n, d) := inPlaces num den place
  let below := n / d
  if Binary64.roundDiv n d = below then [below, below + 1] else [below + 1, below]

/-- The nearest decimal with `count` digits that reads back, if one does. -/
def withDigits? (mantissa : Nat) (exponent : Int) (count : Nat) : Option Decimal :=
  let (num, den) := ratio mantissa exponent
  let place := magnitude num den - count
  ((neighbours num den place).find? fun digits =>
    ofDecimal false digits place == .finite false mantissa exponent).map (⟨·, place⟩)

/-- Every digit of the value: a power of two divides a power of ten. -/
def allDigits (mantissa : Nat) : Int → Decimal
  | .ofNat k => ⟨mantissa * Nat.pow 2 k, 0⟩
  | .negSucc k => ⟨mantissa * Nat.pow 5 (k + 1), -(k + 1 : Nat)⟩

def shortest (mantissa : Nat) (exponent : Int) : Decimal :=
  ((List.range 17).findSome? fun n => withDigits? mantissa exponent (n + 1)).getD
    (allDigits mantissa exponent)

end Binary64

/-! ## Writing -/

/-- How decimals are written: where the positional form starts and ends, and the least number
of digits of an exponent. -/
structure DecimalStyle where
  leastPoint : Int
  greatestPoint : Int
  exponentDigits : Nat

/-- Positional from four zeros behind the point to sixteen digits before it. -/
def DecimalStyle.standard : DecimalStyle := ⟨-3, 16, 2⟩

def padLeft (count : Nat) (digits : List Char) : List Char :=
  List.replicate (count - digits.length) '0' ++ digits

/-- The decimal `0.d₁d₂… * 10 ^ point` in the given style. -/
def DecimalStyle.write (style : DecimalStyle) (digits : List Char) (point : Int) : List Char :=
  if style.leastPoint ≤ point ∧ point ≤ style.greatestPoint then
    match point with
    | .ofNat 0 => '0' :: '.' :: digits
    | .ofNat before =>
      if digits.length ≤ before then
        digits ++ List.replicate (before - digits.length) '0' ++ ['.', '0']
      else digits.take before ++ '.' :: digits.drop before
    | .negSucc zeros => '0' :: '.' :: (List.replicate (zeros + 1) '0' ++ digits)
  else
    let head := digits.take 1 ++ (if digits.length ≤ 1 then [] else '.' :: digits.drop 1)
    let power := point - 1
    let sign := if power < 0 then '-' else '+'
    head ++ 'e' :: sign :: padLeft style.exponentDigits (Nat.repr power.natAbs).toList

/-- Digits without the zeros at their end. -/
def trimZeros (digits : List Char) : List Char :=
  (digits.reverse.dropWhile (· == '0')).reverse

def Binary64.text : Binary64 → List Char
  | .nan => "nan".toList
  | .infinite negative => if negative then "-inf".toList else "inf".toList
  | .finite negative mantissa exponent =>
    let body :=
      if mantissa = 0 then DecimalStyle.standard.write ['0'] 1
      else
        let decimal := shortest mantissa exponent
        let digits := (Nat.repr decimal.digits).toList
        DecimalStyle.standard.write (trimZeros digits) (decimal.exponent + digits.length)
    if negative then '-' :: body else body

end ModelMint
