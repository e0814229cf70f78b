/-!
# Double-precision numbers, exactly

A finite double is a sign, a mantissa and a power of two.  Reading a decimal rounds
the exact quotient to the nearest double, a tie to the even mantissa; no machine
arithmetic is involved.
-/

namespace ModelMint

/-- The finite value is `mantissa * 2 ^ exponent`; zero keeps its sign. -/
inductive Binary64 where
  | nan
  | infinite (negative : Bool)
  | finite (negative : Bool) (mantissa : Nat) (exponent : Int)
deriving DecidableEq, Repr

namespace Binary64

/-- The one form of each finite value: a full mantissa, or the least exponent. -/
def Canonical : Binary64 → Prop
  | .finite _ mantissa exponent =>
    mantissa < Nat.pow 2 53 ∧ -1074 ≤ exponent ∧ exponent ≤ 971 ∧
      (Nat.pow 2 52 ≤ mantissa ∨ exponent = -1074)
  | _ => True

/-! ## Rounding a quotient -/

/-- The nearest whole number to `num / den`, of two the even one. -/
def roundDiv (num den : Nat) : Nat :=
  let quotient := num / den
  let rest := num % den
  if 2 * rest < den || (2 * rest == den && quotient % 2 == 0) then quotient else quotient + 1

/-- `num / den` in units of `2 ^ exponent`, again as a quotient. -/
def inUnits (num den : Nat) : Int → Nat × Nat
  | .ofNat k => (num, den * Nat.pow 2 k)
  | .negSucc k => (num * Nat.pow 2 (k + 1), den)

/-- The exponent for which the quotient has 53 binary digits before the point. -/
def unitExponent (num den : Nat) : Int :=
  let guess : Int := (Nat.log2 num : Int) - Nat.log2 den - 52
  let (n, d) := inUnits num den guess
  if n < d * Nat.pow 2 52 then guess - 1 else guess

/-- Exponents above the greatest give infinity. -/
def bounded (negative : Bool) (mantissa : Nat) (exponent : Int) : Binary64 :=
  if 971 < exponent then .infinite negative else .finite negative mantissa exponent

def ofRatio (negative : Bool) (num den : Nat) : Binary64 :=
  if num = 0 then .finite negative 0 (-1074)
  else
    let exponent := max (unitExponent num den) (-1074)
    let (n, d) := inUnits num den exponent
    let mantissa := roundDiv n d
    if mantissa = Nat.pow 2 53 then bounded negative (Nat.pow 2 52) (exponent + 1)
    else bounded negative mantissa exponent

/-! ## Decimals -/

/-- `digits * 10 ^ exponent` as a quotient. -/
def decimalRatio (digits : Nat) : Int → Nat × Nat
  | .ofNat k => (digits * Nat.pow 10 k, 1)
  | .negSucc k => (digits, Nat.pow 10 (k + 1))

/-- The double nearest to `digits * 10 ^ exponent`.  Far outside the range the answer is
infinity or zero without working out the power. -/
def ofDecimal (negative : Bool) (digits : Nat) (exponent : Int) : Binary64 :=
  let length : Int := (Nat.repr digits).length
  if digits = 0 then .finite negative 0 (-1074)
  else if 400 < exponent + length then .infinite negative
  else if exponent + length < -400 then .finite negative 0 (-1074)
  else
    let (num, den) := decimalRatio digits exponent
    ofRatio negative num den

def negate : Binary64 → Binary64
  | .nan => .nan
  | .infinite negative => .infinite !negative
  | .finite negative mantissa exponent => .finite (!negative) mantissa exponent

/-! ## Order -/

/-- A number on the extended line, as a whole multiple of a power of two. -/
inductive Point where
  | undefined
  | endpoint (negative : Bool)
  | dyadic (multiple : Int) (exponent : Int)

def point : Binary64 → Point
  | .nan => .undefined
  | .infinite negative => .endpoint negative
  | .finite negative mantissa exponent =>
    .dyadic (if negative then -(mantissa : Int) else mantissa) exponent

/-- Exact; `none` where one side is undefined. -/
def Point.compare : Point → Point → Option Ordering
  | .undefined, _ => none
  | _, .undefined => none
  | .endpoint a, .endpoint b =>
    some (if a == b then .eq else if a then .lt else .gt)
  | .endpoint a, .dyadic .. => some (if a then .lt else .gt)
  | .dyadic .., .endpoint b => some (if b then .gt else .lt)
  | .dyadic m e, .dyadic n f =>
    let least := min e f
    some (Ord.compare (m * Int.ofNat (Nat.pow 2 (e - least).toNat))
      (n * Int.ofNat (Nat.pow 2 (f - least).toNat)))

end Binary64

end ModelMint
