import ModelMint.Fault

/-!
# Refusals

Why a value is not taken: it violates a constraint of its field, or the operation could
not be carried out.  Values come shown.
-/

namespace ModelMint

inductive Violation where
  | outOfBounds (isLength : Bool) (value : String) (minimum maximum : Option String)
  | wrongElement (index : Nat) (expected actual : String)
  | notListed (value : String) (choices : List String)
  | notADate (value : String)
deriving DecidableEq, Repr

def Violation.message : Violation → String
  | .outOfBounds isLength value minimum maximum =>
    (if isLength then "array length " else "value ") ++ value ++ " is outside the bounds [" ++
      minimum.getD "-inf" ++ ", " ++ maximum.getD "inf" ++ "]"
  | .wrongElement index expected actual =>
    "item [" ++ toString index ++ "] must be a " ++ expected ++ " instance, got " ++ actual
  | .notListed value choices => value ++ " must be one of: " ++ ", ".intercalate choices
  | .notADate value => value ++ " is not a valid date-time"

inductive Refusal where
  | violation (violation : Violation)
  | fault (fault : Fault)
deriving DecidableEq, Repr

end ModelMint
