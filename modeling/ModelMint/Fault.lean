/-!
# Faults

A fault is a reason why an operation on values could not be carried out at all.
It is neither a finding about a schema nor a validation failure: those have types
of their own, and a run that collects them lets a fault pass.
-/

namespace ModelMint

inductive Fault where
  /-- An operand is of a kind that the operation does not take. -/
  | unsuitable
  | unknownField (owner key : String)
  | unset (owner field : String)
  | noMember (owner name : String)
  | notWritable
  | missingKey
  | unknownName
  /-- A name that is fixed in the language is given to something. -/
  | fixedName
  | missingModule
  | missingImport
  | notProvided
  /-- The operation would follow references without end. -/
  | endless
  | invalidWidth (shown : String)
  | invalidMode (shown : String)
  | notAReference (place : String)
  /-- Source text holds the character NUL. -/
  | nulCharacter
  /-- A number has more digits than are converted. -/
  | tooManyDigits
  | notAMoment
  | notJson
  | notUnicode
  | fileExists
  | fileMissing
  | isDirectory
  | notADirectory
  | nameTooLong
  /-- The file is one that can not be replaced. -/
  | busy
deriving DecidableEq, Repr

namespace Fault

def message? : Fault → Option String
  | .unknownField owner key => some (owner ++ " has no field " ++ key)
  | .unset owner field => some (owner ++ "." ++ field ++ " has not been set")
  | .noMember owner name =>
    some ("'" ++ owner ++ "' object has no attribute '" ++ name ++ "'")
  | .invalidWidth shown => some ("invalid width " ++ shown ++ " (must be > 0)")
  | .invalidMode shown => some (shown ++ " is not a valid OutputMode")
  | .notAReference place => some ("Schema " ++ place ++ " is not a reference")
  | _ => none

end Fault

end ModelMint
