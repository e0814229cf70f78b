import ModelMint.Fault
import ModelMint.Schema.Failure
import ModelMint.Source.Statement

/-!
# Valid source

A text is valid source if its statements can be read.  A null character is beyond the
reader: it is a fault, and no finding about the text.
-/

namespace ModelMint.Source

open ModelMint.Schema

def isValid (text : String) : Bool := (readModule text.toList).isSome

def hasNull (text : String) : Bool := text.toList.contains '\x00'

/-- Why a text is not accepted, if it is not. -/
def validate (text : String) : Except Fault (Option Failure) :=
  if hasNull text then .error .nulCharacter
  else if isValid text then .ok none
  else .ok (some { cause := .unwritable .invalidSource })

end ModelMint.Source
