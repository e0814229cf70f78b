import ModelMint.Json.Basic
import ModelMint.Number.Shortest
import ModelMint.Text.Quoted

/-!
# Documents as shown in messages

Words for the three constants begin with a capital, texts are quoted, lists and
objects keep their order.
-/

namespace ModelMint

def intText (value : Int) : List Char :=
  match value with
  | .ofNat n => (Nat.repr n).toList
  | .negSucc n => '-' :: (Nat.repr (n + 1)).toList

def boolText (value : Bool) : List Char :=
  if value then "True".toList else "False".toList

def noneText : List Char := "None".toList

def commaSeparated (parts : List (List Char)) : List Char :=
  [',', ' '].intercalate parts

namespace Json

mutual

def shown : Json → List Char
  | .null => noneText
  | .bool value => boolText value
  | .int value => intText value
  | .float value => value.text
  | .str text => Text.shown text.toList
  | .arr items => '[' :: (commaSeparated (shownItems items) ++ [']'])
  | .obj members => '\x7b' :: (commaSeparated (shownMembers members) ++ ['\x7d'])

def shownItems : List Json → List (List Char)
  | [] => []
  | item :: rest => shown item :: shownItems rest

def shownMembers : List (String × Json) → List (List Char)
  | [] => []
  | (key, value) :: rest =>
    (Text.shown key.toList ++ ':' :: ' ' :: shown value) :: shownMembers rest

end

/-- A text stands for itself when it is not part of another value. -/
def plain : Json → List Char
  | .str text => text.toList
  | other => other.shown

/-- The name that the target language gives to the type of a decoded value. -/
def typeName : Json → String
  | .null => "NoneType"
  | .bool _ => "bool"
  | .int _ => "int"
  | .float _ => "float"
  | .str _ => "str"
  | .arr _ => "list"
  | .obj _ => "dict"

end Json

end ModelMint
