/-!
# Type names

A field's type is known by its name in the target language.  Names that are not among
the five primitive types of a schema stand for themselves.
-/

namespace ModelMint.TypeName

def int : String := "int"
def float : String := "float"
def list : String := "list"
def moment : String := "datetime"

def ofSchema (name : String) : String :=
  match name with
  | "boolean" => "bool"
  | "string" => "str"
  | "number" => float
  | "integer" => int
  | "array" => list
  | other => other

end ModelMint.TypeName
