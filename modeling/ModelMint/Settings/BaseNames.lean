import ModelMint.Blueprint.Rule
import ModelMint.Fault
import ModelMint.Json.Shown

/-!
# Base names

Every class derives from one base class, and its code calls the base by name only: the
module, the class, and the operations that check, parse and export.  All names can be
set, to any decoded value.
-/

namespace ModelMint

structure BaseNames where
  module : Json := .str "json_schema_to_model.runtime"
  className : Json := .str "Model"
  checkElements : Json := .str "_check_if_pure_array"
  checkLength : Json := .str "_check_array_bounds"
  checkInteger : Json := .str "_check_integer_bounds"
  checkFloat : Json := .str "_check_float_bounds"
  checkOneOf : Json := .str "_check_enum_bounds"
  parseMoment : Json := .str "_parse_date"
  exportElements : Json := .str "_convert_pure_array"
  /-- Operations of the settings themselves that an entry has hidden. -/
  hidden : List String := []
  /-- What an entry has put in the place of the table of these names. -/
  table : Option Json := none
deriving DecidableEq

/-- Entries that no settings take. -/
def refusedEntry? (key : String) (value : Json) : Option Fault :=
  match key, value with
  | "__dict__", .obj _ => none
  | "__class__", _ | "__dict__", _ => some .unsuitable
  | "__weakref__", _ => some .notWritable
  | _, _ => none

/-- The members of an object, or the fault of asking something else for them. -/
def membersOf (operation : String) : Json → Except Fault (List (String × Json))
  | .obj members => .ok members
  | other => .error (.noMember other.typeName operation)

namespace BaseNames

/-- An entry that names nothing is passed over. -/
def set (names : BaseNames) (key : String) (value : Json) : BaseNames :=
  match key with
  | "module" => { names with module := value }
  | "class_name" => { names with className := value }
  | "check_pure_array" => { names with checkElements := value }
  | "check_array_bounds" => { names with checkLength := value }
  | "check_integer_bounds" => { names with checkInteger := value }
  | "check_float_bounds" => { names with checkFloat := value }
  | "check_enum" => { names with checkOneOf := value }
  | "parse_date" => { names with parseMoment := value }
  | "convert_pure_array" => { names with exportElements := value }
  | "bounds_check" | "to_dict" => { names with hidden := key :: names.hidden }
  | "__dataclass_fields__" => { names with table := some value }
  | _ => names

/-- One entry gives all names at once, and what it does not give has its first value again. -/
def take (names : BaseNames) (key : String) (value : Json) : BaseNames :=
  match key, value with
  | "__dict__", .obj given => given.foldl (fun names entry => names.set entry.1 entry.2) {}
  | _, _ => names.set key value

def readEntries (names : BaseNames) : List (String × Json) → Except Fault BaseNames
  | [] => .ok names
  | (key, value) :: rest => match refusedEntry? key value with
    | some fault => .error fault
    | none => readEntries (names.take key value) rest

def read (value : Json) : Except Fault BaseNames := do
  readEntries {} (← membersOf "items" value)

def entries (names : BaseNames) : List (String × Json) := [
  ("module", names.module),
  ("class_name", names.className),
  ("check_pure_array", names.checkElements),
  ("check_array_bounds", names.checkLength),
  ("check_integer_bounds", names.checkInteger),
  ("check_float_bounds", names.checkFloat),
  ("check_enum", names.checkOneOf),
  ("parse_date", names.parseMoment),
  ("convert_pure_array", names.exportElements)
]

/-- The names are written by their table; another one has no names in it. -/
def write (names : BaseNames) : Except Fault Json :=
  if names.hidden.contains "to_dict" then .error .unsuitable
  else match names.table with
    | none => .ok (.obj names.entries)
    | some (.obj []) => .ok (.obj [])
    | some (.obj ((_, value) :: _)) => .error (.noMember value.typeName "_field_type")
    | some other => .error (.noMember other.typeName "values")

/-- The names alone, with nothing hidden. -/
def visible (names : BaseNames) : BaseNames := { names with hidden := [], table := none }

/-- The operation that checks the bounds of a measure. -/
def boundsCheck (names : BaseNames) (measure : Blueprint.Measure) : Except Fault Json :=
  if names.hidden.contains "bounds_check" then .error .unsuitable
  else .ok (match measure with
    | .length => names.checkLength
    | .integer => names.checkInteger
    | .float => names.checkFloat)

/-- The measure of a name. -/
def measure? (kind : String) : Option Blueprint.Measure :=
  match kind with
  | "array" => some .length
  | "integer" => some .integer
  | "float" => some .float
  | _ => none

/-- The same for a measure given by its name. -/
def boundsCheckNamed (names : BaseNames) (kind : String) : Except Fault Json :=
  if names.hidden.contains "bounds_check" then .error .unsuitable
  else match measure? kind with
    | some measure => names.boundsCheck measure
    | none => .error .missingKey

end BaseNames

end ModelMint
