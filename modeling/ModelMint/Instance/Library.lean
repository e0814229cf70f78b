import ModelMint.Emit.ClassModule
import ModelMint.Instance.Shown

/-!
# Loaded classes

The classes of a package as they are when their modules are loaded.  Loading works out
the constants; a number that the language has no literal for makes it fail.
-/

namespace ModelMint

open ModelMint.Emit

/-! ## Private names -/

/-- Within a class a name that starts with two underscores, and does not end with two, carries the
name of the class, without underscores in front of that. -/
def privateName (className name : String) : String :=
  let owner := className.toList.dropWhile (· == '_')
  let text := name.toList
  if ['_', '_'].isPrefixOf text && !(['_', '_'].isPrefixOf text.reverse) && !owner.isEmpty then
    String.ofList ('_' :: (owner ++ text))
  else name

/-! ## Literals -/

/-- What the names in a literal mean.  The words for infinity and for what is no number are no
literals of the language but names like any other. -/
abbrev Scope := String → Option Value

def infinityName : String := "inf"
def undefinedName : String := "nan"

def Scope.value (scope : Scope) (name : String) : Except Fault Value :=
  match scope name with
  | some value => .ok value
  | none => .error .unknownName

/-- A value with a minus sign in front. -/
def negated : Value → Except Fault Value
  | .bool value => .ok (.int (if value then -1 else 0))
  | .int value => .ok (.int (-value))
  | .float value => .ok (.float value.negate)
  | _ => .error .unsuitable

def floatValue (scope : Scope) : Binary64 → Except Fault Value
  | .finite negative mantissa exponent => .ok (.float (.finite negative mantissa exponent))
  | .infinite false => scope.value infinityName
  | .infinite true => scope.value infinityName >>= negated
  | .nan => scope.value undefinedName

mutual

/-- The value of a literal. -/
def literalValue (scope : Scope) : Json → Except Fault Value
  | .float value => floatValue scope value
  | .arr items => (literalItems scope items).map Value.list
  | .obj members => (literalMembers scope members).map Value.map
  | value => .ok (Value.ofJson value)

def literalItems (scope : Scope) : List Json → Except Fault (List Value)
  | [] => .ok []
  | item :: rest =>
    match literalValue scope item with
    | .error fault => .error fault
    | .ok value => (literalItems scope rest).map (value :: ·)

def literalMembers (scope : Scope) : List (String × Json) → Except Fault (List (String × Value))
  | [] => .ok []
  | (key, item) :: rest =>
    match literalValue scope item with
    | .error fault => .error fault
    | .ok value => (literalMembers scope rest).map ((key, value) :: ·)

end

/-- In the body of a class no such name is known. -/
def noNames : Scope := fun _ => none

/-- A method of a class knows the class by its name. -/
def classNames (className : String) : Scope := fun name =>
  if name == className then some (.type className) else none

/-! ## Classes -/

structure LoadedClass where
  name : String
  /-- In the order in which their names first came, with the last values. -/
  constants : List (String × Value) := []
  fields : List FieldCode := []
  setters : List SetterCode := []

namespace LoadedClass

/-- The table of names has a name of its own, which no constant takes from it. -/
def tableName : String := "_FIELDS"

def fieldNames (item : LoadedClass) : List (String × String) :=
  item.fields.map fun field => (field.attr, field.name)

def setter? (item : LoadedClass) (attr : String) : Option SetterCode :=
  item.setters.find? (·.attr == attr)

/-- The attribute that a key stands for: its own, or that of the field with that name. -/
def attributeOf? (item : LoadedClass) (key : String) : Option String :=
  if Entries.contains key item.fieldNames then some key
  else (item.fields.find? (·.name == key)).map FieldCode.attr

def loadConstant (className : String) (constant : Blueprint.Constant) :
    Except Fault (String × Value) :=
  (literalValue noNames constant.value).map fun value =>
    (privateName className constant.name, value)

def load (module : ClassModule) : Except Fault LoadedClass := do
  let constants ← module.constants.mapM (loadConstant module.name)
  .ok {
    name := module.name
    constants := (Entries.ofList constants).filter (·.1 != tableName)
    fields := module.fields
    setters := module.setters
  }

end LoadedClass

/-- Classes by name. -/
abbrev Library := List (String × LoadedClass)

namespace Library

/-- The class that others derive from has this name, unless a loaded class has it. -/
def baseName : String := "Model"

def baseModules : List String :=
  ["json_schema_to_model.runtime", "json_schema_to_model.runtime.model"]

/-- A name that can be read and never be given to anything. -/
def fixedName : String := "__debug__"

/-- The names that the module gives to classes. -/
def checkNames (module : ClassModule) : Except Fault Unit :=
  if (module.name :: module.baseClass :: module.references).contains fixedName then
    .error .fixedName
  else .ok ()

def checkBase (module : ClassModule) : Except Fault Unit :=
  if !baseModules.contains module.baseModule then .error .missingModule
  else if module.baseClass != baseName then .error .missingImport
  else .ok ()

def load (modules : List ClassModule) : Except Fault Library :=
  modules.mapM fun module => do
    checkNames module
    checkBase module
    let item ← LoadedClass.load module
    .ok (module.name, item)

def find? (library : Library) (className : String) : Option LoadedClass :=
  Entries.get? className library

/-- The base class has no fields. -/
def fieldNames (library : Library) : FieldNames := fun className =>
  ((library.find? className).map LoadedClass.fieldNames).getD []

/-- The loaded class, or the base class. -/
def classNamed? (library : Library) (className : String) : Option LoadedClass :=
  match library.find? className with
  | some item => some item
  | none => if className == baseName then some { name := baseName } else none

end Library

end ModelMint
