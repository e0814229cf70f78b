import ModelMint.Blueprint.Plan
import ModelMint.Settings.BaseNames

/-!
# Class modules

The module of one class: what it imports, the class with its documentation and
constants, a declaration for each field, how a new instance starts, the setters that
check, and how an instance is exported.  Operations of the base class are known by name.
-/

namespace ModelMint.Emit

open ModelMint.Blueprint

/-- A check in a setter, on its parameter. -/
inductive Statement where
  /-- The class is imported by the setter; where the parameter has its name it is renamed. -/
  | elements (operation className : String) (renamed : Bool)
  | within (operation : String) (minimum maximum : Json)
  | moment (operation : String)
  | oneOf (operation : String) (values : List Json)

structure SetterCode where
  attr : String
  parameterType : String
  statements : List Statement

/-- How an attribute is filled when an instance is made. -/
inductive Start where
  | literal (value : Json)
  | parsed (operation : String) (value : Json)

structure FieldCode where
  attr : String
  name : String
  annotation : String
  comment : List String
  start : Option Start
  /-- The operation that the stored value passes through on its way out. -/
  exported : Option String

structure ClassModule where
  /-- The lines at the top of the file. -/
  heading : List String
  usesMoment : Bool
  references : List String
  baseModule : String
  baseClass : String
  name : String
  documentation : List String
  constants : List Constant
  fields : List FieldCode
  setters : List SetterCode

/-! ## Types -/

def plainText (value : Json) : String := String.ofList value.plain

def storageText (field : Field) : Option String :=
  field.storage.map fun storage => match field.element with
    | some element => storage ++ "[" ++ element ++ "]"
    | none => storage

def annotationOf (field : Field) : String :=
  match storageText field with
  | none => "Any"
  | some text => if field.nullable then text ++ " | None" else text

/-- A setter of a moment takes whatever can be parsed. -/
def parameterTypeOf (field : Field) : String :=
  if field.isMoment then "str | " ++ TypeName.moment else (storageText field).getD "Any"

/-! ## Documentation -/

def escapeBackslashes (line : List Char) : List Char :=
  line.flatMap fun c => if c == '\\' then ['\\', '\\'] else [c]

def escapeQuotes : List Char → List Char
  | '"' :: '"' :: '"' :: rest => '\\' :: '"' :: '\\' :: '"' :: '\\' :: '"' :: escapeQuotes rest
  | c :: rest => c :: escapeQuotes rest
  | [] => []

/-- A line that stands for itself within the documentation of a class. -/
def escapeLine (line : String) : String :=
  String.ofList (escapeQuotes (escapeBackslashes line.toList))

def accessorLines (className : String) (field : Field) : List String := [
  "    " ++ getter field.attr ++ "() -> " ++ annotationOf field,
  "    " ++ setter field.attr ++ "(" ++ field.attr ++ ": " ++ parameterTypeOf field ++ ") -> " ++
    className
]

def documentationOf (plan : Plan) : List String :=
  let description := plan.description.map escapeLine
  description ++ (if description.isEmpty then [] else [""]) ++
    "Accessors:" :: plan.fields.flatMap (accessorLines plan.name)

/-! ## Members -/

def statementOf (names : BaseNames) (field : Field) : Rule → Except Fault Statement
  | .elements className =>
    .ok (.elements (plainText names.checkElements) className (className == field.attr))
  | .within measure minimum maximum => do
    let operation ← names.boundsCheck measure
    .ok (.within (plainText operation) (minimum.getD .null) (maximum.getD .null))
  | .moment => .ok (.moment (plainText names.parseMoment))
  | .oneOf values => .ok (.oneOf (plainText names.checkOneOf) values)

def setterCode (names : BaseNames) (member : Member) : Except Fault SetterCode := do
  let statements ← member.rules.mapM (statementOf names member.field)
  .ok { attr := member.field.attr, parameterType := parameterTypeOf member.field, statements }

def startOf (names : BaseNames) (field : Field) : Option Start :=
  if !field.initialized then none
  else if field.isMoment && field.default != .null then
    some (.parsed (plainText names.parseMoment) field.default)
  else some (.literal field.default)

def fieldCode (names : BaseNames) (field : Field) : FieldCode where
  attr := field.attr
  name := field.name
  annotation := annotationOf field
  comment := field.description ++ (field.documented.map (":type: " ++ ·)).toList
  start := startOf names field
  exported := if field.isArray then some (plainText names.exportElements) else none

def ClassModule.ofPlan (names : BaseNames) (heading : List String) (plan : Plan) :
    Except Fault ClassModule := do
  let setters ← plan.setters.mapM (setterCode names)
  .ok {
    heading
    usesMoment := plan.fields.any Field.isMoment
    references := plan.references
    baseModule := plainText names.module
    baseClass := plainText names.className
    name := plan.name
    documentation := documentationOf plan
    constants := plan.constants
    fields := plan.fields.map (fieldCode names)
    setters
  }

end ModelMint.Emit
