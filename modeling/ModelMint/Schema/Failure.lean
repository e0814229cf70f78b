import ModelMint.Text.Quoted

/-!
# Failures

A failure says why a definition yields no class, and where: the definition, the
property and the path in the document, each as far as it is known.  Context is only
ever filled in; what is known stays.
-/

namespace ModelMint.Schema

/-- A document, definition or property that is not of the required form.  Values come shown. -/
inductive Malformed where
  | documentNotObject
  | definitionsNotObject
  | definitionNotObject
  | propertiesNotObject
  | requiredNotNames
  | propertyNotObject
  | enumNotList
  | unsupportedType (shown : String)
  | referenceNotText (shown : String)
  | descriptionNotText (shown : String)
  | notANumber (key shown : String)
  | invalidClassName (name : String)
  | sameAttribute (first second attr : String)
  | accessorClash (firstAttribute secondAttribute first second : String)
  | defaultNotText (shown : String)
  | defaultNotADate (text : String)
  | stated (text : String)
deriving DecidableEq, Repr

/-- Why generated text is not accepted or not written. -/
inductive Unwritable where
  | invalidSource
  | fileExists (path : String)
  | stated (text : String)
deriving DecidableEq, Repr

inductive Cause where
  | general (text : String)
  | malformed (what : Malformed)
  | unresolved (pointer : String) (missing : Option String) (reason : Option String)
  | unwritable (what : Unwritable)
deriving DecidableEq, Repr

structure Context where
  definition : Option String := none
  property : Option String := none
  path : Option String := none
deriving DecidableEq, Repr

structure Failure where
  cause : Cause
  context : Context := {}
deriving DecidableEq, Repr

/-! ## Context -/

/-- Unknown and empty both give way. -/
def known (old new : Option String) : Option String :=
  match old with
  | some text => if text.isEmpty then new else some text
  | none => new

def Context.fill (old new : Context) : Context where
  definition := known old.definition new.definition
  property := known old.property new.property
  path := known old.path new.path

def Failure.inContext (failure : Failure) (context : Context) : Failure :=
  { failure with context := failure.context.fill context }

/-! ## Messages -/

def shownText (text : String) : String := String.ofList (Text.shown text.toList)

def Malformed.message : Malformed → String
  | .documentNotObject => "Schema document must be a JSON object"
  | .definitionsNotObject => "Schema document has no 'definitions' object"
  | .definitionNotObject => "Definition must be a JSON object"
  | .propertiesNotObject => "'properties' must be a JSON object"
  | .requiredNotNames => "'required' must be a list of property names"
  | .propertyNotObject => "Property schema must be a JSON object"
  | .enumNotList => "'enum' must be a list"
  | .unsupportedType shown => "Unsupported 'type' value " ++ shown
  | .referenceNotText shown => "'$ref' must be a string, got " ++ shown
  | .descriptionNotText shown => "'description' must be a string, got " ++ shown
  | .notANumber key shown => "'" ++ key ++ "' must be a number, got " ++ shown
  | .invalidClassName name =>
    "Definition name " ++ shownText name ++ " is not a valid class name"
  | .sameAttribute first second attr =>
    "Properties " ++ shownText first ++ " and " ++ shownText second ++
      " both map to attribute " ++ shownText attr
  | .accessorClash firstAttribute secondAttribute first second =>
    "Attributes " ++ shownText firstAttribute ++ " and " ++ shownText secondAttribute ++
      " of properties " ++ shownText first ++ " and " ++ shownText second ++
      " clash with each other's accessors"
  | .defaultNotText shown => "date-time default must be a string, got " ++ shown
  | .defaultNotADate text =>
    "date-time default " ++ shownText text ++ " is not a valid date-time"
  | .stated text => text

def Unwritable.message : Unwritable → String
  | .invalidSource => "Generated Python code is not valid"
  | .fileExists path =>
    "Output file already exists: " ++ path ++ ". Use force mode to overwrite."
  | .stated text => text

def Cause.message : Cause → String
  | .general text => text
  | .malformed what => what.message
  | .unresolved pointer missing reason =>
    "Cannot resolve reference " ++ shownText pointer ++
      match reason, missing with
      | some reason, _ => ": " ++ reason
      | none, some segment => ": segment " ++ shownText segment ++ " not found"
      | none, none => ""
  | .unwritable what => what.message

/-- The parts that are known and not empty. -/
def Context.parts (context : Context) : List String :=
  [("definition=", context.definition), ("property=", context.property),
    ("path=", context.path)].filterMap fun (label, part) =>
    part.bind fun text => if text.isEmpty then none else some (label ++ text)

def Failure.message (failure : Failure) : String :=
  let parts := failure.context.parts
  if parts.isEmpty then failure.cause.message
  else failure.cause.message ++ " (" ++ ", ".intercalate parts ++ ")"

end ModelMint.Schema
