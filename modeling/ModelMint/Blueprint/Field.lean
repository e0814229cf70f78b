import ModelMint.Blueprint.TypeName
import ModelMint.Fault
import ModelMint.Json.Shown
import ModelMint.Moment.Reader
import ModelMint.Schema.Pointer
import ModelMint.Text.Naming
import ModelMint.Text.Wrap

/-!
# Fields

What a class stores for a property: the attribute, its type, what it holds before
anything is assigned, and its documentation.  The storage type is the declared type
before the referenced one; the element type is the referenced one.
-/

namespace ModelMint.Blueprint

open ModelMint.Schema

/-- A finding about the schema, or a fault that no schema accounts for. -/
inductive Stop where
  | failure (failure : Failure)
  | fault (fault : Fault)

def Stop.ofFailure {α : Type} : Except Failure α → Except Stop α
  | .ok value => .ok value
  | .error found => .error (.failure found)

def Stop.ofFault {α : Type} : Except Fault α → Except Stop α
  | .ok value => .ok value
  | .error found => .error (.fault found)

/-! ## Types of properties -/

/-- The value that a property refers to.  A property without a reference is a fault. -/
def resolveProperty (root : Json) (property : Property) : Except Stop Resolved :=
  match property.reference? with
  | some pointer => match resolve root pointer with
    | .ok resolved => .ok resolved
    | .error failure => .error (.failure (failure.inContext
        { property := some property.name, path := some property.path }))
  | none =>
    let place := if property.path.isEmpty then property.name else property.path
    .error (.fault (.notAReference (shownText place)))

/-- The type that the reference gives, if there is one. -/
def referencedType (root : Json) (property : Property) : Except Stop (Option String) :=
  if property.isReference then
    (resolveProperty root property).map fun resolved => some (TypeName.ofSchema resolved.name)
  else .ok none

def storageType (root : Json) (property : Property) : Except Stop (Option String) :=
  if property.isDateTime then .ok (some TypeName.moment)
  else match property.type with
    | some name => .ok (some (TypeName.ofSchema name))
    | none => referencedType root property

def elementType (root : Json) (property : Property) : Except Stop (Option String) :=
  if property.isDateTime then .ok (some TypeName.moment) else referencedType root property

def isArray (root : Json) (property : Property) : Except Stop Bool :=
  (storageType root property).map (· == some TypeName.list)

/-- Whether the property is an array of instances. -/
def isPureArray (root : Json) (property : Property) : Except Stop Bool :=
  if property.isReference then isArray root property else .ok false

/-! ## Descriptions -/

/-- Whether some run is cut although its line has whole room: it is longer than the limit. -/
def cutsRun (limit : Nat) (started : Bool) : List (List Char) → Bool
  | [] => false
  | run :: rest =>
    match (Text.takeFitting limit (Text.dropBlankStart started (run :: rest))).2 with
    | next :: _ =>
      if limit < next.length then true
      else
        let step := Text.nextLine limit started (run :: rest)
        cutsRun limit (started || !step.1.isEmpty) step.2
    | [] => false
termination_by pending => Text.pendingSize pending
decreasing_by exact Text.nextLine_size_lt _ _ _ _

def cutsLine (limit : Nat) (line : List Char) : Bool :=
  cutsRun limit false (Text.runs (Text.expandTabs 0 line))

/-- How much room a width leaves.  A width need not be whole: then it still bounds what fits, but
a run longer than a line cannot be cut at it. -/
inductive Room where
  | whole (limit : Nat)
  | parted (limit : Nat)
  | endless

def roomOfFloat (value : Binary64) : Except Fault Room :=
  let refused : Fault := .invalidWidth (String.ofList value.text)
  match value with
  | .nan => .error .unsuitable
  | .infinite negative => if negative then .error refused else .ok .endless
  | .finite negative mantissa exponent =>
    if negative || mantissa == 0 then .error refused
    else
      let (num, den) := Binary64.ratio mantissa exponent
      .ok (if num < den then .whole 0 else .parted (num / den))

/-- The room of a configured width. -/
def room (width : Json) : Except Fault Room :=
  let whole (value : Int) : Except Fault Room :=
    if 0 < value then .ok (.whole value.toNat)
    else .error (.invalidWidth (String.ofList width.shown))
  match width with
  | .int value => whole value
  | .bool value => whole (if value then 1 else 0)
  | .float value => roomOfFloat value
  | _ => .error .unsuitable

/-- Text within a width.  A text without lines asks for no width. -/
def wrapText (width : Json) (text : String) : Except Fault (List String) :=
  let lines := Text.splitLines text.toList
  if lines.isEmpty then .ok []
  else do
    let wrapped ← match ← room width with
      | .whole limit => Except.ok (Text.wrapLines limit lines)
      | .parted limit =>
        if lines.any (cutsLine limit) then .error .unsuitable
        else .ok (Text.wrapLines limit lines)
      | .endless => .ok (Text.wrapLines (8 * lines.flatten.length) lines)
    .ok (wrapped.map String.ofList)

def describe (width : Json) (description : Option String) : Except Fault (List String) :=
  match description with
  | some text => wrapText width text
  | none => .ok []

/-! ## Fields -/

/-- What the attribute holds when an instance is new. -/
inductive Initial where
  /-- Nothing: the field is required. -/
  | unset
  | emptyList
  | declared (value : Json)
  | absent

structure Field where
  name : String
  attr : String
  storage : Option String := none
  /-- The type of the elements of an array of instances. -/
  element : Option String := none
  documented : Option String := none
  initial : Initial := .unset
  description : List String := []

namespace Field

def isArray (field : Field) : Bool := field.storage == some TypeName.list

def isMoment (field : Field) : Bool := field.storage == some TypeName.moment

/-- Only a field without a declared default may be empty. -/
def nullable (field : Field) : Bool := match field.initial with
  | .absent => true
  | _ => false

def initialized (field : Field) : Bool := match field.initial with
  | .unset => false
  | _ => true

def default (field : Field) : Json := match field.initial with
  | .emptyList => .arr []
  | .declared value => value
  | _ => .null

end Field

/-- A default of a date-time property is parsed when an instance is made, so it has to be a
date-time, or nothing. -/
def checkDefault (value : Json) : Except Failure Unit :=
  match value with
  | .null => .ok ()
  | .str text =>
    if (Moment.read? text.toList).isSome then .ok ()
    else .error { cause := .malformed (.defaultNotADate text) }
  | other => .error { cause := .malformed (.defaultNotText (String.ofList other.shown)) }

def initialOf (property : Property) (required : List String) (isArray : Bool) :
    Except Failure Initial :=
  if isArray then .ok .emptyList
  else if required.contains property.name then .ok .unset
  else match property.default with
    | none => .ok .absent
    | some value => do
      if property.isDateTime then checkDefault value
      .ok (.declared value)

def documentedType (property : Property) (storage element : Option String) : Option String :=
  match property.type with
  | none => none
  | some _ =>
    if property.isReference then some ("list[" ++ element.getD "None" ++ "]") else storage

/-- The element type where it is asked for. -/
def elementTypeIf (wanted : Bool) (root : Json) (property : Property) :
    Except Stop (Option String) :=
  if wanted then elementType root property else .ok none

def Field.ofProperty (root width : Json) (required : List String) (property : Property) :
    Except Stop Field := do
  let storage ← storageType root property
  let pure ← isPureArray root property
  let referenced ← elementTypeIf pure root property
  let initial ← Stop.ofFailure (initialOf property required (storage == some TypeName.list))
  let description ← Stop.ofFault (describe width property.description)
  let element ← elementTypeIf (property.type.isSome && property.isReference) root property
  .ok {
    name := property.name
    attr := String.ofList (Text.attributeName property.name.toList)
    storage
    element := referenced
    documented := documentedType property storage element
    initial
    description
  }

end ModelMint.Blueprint
