import ModelMint.Json.Shown
import ModelMint.Schema.Failure

/-!
# Property schemas

The keywords of a property that matter, read from its object: type, format,
references, bounds, allowed values, default and description.  Every other keyword is
ignored.
-/

namespace ModelMint.Schema

structure Property where
  name : String
  type : Option String := none
  /-- Any value is allowed; only the text `date-time` has a meaning. -/
  format : Json := .null
  ref : Option String := none
  itemsRef : Option String := none
  enum : Option (List Json) := none
  minimum : Option Json := none
  maximum : Option Json := none
  minItems : Option Json := none
  maxItems : Option Json := none
  default : Option Json := none
  description : Option String := none
  path : String := ""

namespace Property

def isDateTime (property : Property) : Bool := property.format.str? == some "date-time"

def hasNumericBounds (property : Property) : Bool :=
  property.minimum.isSome || property.maximum.isSome

def hasItemBounds (property : Property) : Bool :=
  property.minItems.isSome || property.maxItems.isSome

def isReference (property : Property) : Bool := property.ref.isSome || property.itemsRef.isSome

/-- A direct reference goes before one of the items. -/
def reference? (property : Property) : Option String := property.ref <|> property.itemsRef

/-! ## Reading -/

def malformed {α : Type} (what : Malformed) : Except Failure α :=
  .error { cause := .malformed what }

def shownJson (value : Json) : String := String.ofList value.shown

def texts? : List Json → Option (List String)
  | [] => some []
  | .str text :: rest => (texts? rest).map (text :: ·)
  | _ => none

/-- A union is its first member that is not null. -/
def readType (value : Json) : Except Failure (Option String) :=
  match value with
  | .null => .ok none
  | .str text => .ok (some text)
  | .arr items => match texts? items with
    | some names => .ok (names.find? (· != "null"))
    | none => malformed (.unsupportedType (shownJson value))
  | _ => malformed (.unsupportedType (shownJson value))

def readReference : Json → Except Failure (Option String)
  | .null => .ok none
  | .str text => .ok (some text)
  | value => malformed (.referenceNotText (shownJson value))

def readDescription : Json → Except Failure (Option String)
  | .null => .ok none
  | .str text => .ok (some text)
  | value => malformed (.descriptionNotText (shownJson value))

def readNumber (key : String) : Json → Except Failure (Option Json)
  | .null => .ok none
  | .int value => .ok (some (.int value))
  | .float value => .ok (some (.float value))
  | value => malformed (.notANumber key (shownJson value))

def readEnum : Option Json → Except Failure (Option (List Json))
  | none => .ok none
  | some (.arr values) => .ok (some values)
  | some _ => malformed .enumNotList

def readItemsReference : Option Json → Except Failure (Option String)
  | some (.obj members) => readReference ((Entries.get? "$ref" members).getD .null)
  | _ => .ok none

/-- Faults in the keywords come out in a fixed order, whatever the order of the members. -/
def read (name : String) (schema : Json) (path : String) : Except Failure Property :=
  match schema with
  | .obj members => do
    let keyword (key : String) : Json := (Entries.get? key members).getD .null
    let type ← readType (keyword "type")
    let ref ← readReference (keyword "$ref")
    let minimum ← readNumber "minimum" (keyword "minimum")
    let maximum ← readNumber "maximum" (keyword "maximum")
    let minItems ← readNumber "minItems" (keyword "minItems")
    let maxItems ← readNumber "maxItems" (keyword "maxItems")
    let description ← readDescription (keyword "description")
    let itemsRef ← readItemsReference (Entries.get? "items" members)
    let enum ← readEnum (Entries.get? "enum" members)
    .ok {
      name, type, format := keyword "format", ref, itemsRef, enum, minimum, maximum, minItems,
      maxItems, default := Entries.get? "default" members, description, path
    }
  | _ => malformed .propertyNotObject

end Property

end ModelMint.Schema
