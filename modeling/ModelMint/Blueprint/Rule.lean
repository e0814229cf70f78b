import ModelMint.Blueprint.Field

/-!
# Rules and constants

The constraints of a property become rules for what may be assigned, in the order in
which they are tried: the elements of an array, its length, numeric bounds, the date,
the allowed values.  Every allowed value is also a constant of the class.
-/

namespace ModelMint.Blueprint

open ModelMint.Schema

/-- What a bound measures. -/
inductive Measure where
  | length
  | integer
  | float
deriving DecidableEq, Repr

inductive Rule where
  /-- Every element is an instance of the class. -/
  | elements (className : String)
  | within (measure : Measure) (minimum maximum : Option Json)
  /-- The value is a moment or the text of one, and the moment is what counts from there on. -/
  | moment
  | oneOf (values : List Json)

def elementRules (root : Json) (property : Property) : Except Stop (List Rule) := do
  if ← isPureArray root property then
    .ok ((← elementType root property).map Rule.elements).toList
  else .ok []

def lengthRules (storage : Option String) (property : Property) : List Rule :=
  if storage == some TypeName.list && property.hasItemBounds then
    [.within .length property.minItems property.maxItems]
  else []

def boundRules (storage : Option String) (property : Property) : List Rule :=
  if !property.hasNumericBounds then []
  else if storage == some TypeName.int then
    [.within .integer property.minimum property.maximum]
  else if storage == some TypeName.float then
    [.within .float property.minimum property.maximum]
  else []

def momentRules (storage : Option String) : List Rule :=
  if storage == some TypeName.moment then [.moment] else []

def valueRules (property : Property) : List Rule := (property.enum.map Rule.oneOf).toList

def rulesOf (root : Json) (property : Property) : Except Stop (List Rule) := do
  let storage ← storageType root property
  let elements ← elementRules root property
  .ok (elements ++ lengthRules storage property ++ boundRules storage property ++
    momentRules storage ++ valueRules property)

/-! ## Constants -/

structure Constant where
  name : String
  value : Json

def Constant.ofValue (property : String) (value : Json) : Constant where
  name := String.ofList
    (Text.constantPrefix property.toList ++ '_' :: Text.collapse value.plain)
  value := value

/-- One for each value, in order; equal values give equal constants. -/
def constantsOf (property : String) (values : List Json) : List Constant :=
  values.map (Constant.ofValue property)

end ModelMint.Blueprint
