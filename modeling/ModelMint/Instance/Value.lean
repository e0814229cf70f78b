import ModelMint.Entries
import ModelMint.Json.Shown
import ModelMint.Moment.Text

/-!
# Values of instances

What an attribute holds: a decoded value, a moment, an instance known by its number, or
lists and maps of such.  A class is a value too where it is handed to a check.
-/

namespace ModelMint

inductive Value where
  | none
  | bool (value : Bool)
  | int (value : Int)
  | float (value : Binary64)
  | text (value : String)
  | moment (value : Moment)
  | list (items : List Value)
  | map (members : List (String × Value))
  | instance (id : Nat)
  | type (className : String)

namespace Value

mutual

def ofJson : Json → Value
  | .null => .none
  | .bool value => .bool value
  | .int value => .int value
  | .float value => .float value
  | .str value => .text value
  | .arr items => .list (ofItems items)
  | .obj members => .map (ofMembers members)

def ofItems : List Json → List Value
  | [] => []
  | item :: rest => ofJson item :: ofItems rest

def ofMembers : List (String × Json) → List (String × Value)
  | [] => []
  | (key, value) :: rest => (key, ofJson value) :: ofMembers rest

end

/-- Truth values are numbers too. -/
def number? : Value → Option Binary64.Point
  | .bool value => some (.dyadic (if value then 1 else 0) 0)
  | .int value => some (.dyadic value 0)
  | .float value => some value.point
  | _ => .none

/-- Whether a value can be looked up among the keys of a map. -/
def isKey : Value → Bool
  | .list _ | .map _ | .instance _ => false
  | _ => true

end Value

/-! ## Instances -/

structure Instance where
  className : String
  /-- In the order in which they were first set. -/
  attributes : List (String × Value) := []

/-- Instances are known by their place. -/
structure Store where
  instances : List Instance := []

namespace Store

def size (store : Store) : Nat := store.instances.length

def get? (store : Store) (id : Nat) : Option Instance := store.instances[id]?

def classOf (store : Store) (id : Nat) : String :=
  ((store.get? id).map Instance.className).getD ""

def attributes (store : Store) (id : Nat) : List (String × Value) :=
  ((store.get? id).map Instance.attributes).getD []

def attribute? (store : Store) (id : Nat) (attr : String) : Option Value :=
  Entries.get? attr (store.attributes id)

def add (store : Store) (className : String) : Store where
  instances := store.instances ++ [{ className }]

def Instance.put (item : Instance) (attr : String) (value : Value) : Instance :=
  { item with attributes := Entries.insert attr value item.attributes }

def put (store : Store) (id : Nat) (attr : String) (value : Value) : Store where
  instances := store.instances.modify id fun item => Instance.put item attr value

/-- Every attribute of every instance, counted. -/
def attributeCount (store : Store) : Nat :=
  (store.instances.flatMap Instance.attributes).length

/-- The name of the type of a value. -/
def typeName (store : Store) : Value → String
  | .none => "NoneType"
  | .bool _ => "bool"
  | .int _ => "int"
  | .float _ => "float"
  | .text _ => "str"
  | .moment _ => "datetime"
  | .list _ => "list"
  | .map _ => "dict"
  | .instance id => store.classOf id
  | .type _ => "type"

end Store

end ModelMint
