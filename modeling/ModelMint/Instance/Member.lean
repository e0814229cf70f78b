import ModelMint.Instance.Action

/-!
# Members

What a name means on an instance.  A stored attribute goes before the members of the
class, those before the members of the base, and a name that is none of these may still
be an accessor: the getter or setter of a field that has no setter of its own.
-/

namespace ModelMint

open ModelMint.Emit

/-- The operations of the base class. -/
inductive Operation where
  | checkElements
  | checkLength
  | checkNumber
  /-- The checks for each kind of number, which leave the checking to the one for all. -/
  | checkNumberKind
  | checkOneOf
  | parseMoment
  | exportElements
  | readAttribute
  | writeAttribute
  | findAccessor
  | putAttribute
  | show
  | start
  | export
deriving DecidableEq, Repr

def Operation.ofName? (name : String) : Option Operation :=
  match name with
  | "_check_if_pure_array" => some .checkElements
  | "_check_array_bounds" => some .checkLength
  | "_check_bounds" => some .checkNumber
  | "_check_integer_bounds" | "_check_float_bounds" => some .checkNumberKind
  | "_check_enum_bounds" => some .checkOneOf
  | "_parse_date" => some .parseMoment
  | "_convert_pure_array" => some .exportElements
  | "_get_field" => some .readAttribute
  | "_set_field" => some .writeAttribute
  | "__getattr__" => some .findAccessor
  | "__setattr__" => some .putAttribute
  | "__repr__" | "__str__" => some .show
  | "__init__" => some .start
  | "to_dict" => some .export
  | _ => none

inductive Member where
  /-- A value, which can not be called. -/
  | value (value : Value)
  | setter (code : SetterCode)
  | exporter (fields : List FieldCode)
  | operation (operation : Operation)
  | reader (attr : String)
  | writer (attr : String)

namespace LoadedClass

/-- What the class itself says of a name. -/
def member? (item : LoadedClass) (name : String) : Option Member :=
  let setter := match name.toList with
    | 's' :: 'e' :: 't' :: '_' :: attr => item.setter? (String.ofList attr)
    | _ => none
  match setter with
  | some code => some (.setter code)
  | none =>
    if name == "to_dict" then some (.exporter item.fields)
    else if name == tableName then
      some (.value (.map (item.fieldNames.map fun (attr, name) => (attr, .text name))))
    else (Entries.get? name item.constants).map Member.value

/-- The parts of a name before and behind its first underscore. -/
def splitName (name : String) : List Char × List Char :=
  let text := name.toList
  (text.takeWhile (· != '_'), (text.dropWhile (· != '_')).drop 1)

/-- The accessors that need no code of their own. -/
def accessor? (item : LoadedClass) (name : String) : Option Member :=
  let (verb, attr) := splitName name
  let attr := String.ofList attr
  if !Entries.contains attr item.fieldNames then none
  else if verb == "get".toList then some (.reader attr)
  else if verb == "set".toList then some (.writer attr)
  else none

end LoadedClass

/-- What the base class says of a name.  Instances can be no keys. -/
def baseMember? (name : String) : Option Member :=
  if name == LoadedClass.tableName then some (.value (.map []))
  else if name == "__hash__" then some (.value .none)
  else (Operation.ofName? name).map Member.operation

/-- Members of a class that is no loaded one are those of the base. -/
def classMember? (library : Library) (className name : String) : Option Member :=
  ((library.find? className).bind (·.member? name)).orElse fun _ => baseMember? name

/-- An accessor is looked for last. -/
def findAccessor (library : Library) (id : Nat) (name : String) (store : Store) :
    Except Refusal Member :=
  let className := store.classOf id
  match (library.find? className).bind (·.accessor? name) with
  | some member => .ok member
  | none => .error (.fault (.noMember className name))

/-- All attributes of an instance as one value. -/
def attributesName : String := "__dict__"

def findMember (library : Library) (id : Nat) (name : String) (store : Store) :
    Except Refusal Member :=
  if name == attributesName then .ok (.value (.map (store.attributes id)))
  else match store.attribute? id name with
    | some value => .ok (.value value)
    | none => match classMember? library (store.classOf id) name with
      | some member => .ok member
      | none => findAccessor library id name store

end ModelMint
