import ModelMint.Instance.Member

/-!
# Running the code of classes

How setters, exporters and the making of instances run.  A setter imports what it
checks against, tries its statements in order and assigns the value last.
-/

namespace ModelMint

open ModelMint.Emit

def member (library : Library) (id : Nat) (name : String) : Action Member := fun store =>
  (store, findMember library id name store)

/-- Every class that the statements check against has to be loaded.  Its name is a private one where
it looks like one. -/
def importAll (library : Library) (owner : String) : List Statement → Action Unit
  | [] => pure ()
  | .elements _ className _ :: rest =>
    if (library.find? (privateName owner className)).isSome then importAll library owner rest
    else Action.fault .missingModule
  | _ :: rest => importAll library owner rest

/-- The name of the receiver, which an imported class of that name takes away. -/
def receiverName : String := "self"

/-- Whether an imported class is known by the name. -/
def givesName (name : String) : Statement → Bool
  | .elements _ className renamed => className == name && !renamed
  | _ => false

def comparesNumbers : Member → Bool
  | .operation .checkNumber | .operation .checkNumberKind => true
  | _ => false

/-- A value as a bound for itself.  No list is less than itself, whatever its items: where values
are compared it bounds nothing. -/
def ownBound (check : Member) (value : Value) : Value :=
  match comparesNumbers check, value with
  | true, .list _ => .none
  | _, value => value

/-- The names that a setter knows: its parameter, the classes it imports, and its class. -/
def setterNames (className : String) (code : SetterCode) (check : Member) (value : Value) :
    Scope := fun name =>
  if name == code.attr then some (ownBound check value)
  else if code.statements.any (givesName name) then some (.type name)
  else classNames className name

/-- The value of an attribute that is named by a value. -/
def readAttribute (id : Nat) (name : Value) : Action Value := fun store =>
  let className := store.classOf id
  match name with
  | .text attr => match store.attribute? id attr with
    | some value => (store, .ok value)
    | none => (store, .error (.fault (.unset className attr)))
  | other =>
    if other.isKey then
      match store.plain (fun _ => []) other with
      | .ok text => (store, .error (.fault (.unset className text)))
      | .error fault => (store, .error (.fault fault))
    else (store, .error (.fault .unsuitable))

/-- Only a text can be taken apart as the name of an accessor. -/
def lookupByValue (library : Library) (id : Nat) (name : Value) (store : Store) :
    Except Refusal Member :=
  match name with
  | .text name => findAccessor library id name store
  | other => .error (.fault (.noMember (store.typeName other) "partition"))

/-! The base knows its own operations by name, like any other member. -/

def readerName : String := "_get_field"
def writerName : String := "_set_field"
def numberCheckName : String := "_check_bounds"

mutual

/-- Calls a member with values by position. -/
def call (library : Library) : Nat → Nat → Member → List Value → Action Value
  | 0, _, _, _ => Action.fault .endless
  | fuel + 1, id, target, arguments =>
    match target, arguments with
    | .reader attr, [] => do
      let read ← member library id readerName
      call library fuel id read [.text attr]
    | .writer attr, [value] => do
      let write ← member library id writerName
      call library fuel id write [.text attr, value]
    | .setter code, [value] => runSetter library fuel id code value
    | .exporter fields, [] => do
      let members ← Action.forEach (exportField library fuel id) fields
      pure (.map members)
    | .operation operation, arguments => runOperation library fuel id operation arguments
    | _, _ => Action.fault .unsuitable

def runOperation (library : Library) :
    Nat → Nat → Operation → List Value → Action Value
  | 0, _, _, _ => Action.fault .endless
  | fuel + 1, id, operation, arguments =>
    match operation, arguments with
    | .checkElements, [values, kind] => do
      Action.check library (·.checkElements values kind)
      pure .none
    | .checkLength, [value, minimum, maximum] => do
      Action.check library (·.checkLength value minimum maximum)
      pure .none
    | .checkNumber, [value, minimum, maximum] => do
      Action.check library (·.checkBounds false value minimum maximum)
      pure .none
    | .checkNumberKind, [value, minimum, maximum] => do
      let check ← member library id numberCheckName
      let _ ← call library fuel id check [value, minimum, maximum]
      pure .none
    | .checkOneOf, [value, allowed] => do
      Action.check library (·.checkOneOf value allowed)
      pure .none
    | .parseMoment, [value] => Action.check library (·.parseMoment value)
    | .exportElements, [values] => do
      let items ← Action.ofFault values.elements
      let exported ← Action.forEach (exportItem library fuel) items
      pure (.list exported)
    | .readAttribute, [name] => readAttribute id name
    | .writeAttribute, [.text attr, value] => do
      Action.assign id attr value
      pure (.instance id)
    | .findAccessor, [name] => do
      let _ ← Action.ofExcept =<< Action.look (lookupByValue library id name)
      Action.fault .unsuitable
    | .putAttribute, [.text attr, value] => do
      Action.assign id attr value
      pure .none
    | .show, [] => do
      let text ← Action.check library (·.shown (.instance id))
      pure (.text text)
    | .start, [] => pure .none
    | .export, [] => Action.fault .notProvided
    | _, _ => Action.fault .unsuitable

/-- An instance is exported, anything else stays. -/
def exportItem (library : Library) : Nat → Value → Action Value
  | 0, _ => Action.fault .endless
  | fuel + 1, item =>
    match item with
    | .instance id => do
      let target ← member library id "to_dict"
      call library fuel id target []
    | other => pure other

def exportField (library : Library) : Nat → Nat → FieldCode → Action (String × Value)
  | 0, _, _ => Action.fault .endless
  | fuel + 1, id, field =>
    match field.exported with
    | none => do
      let getter ← member library id (Blueprint.getter field.attr)
      let value ← call library fuel id getter []
      pure (field.name, value)
    | some operation => do
      let className ← Action.look (·.classOf id)
      let exporter ← member library id (privateName className operation)
      let getter ← member library id (Blueprint.getter field.attr)
      let value ← call library fuel id getter []
      let exported ← call library fuel id exporter [value]
      pure (field.name, exported)

def runSetter (library : Library) : Nat → Nat → SetterCode → Value → Action Value
  | 0, _, _, _ => Action.fault .endless
  | fuel + 1, id, code, value => do
    let owner ← Action.look (·.classOf id)
    importAll library owner code.statements
    if code.statements.any (givesName receiverName) then Action.fault .unsuitable
    else do
      let value ← Action.through (runStatement library fuel id code) code.statements value
      Action.assign id code.attr value
      pure (.instance id)

/-- The value of the parameter after a statement. -/
def runStatement (library : Library) :
    Nat → Nat → SetterCode → Statement → Value → Action Value
  | 0, _, _, _, _ => Action.fault .endless
  | fuel + 1, id, code, statement, value => do
    let className ← Action.look (·.classOf id)
    match statement with
    | .elements operation expected _ => do
      let check ← member library id (privateName className operation)
      let _ ← call library fuel id check [value, .type (privateName className expected)]
      pure value
    | .within operation minimum maximum => do
      let check ← member library id (privateName className operation)
      let names := setterNames className code check value
      let minimum ← Action.ofFault (literalValue names minimum)
      let maximum ← Action.ofFault (literalValue names maximum)
      let _ ← call library fuel id check [value, minimum, maximum]
      pure value
    | .moment operation => do
      let parse ← member library id (privateName className operation)
      call library fuel id parse [value]
    | .oneOf operation values => do
      let check ← member library id (privateName className operation)
      let names := setterNames className code check value
      let allowed ← Action.ofFault (literalValue names (.arr values))
      let _ ← call library fuel id check [value, allowed]
      pure value

end

/-! ## Calls from outside -/

/-- Enough for every call that ends: on the way down no instance is exported twice, and on an
instance no setter runs twice. -/
def callDepth (library : Library) (store : Store) : Nat :=
  8 * (store.size + 2) * ((library.flatMap (·.2.setters)).length + 2)

/-- Calls what a name means on an instance. -/
def invoke (library : Library) (id : Nat) (name : String) (arguments : List Value) :
    Action Value := do
  let target ← member library id name
  let depth ← Action.look (callDepth library)
  call library depth id target arguments

namespace Instance

def assign (library : Library) (id : Nat) (attr : String) (value : Value) : Action Value :=
  invoke library id (Blueprint.setter attr) [value]

def read (library : Library) (id : Nat) (attr : String) : Action Value :=
  invoke library id (Blueprint.getter attr) []

def exported (library : Library) (id : Nat) : Action Value := invoke library id "to_dict" []

/-- What a name stands for, where that is a value. -/
def valueOf (library : Library) (id : Nat) (name : String) : Action Value := do
  match ← member library id name with
  | .value value => pure value
  | _ => Action.fault .unsuitable

def startField (library : Library) (id : Nat) (field : FieldCode) : Action Unit :=
  match field.start with
  | none => pure ()
  | some (.literal value) => do
    let className ← Action.look (·.classOf id)
    let value ← Action.ofFault (literalValue (classNames className) value)
    Action.assign id field.attr value
  | some (.parsed operation value) => do
    let className ← Action.look (·.classOf id)
    let parse ← member library id (privateName className operation)
    let value ← Action.ofFault (literalValue (classNames className) value)
    let depth ← Action.look (callDepth library)
    let value ← call library depth id parse [value]
    Action.assign id field.attr value

/-- Assigns the value of a key, which is the attribute or the name of a field. -/
def fill (library : Library) (item : LoadedClass) (id : Nat) (entry : String × Value) :
    Action Unit :=
  match item.attributeOf? entry.1 with
  | none => Action.fault (.unknownField item.name (Schema.shownText entry.1))
  | some attr => do
    let _ ← assign library id attr entry.2
    pure ()

/-- A class of this name takes the way to the base of its instances away: making one makes another
one, and so on. -/
def baseAccess : String := "super"

/-- A new instance: every field starts, and then the given values are assigned in order.  The
receiver can not be given by name. -/
def make (library : Library) (className : String) (values : List (String × Value)) :
    Action Nat :=
  match library.classNamed? className with
  | none => Action.fault .missingKey
  | some item =>
    if Entries.contains receiverName values then Action.fault .unsuitable
    else fun store =>
      let id := store.size
      let build : Action Nat := do
        let _ ← Action.forEach (startField library id) item.fields
        if className == baseAccess then Action.fault .endless
        else do
          let _ ← Action.forEach (fill library item id) values
          pure id
      build (store.add className)

end Instance

end ModelMint
