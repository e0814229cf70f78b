import ModelMint.Instance.Compare
import ModelMint.Instance.Library
import ModelMint.Moment.Reader

/-!
# Checks

The operations of the base class that only look at values: bounds, elements, allowed
values, and the parsing of dates.
-/

namespace ModelMint

/-- What checks look at. -/
structure Scene where
  library : Library
  store : Store

namespace Scene

def shown (scene : Scene) (value : Value) : Except Refusal String :=
  match scene.store.shown scene.library.fieldNames value with
  | .ok text => .ok text
  | .error fault => .error (.fault fault)

def ofFault {α : Type} : Except Fault α → Except Refusal α
  | .ok value => .ok value
  | .error fault => .error (.fault fault)

def boundText (scene : Scene) (bound : Value) : Except Refusal (Option String) :=
  match bound with
  | .none => .ok none
  | bound => ofFault ((scene.store.plain scene.library.fieldNames bound).map some)

/-- Whether the value is below the bound, if there is one. -/
def below (scene : Scene) (value minimum : Value) : Except Fault Bool :=
  match minimum with
  | .none => .ok false
  | minimum => scene.store.less value minimum

def above (scene : Scene) (value maximum : Value) : Except Fault Bool :=
  match maximum with
  | .none => .ok false
  | maximum => scene.store.less maximum value

/-- A value below the minimum is not compared with the maximum. -/
def isOutside (scene : Scene) (value minimum maximum : Value) : Except Fault Bool :=
  match scene.below value minimum with
  | .ok false => scene.above value maximum
  | other => other

def checkBounds (scene : Scene) (isLength : Bool) (value minimum maximum : Value) :
    Except Refusal Unit := do
  if ← ofFault (scene.isOutside value minimum maximum) then
    let value ← scene.shown value
    let minimum ← scene.boundText minimum
    let maximum ← scene.boundText maximum
    .error (.violation (.outOfBounds isLength value minimum maximum))

def checkLength (scene : Scene) (value minimum maximum : Value) : Except Refusal Unit := do
  let length : Nat ← ofFault value.length
  scene.checkBounds true (.int length) minimum maximum

/-- Whether the value is an instance of the class. -/
def isInstanceOf (scene : Scene) (value : Value) (className : String) : Bool :=
  match value with
  | .instance id => scene.store.classOf id == className
  | _ => false

def checkElementsFrom (scene : Scene) (className : String) (index : Nat) :
    List Value → Except Refusal Unit
  | [] => .ok ()
  | item :: rest =>
    if scene.isInstanceOf item className then
      checkElementsFrom scene className (index + 1) rest
    else
      .error (.violation (.wrongElement index className (scene.store.typeName item)))

/-- Only a class has instances. -/
def checkElements (scene : Scene) (values kind : Value) : Except Refusal Unit := do
  let items ← ofFault values.elements
  match kind with
  | .type className => scene.checkElementsFrom className 0 items
  | _ => if items.isEmpty then .ok () else .error (.fault .unsuitable)

def checkOneOf (scene : Scene) (value allowed : Value) : Except Refusal Unit := do
  if ← ofFault (scene.store.contains value allowed) then .ok ()
  else
    let choices ← ofFault allowed.elements
    let value ← scene.shown value
    let choices ← choices.mapM scene.shown
    .error (.violation (.notListed value choices))

/-- A moment stays as it is. -/
def parseMoment (scene : Scene) (value : Value) : Except Refusal Value :=
  let refuse : Except Refusal Value := do
    let value ← scene.shown value
    .error (.violation (.notADate value))
  match value with
  | .moment moment => .ok (.moment moment)
  | .text text => match Moment.read? text.toList with
    | some moment => .ok (.moment moment)
    | none => refuse
  | _ => refuse

end Scene

end ModelMint
