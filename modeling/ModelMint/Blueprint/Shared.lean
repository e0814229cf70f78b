import ModelMint.Blueprint.Plan
import ModelMint.Schema.Resolver

/-!
# Planning with one resolver

The plans of all classes of a document come from one resolver, which goes from each
question to the next one, also past a stop.  Apart from the pointers, which it is asked
to follow, a property is planned as it is on its own.
-/

namespace ModelMint.Blueprint.Shared

open ModelMint.Schema

/-- A step that may ask the resolver and may stop. -/
abbrev Asking (ε α : Type) : Type := ExceptT ε (StateM Resolver) α

def Asking.of {ε α : Type} (result : Except ε α) : Asking ε α := fun resolver => (result, resolver)

def ask {ε : Type} (pointer : String) : Asking ε (Except Failure Resolved) := fun resolver =>
  ((.ok (resolver.resolve pointer).1), (resolver.resolve pointer).2)

/-- How a step ended; what the resolver found on the way it keeps. -/
def Asking.caught {δ ε α : Type} (action : Asking ε α) : Asking δ (Except ε α) := fun resolver =>
  (.ok (action resolver).1, (action resolver).2)

/-! ## Types of properties -/

def resolveProperty (property : Property) : Asking Stop Resolved :=
  match property.reference? with
  | some pointer => do
    match ← ask pointer with
    | .ok resolved => Asking.of (.ok resolved)
    | .error failure => Asking.of (.error (.failure (failure.inContext
        { property := some property.name, path := some property.path })))
  | none =>
    let place := if property.path.isEmpty then property.name else property.path
    Asking.of (.error (.fault (.notAReference (shownText place))))

def referencedType (property : Property) : Asking Stop (Option String) :=
  if property.isReference then do
    let resolved ← resolveProperty property
    Asking.of (.ok (some (TypeName.ofSchema resolved.name)))
  else Asking.of (.ok none)

def storageType (property : Property) : Asking Stop (Option String) :=
  if property.isDateTime then Asking.of (.ok (some TypeName.moment))
  else match property.type with
    | some name => Asking.of (.ok (some (TypeName.ofSchema name)))
    | none => referencedType property

def elementType (property : Property) : Asking Stop (Option String) :=
  if property.isDateTime then Asking.of (.ok (some TypeName.moment)) else referencedType property

def isPureArray (property : Property) : Asking Stop Bool :=
  if property.isReference then do
    let storage ← storageType property
    Asking.of (.ok (storage == some TypeName.list))
  else Asking.of (.ok false)

def elementTypeIf (wanted : Bool) (property : Property) : Asking Stop (Option String) :=
  if wanted then elementType property else Asking.of (.ok none)

/-! ## Members -/

def fieldOf (width : Json) (required : List String) (property : Property) : Asking Stop Field := do
  let storage ← storageType property
  let pure ← isPureArray property
  let referenced ← elementTypeIf pure property
  let initial ← Asking.of
    (Stop.ofFailure (initialOf property required (storage == some TypeName.list)))
  let description ← Asking.of (Stop.ofFault (describe width property.description))
  let element ← elementTypeIf (property.type.isSome && property.isReference) property
  Asking.of (.ok {
    name := property.name
    attr := String.ofList (Text.attributeName property.name.toList)
    storage
    element := referenced
    documented := documentedType property storage element
    initial
    description
  })

def elementRules (property : Property) : Asking Stop (List Rule) := do
  if ← isPureArray property then do
    let element ← elementType property
    Asking.of (.ok (element.map Rule.elements).toList)
  else Asking.of (.ok [])

def rulesOf (property : Property) : Asking Stop (List Rule) := do
  let storage ← storageType property
  let elements ← elementRules property
  Asking.of (.ok (elements ++ lengthRules storage property ++ boundRules storage property ++
    momentRules storage ++ valueRules property))

def targetOf (document : Document) (property : Property) : Asking Stop (Option String) :=
  if property.isReference then do
    let resolved ← resolveProperty property
    if document.defines resolved.name then Asking.of (.ok (some resolved.name))
    else Asking.of (.error (.failure {
      cause := .unresolved (property.reference?.getD "") none
        (some (shownText resolved.name ++ " is not a definition of this document"))
      context := { property := some property.name, path := some property.path } }))
  else Asking.of (.ok none)

def memberOf (document : Document) (width : Json) (required : List String)
    (property : Property) : Asking Stop Member := do
  let target ← targetOf document property
  let field ← fieldOf width required property
  let rules ← rulesOf property
  Asking.of (.ok {
    field, rules, target
    constants := (property.enum.map (constantsOf property.name)).getD []
  })

/-! ## Classes -/

def planMember (document : Document) (width : Json) (definition : Definition)
    (earlier : List Member) (name : String) (property : Property) : Asking Stop Member :=
  let planned : Asking Stop Member := do
    let member ← memberOf document width definition.required property
    Asking.of (checkConflicts earlier member)
    Asking.of (.ok member)
  planned.adapt (Stop.inContext
    { definition := some definition.name, property := some name, path := some property.path })

def planMembers (document : Document) (width : Json) (definition : Definition)
    (earlier : List Member) : List (String × Property) → Asking Stop (List Member)
  | [] => Asking.of (.ok earlier)
  | (name, property) :: rest => do
    let member ← planMember document width definition earlier name property
    planMembers document width definition (earlier ++ [member]) rest

def planOf (document : Document) (width : Json) (definition : Definition) : Asking Stop Plan := do
  Asking.of <| if !Text.isPlainName definition.name.toList then
    .error (.failure {
      cause := .malformed (.invalidClassName definition.name)
      context := { definition := some definition.name, path := some definition.path } })
    else .ok ()
  let description ← Asking.of (Stop.ofFault (describe width definition.description))
  let members ← planMembers document width definition [] definition.properties
  Asking.of (.ok { name := definition.name, path := definition.path, description, members })

end ModelMint.Blueprint.Shared
