import ModelMint.Blueprint.Rule

/-!
# Blueprints

The blueprint of a class: one member for each property, in document order, each
planned from its own property alone.  What has to fit together is checked when a member
joins the others: attributes differ, and none is named like an accessor of another.
-/

namespace ModelMint.Blueprint

open ModelMint.Schema

structure Member where
  field : Field
  rules : List Rule := []
  constants : List Constant := []
  /-- The definition that the property refers to. -/
  target : Option String := none

structure Plan where
  name : String
  path : String
  description : List String := []
  members : List Member := []

namespace Plan

def fields (plan : Plan) : List Field := plan.members.map Member.field

/-- The members whose assignment is checked. -/
def setters (plan : Plan) : List Member := plan.members.filter (!·.rules.isEmpty)

def constants (plan : Plan) : List Constant := plan.members.flatMap Member.constants

/-- The other classes that the members refer to, each once. -/
def references (plan : Plan) : List String :=
  (plan.members.filterMap Member.target).foldl
    (fun names name => if name == plan.name || names.contains name then names else names ++ [name])
    []

end Plan

/-! ## Members -/

/-- A reference has to lead to a definition of the document, also where the declared type goes
before it. -/
def targetOf (document : Document) (property : Property) : Except Stop (Option String) :=
  if property.isReference then do
    let resolved ← resolveProperty document.raw property
    if document.defines resolved.name then .ok (some resolved.name)
    else .error (.failure {
      cause := .unresolved (property.reference?.getD "") none
        (some (shownText resolved.name ++ " is not a definition of this document"))
      context := { property := some property.name, path := some property.path } })
  else .ok none

def Member.ofProperty (document : Document) (width : Json) (required : List String)
    (property : Property) : Except Stop Member := do
  let target ← targetOf document property
  let field ← Field.ofProperty document.raw width required property
  let rules ← rulesOf document.raw property
  .ok {
    field, rules, target
    constants := (property.enum.map (constantsOf property.name)).getD []
  }

def getter (attr : String) : String := "get_" ++ attr
def setter (attr : String) : String := "set_" ++ attr

def isAccessorOf (name attr : String) : Bool := name == getter attr || name == setter attr

/-- What keeps two fields from being members of one class. -/
def conflict? (earlier later : Field) : Option Malformed :=
  if earlier.attr == later.attr then
    some (.sameAttribute earlier.name later.name later.attr)
  else if isAccessorOf later.attr earlier.attr || isAccessorOf earlier.attr later.attr then
    some (.accessorClash earlier.attr later.attr earlier.name later.name)
  else none

def checkConflicts (earlier : List Member) (member : Member) : Except Stop Unit :=
  match earlier.findSome? fun other => conflict? other.field member.field with
  | some what => .error (.failure { cause := .malformed what })
  | none => .ok ()

/-! ## Classes -/

def Stop.inContext (context : Context) : Stop → Stop
  | .failure found => .failure (found.inContext context)
  | .fault found => .fault found

def planMember (document : Document) (width : Json) (definition : Definition)
    (earlier : List Member) (name : String) (property : Property) : Except Stop Member :=
  let planned : Except Stop Member := do
    let member ← Member.ofProperty document width definition.required property
    checkConflicts earlier member
    .ok member
  planned.mapError (Stop.inContext
    { definition := some definition.name, property := some name, path := some property.path })

def planMembers (document : Document) (width : Json) (definition : Definition)
    (earlier : List Member) : List (String × Property) → Except Stop (List Member)
  | [] => .ok earlier
  | (name, property) :: rest => do
    let member ← planMember document width definition earlier name property
    planMembers document width definition (earlier ++ [member]) rest

/-- A class can only have a name that is an identifier and no reserved word. -/
def Plan.ofDefinition (document : Document) (width : Json) (definition : Definition) :
    Except Stop Plan := do
  if !Text.isPlainName definition.name.toList then
    .error (.failure {
      cause := .malformed (.invalidClassName definition.name)
      context := { definition := some definition.name, path := some definition.path } })
  let description ← Stop.ofFault (describe width definition.description)
  let members ← planMembers document width definition [] definition.properties
  .ok { name := definition.name, path := definition.path, description, members }

end ModelMint.Blueprint
