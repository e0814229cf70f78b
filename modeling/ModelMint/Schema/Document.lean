import ModelMint.Schema.Property

/-!
# Schema documents

The `definitions` of a document, each read on its own: a definition that cannot be
read is kept as a failure and does not hold up the others.  Texts and names that
start with `_comment` are comments.
-/

namespace ModelMint.Schema

structure Definition where
  name : String
  /-- In document order, each name once. -/
  properties : List (String × Property) := []
  required : List String := []
  description : Option String := none
  path : String := ""

structure Document where
  raw : Json
  /-- What each definition that is no comment was read as, in document order. -/
  entries : List (String × Except Failure Definition)

namespace Document

def isComment (name : String) (body : Json) : Bool :=
  body.str?.isSome || "_comment".toList.isPrefixOf name.toList

def readProperty (definition path name : String) (schema : Json) :
    Except Failure (String × Property) :=
  let place := path ++ "/properties/" ++ name
  match Property.read name schema place with
  | .ok property => .ok (name, property)
  | .error failure => .error (failure.inContext
      { definition := some definition, property := some name, path := some place })

def readRequired : Option Json → Option (List String)
  | none => some []
  | some (.arr names) => Property.texts? names
  | some _ => none

def readDefinition (name : String) (body : Json) : Except Failure Definition :=
  let path := "#/definitions/" ++ name
  let fail {α : Type} (what : Malformed) (suffix : String) : Except Failure α :=
    .error { cause := .malformed what,
             context := { definition := some name, path := some (path ++ suffix) } }
  match body with
  | .obj members =>
    match (Entries.get? "properties" members).getD (.obj []) with
    | .obj properties =>
      match readRequired (Entries.get? "required" members) with
      | some required => do
        let description ←
          Property.readDescription ((Entries.get? "description" members).getD .null)
        let properties ← properties.mapM fun (key, schema) => readProperty name path key schema
        .ok { name, properties, required, description, path }
      | none => fail .requiredNotNames "/required"
    | _ => fail .propertiesNotObject "/properties"
  | _ => fail .definitionNotObject ""

def readEntry (name : String) (body : Json) : Except Failure Definition :=
  match readDefinition name body with
  | .ok definition => .ok definition
  | .error failure => .error (failure.inContext { definition := some name })

def read (schema : Json) : Except Failure Document :=
  match schema with
  | .obj members =>
    match Entries.get? "definitions" members with
    | some (.obj definitions) =>
      .ok {
        raw := schema
        entries := definitions.filterMap fun (name, body) =>
          if isComment name body then none else some (name, readEntry name body)
      }
    | _ => .error { cause := .malformed .definitionsNotObject,
                    context := { path := some "#/definitions" } }
  | _ => .error { cause := .malformed .documentNotObject, context := { path := some "#" } }

def definitions (document : Document) : List (String × Definition) :=
  document.entries.filterMap fun (name, entry) => entry.toOption.map (name, ·)

def failures (document : Document) : List (String × Failure) :=
  document.entries.filterMap fun (name, entry) => match entry with
    | .ok _ => none
    | .error failure => some (name, failure)

/-- Whether a name stands for a definition that could be read. -/
def defines (document : Document) (name : String) : Bool :=
  document.entries.any fun (other, entry) => other == name && entry.toOption.isSome

end Document

end ModelMint.Schema
