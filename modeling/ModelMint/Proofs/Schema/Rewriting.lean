import ModelMint.Proofs.Schema.Reordering

/-!
# Schemas rewritten in places

Texts of a schema put in the place of others.  Keys stay where they are, so pointers lead
as far as before.
-/

namespace ModelMint

/-! ## Members -/

theorem Entries.get?_map {α β γ : Type} [DecidableEq α] (f : α → β → γ) (key : α)
    (entries : List (α × β)) :
    Entries.get? key (entries.map fun entry => (entry.1, f entry.1 entry.2)) =
      (Entries.get? key entries).map (f key) := by
  induction entries with
  | nil => rfl
  | cons first rest ih =>
      by_cases hkey : first.1 = key
      · subst hkey
        simp [Entries.get?]
      · simpa [Entries.get?, hkey] using ih

namespace Json

/-- The value with something else for each of its members. -/
def mapMembers (f : String → Json → Json) : Json → Json
  | .obj members => .obj (members.map fun (key, value) => (key, f key value))
  | other => other

def isObject : Json → Bool
  | .obj _ => true
  | _ => false

/-- The value with something else for the member under a key. -/
def mapAt (key : String) (f : Json → Json) : Json → Json :=
  mapMembers fun other value => if other = key then f value else value

variable {f : String → Json → Json}

@[simp] theorem get?_mapMembers (key : String) (value : Json) :
    (mapMembers f value).get? key = (value.get? key).map (f key) := by
  cases value with
  | obj members => exact Entries.get?_map f key members
  | _ => rfl

@[simp] theorem str?_mapMembers (value : Json) : (mapMembers f value).str? = value.str? := by
  cases value <;> rfl

@[simp] theorem isObject_mapMembers (value : Json) :
    (mapMembers f value).isObject = value.isObject := by
  cases value <;> rfl

theorem get?_mapAt_self (key : String) (f : Json → Json) (value : Json) :
    (mapAt key f value).get? key = (value.get? key).map f := by
  simp [mapAt]

theorem get?_mapAt_of_ne {key other : String} (h : other ≠ key) (f : Json → Json) (value : Json) :
    (mapAt key f value).get? other = value.get? other := by
  simp [mapAt, h]

@[simp] theorem str?_mapAt (key : String) (f : Json → Json) (value : Json) :
    (mapAt key f value).str? = value.str? := str?_mapMembers value

@[simp] theorem isObject_mapAt (key : String) (f : Json → Json) (value : Json) :
    (mapAt key f value).isObject = value.isObject := isObject_mapMembers value

end Json

namespace Schema

/-! ## Keywords -/

/-- The property that these keywords make. -/
def Property.ofKeywords (name place : String) (keyword? : String → Option Json) :
    Except Failure Property := do
  let keyword (key : String) : Json := (keyword? key).getD .null
  let type ← readType (keyword "type")
  let ref ← readReference (keyword "$ref")
  let minimum ← readNumber "minimum" (keyword "minimum")
  let maximum ← readNumber "maximum" (keyword "maximum")
  let minItems ← readNumber "minItems" (keyword "minItems")
  let maxItems ← readNumber "maxItems" (keyword "maxItems")
  let description ← readDescription (keyword "description")
  let itemsRef ← readItemsReference (keyword? "items")
  let enum ← readEnum (keyword? "enum")
  .ok {
    name, type, format := keyword "format", ref, itemsRef, enum, minimum, maximum, minItems,
    maxItems, default := keyword? "default", description, path := place }

/-- Of an object nothing but its keywords is read. -/
theorem Property.read_eq (name place : String) (schema : Json) : Property.read name schema place =
    if schema.isObject then ofKeywords name place fun key => schema.get? key
    else malformed .propertyNotObject := by
  cases schema <;> rfl

/-- A failure in a part of a definition. -/
def Document.definitionFailure (name : String) (what : Malformed) (suffix : String) : Failure where
  cause := .malformed what
  context := { definition := some name, path := some ("#/definitions/" ++ name ++ suffix) }

/-- The definition that these keywords make. -/
def Document.ofKeywords (name : String) (keyword? : String → Option Json) :
    Except Failure Definition :=
  match (keyword? "properties").getD (.obj []) with
  | .obj properties =>
    match readRequired (keyword? "required") with
    | some required => do
      let description ← Property.readDescription ((keyword? "description").getD .null)
      let properties ← properties.mapM fun (key, schema) =>
        readProperty name ("#/definitions/" ++ name) key schema
      .ok { name, properties, required, description, path := "#/definitions/" ++ name }
    | none => .error (definitionFailure name .requiredNotNames "/required")
  | _ => .error (definitionFailure name .propertiesNotObject "/properties")

theorem Document.readDefinition_eq (name : String) (body : Json) : readDefinition name body =
    if body.isObject then ofKeywords name fun key => body.get? key
    else .error (definitionFailure name .definitionNotObject "") := by
  cases body <;> rfl

/-! ## Bodies -/

/-- The schema with something else for the body of each definition. -/
def mapDefinitions (f : Json → Json) : Json → Json :=
  Json.mapAt "definitions" (Json.mapMembers fun _ => f)

/-- The body of a definition with something else for each property. -/
def mapProperties (f : Json → Json) : Json → Json :=
  Json.mapAt "properties" (Json.mapMembers fun _ => f)

/-! ## Paths -/

/-- Every path leads to a value in both, or ends at the same key. -/
def SamePaths (value other : Json) : Prop :=
  ∀ path, (Pointer.follow value path).map (fun _ => ()) =
    (Pointer.follow other path).map (fun _ => ())

variable {value other third root : Json} {f : Json → Json}

theorem SamePaths.refl (value : Json) : SamePaths value value := fun _ => rfl

theorem SamePaths.trans (h : SamePaths value other) (hother : SamePaths other third) :
    SamePaths value third := fun path => (h path).trans (hother path)

theorem samePaths_mapMembers {f : String → Json → Json} (h : ∀ key value, SamePaths (f key value) value)
    (value : Json) : SamePaths (Json.mapMembers f value) value
  | [] => rfl
  | key :: rest => by
    simp only [Pointer.follow, Json.get?_mapMembers]
    cases value.get? key with
    | none => rfl
    | some next => exact h key next rest

theorem samePaths_mapAt {key : String} (h : ∀ value, SamePaths (f value) value) (value : Json) :
    SamePaths (Json.mapAt key f value) value := by
  refine samePaths_mapMembers (fun other value => ?_) value
  split
  · exact h value
  · exact .refl value

theorem samePaths_mapDefinitions (h : ∀ value, SamePaths (f value) value) (schema : Json) :
    SamePaths (mapDefinitions f schema) schema :=
  samePaths_mapAt (samePaths_mapMembers fun _ => h) schema

theorem samePaths_mapProperties (h : ∀ value, SamePaths (f value) value) (body : Json) :
    SamePaths (mapProperties f body) body :=
  samePaths_mapAt (samePaths_mapMembers fun _ => h) body

/-- No path leads into a value without members. -/
theorem samePaths_of_leaves (h : ∀ key, value.get? key = none) (hother : ∀ key, other.get? key = none) :
    SamePaths value other
  | [] => rfl
  | key :: rest => by simp only [Pointer.follow, h, hother]

theorem sameNames_of_samePaths (h : SamePaths root other) : SameNames root other := by
  intro pointer
  have hpath := h (Pointer.keys pointer)
  unfold resolve
  simp only
  split
  · rfl
  · rfl
  · revert hpath
    cases Pointer.follow root (Pointer.keys pointer) <;>
      cases Pointer.follow other (Pointer.keys pointer) <;> simp [Except.map]

/-! ## Documents -/

/-- Comments are left out before the entries are read. -/
theorem filterMap_definitions (read : String → Json → Except Failure Definition)
    (definitions : List (String × Json)) :
    (definitions.filterMap fun (name, body) =>
      if Document.isComment name body then none else some (name, read name body)) =
        (definitions.filter fun entry => !Document.isComment entry.1 entry.2).map fun entry =>
          (entry.1, read entry.1 entry.2) := by
  rw [← List.filterMap_eq_map, List.filterMap_filter]
  congr 1
  funext ⟨name, body⟩
  cases hcomment : Document.isComment name body <;> simp [hcomment]

theorem get?_mapDefinitions {members definitions : List (String × Json)}
    (h : Entries.get? "definitions" members = some (.obj definitions)) :
    (mapDefinitions f (.obj members)).get? "definitions" =
      some (.obj (definitions.map fun (name, body) => (name, f body))) := by
  rw [mapDefinitions, Json.get?_mapAt_self, Json.get?, h]
  rfl

/-- The same entries are read of a schema with other bodies, each of its own body. -/
theorem read_mapDefinitions (hf : ∀ body, (f body).str? = body.str?) {schema : Json}
    {document : Document} (h : Document.read schema = .ok document) :
    ∃ bodies : List (String × Json),
      document.entries = bodies.map (fun entry => (entry.1, Document.readEntry entry.1 entry.2)) ∧
      Document.read (mapDefinitions f schema) = .ok {
        raw := mapDefinitions f schema
        entries := bodies.map fun entry => (entry.1, Document.readEntry entry.1 (f entry.2)) } := by
  obtain ⟨-, members, definitions, rfl, hdefinitions, hentries⟩ := read_eq_ok h
  have hfound : (mapDefinitions f (.obj members)).get? "definitions" = _ :=
    get?_mapDefinitions hdefinitions
  refine ⟨definitions.filter fun entry => !Document.isComment entry.1 entry.2, ?_, ?_⟩
  · rw [hentries]
    exact filterMap_definitions Document.readEntry definitions
  · obtain ⟨⟨raw, entries⟩, hother⟩ := exists_read hfound
    obtain ⟨hraw, hothers⟩ := entries_of_read hfound hother
    simp only at hraw hothers
    rw [List.filterMap_map] at hothers
    rw [hother, hraw, hothers,
      ← filterMap_definitions (fun name body => Document.readEntry name (f body)) definitions]
    simp only [Function.comp_def, Document.isComment, hf]
    rfl

/-- Other bodies do not help a schema that is not read. -/
theorem read_mapDefinitions_error {schema : Json} {failure : Failure}
    (h : Document.read schema = .error failure) :
    Document.read (mapDefinitions f schema) = .error failure := by
  cases schema with
  | obj members =>
      have hdefinitions := Json.get?_mapAt_self "definitions" (Json.mapMembers fun _ => f) (.obj members)
      simp only [Json.mapAt, Json.mapMembers, Json.get?] at hdefinitions
      simp only [mapDefinitions, Json.mapAt, Json.mapMembers, Document.read, hdefinitions]
      unfold Document.read at h
      simp only at h
      cases hfound : Entries.get? "definitions" members with
      | none =>
          rw [hfound] at h
          exact h
      | some found =>
          rw [hfound] at h
          cases found with
          | obj definitions => cases h
          | _ => exact h
  | _ => exact h

end Schema

end ModelMint
