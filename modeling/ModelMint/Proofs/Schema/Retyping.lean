import ModelMint.Blueprint.TypeName
import ModelMint.Proofs.Schema.Rewriting

/-!
# Schemas with other type names

A type name that means nothing to a class passes through as it is.  With `object` in the
place of every such name the same definitions can be read, and they differ in nothing else.
-/

namespace ModelMint

namespace TypeName

/-- The names that are translated or make a difference; any other passes through. -/
def meant : List String :=
  ["boolean", "string", "number", "integer", "array", int, float, list, moment]

def retyped (name : String) : String := if meant.contains name then name else "object"

theorem retyped_ne_null {name : String} : retyped name ≠ "null" := by
  unfold retyped
  split
  next hmeant =>
    rintro rfl
    exact absurd hmeant (by decide)
  · decide

end TypeName

/-! ## Where reading succeeds -/

section Successes

variable {ε α β : Type}

theorem toOption_bind {result : Except ε α} {next : α → Except ε β} :
    (result >>= next).toOption = result.toOption.bind fun value => (next value).toOption := by
  cases result <;> rfl

theorem toOption_mapM {f : α → Except ε β} {items : List α} :
    (items.mapM f).toOption = items.mapM fun item => (f item).toOption := by
  induction items with
  | nil => rfl
  | cons item rest ih =>
      rw [List.mapM_cons, List.mapM_cons, toOption_bind]
      simp only [toOption_bind, ih]
      rfl

theorem mapM_option_map {f : α → Option β} {γ : Type} {g : β → γ} {items : List α} :
    (items.mapM fun item => (f item).map g) = (items.mapM f).map (List.map g) := by
  induction items with
  | nil => rfl
  | cons item rest ih =>
      rw [List.mapM_cons, List.mapM_cons, ih]
      cases f item with
      | none => rfl
      | some first => cases rest.mapM f <;> rfl

end Successes

namespace Schema

/-! ## Types -/

/-- In a union a name of no value stays. -/
def retypedMember : Json → Json
  | .str name => .str (if name = "null" then name else TypeName.retyped name)
  | other => other

def retypedValue : Json → Json
  | .str name => .str (TypeName.retyped name)
  | .arr items => .arr (items.map retypedMember)
  | other => other

def retypedBody : Json → Json := mapProperties (Json.mapAt "type" retypedValue)

/-- The schema with `object` for every type name that passes through. -/
def retypedSchema : Json → Json := mapDefinitions retypedBody

def Property.retyped (property : Property) : Property :=
  { property with type := property.type.map TypeName.retyped }

def Definition.retyped (definition : Definition) : Definition :=
  { definition with properties := definition.properties.map fun entry => (entry.1, entry.2.retyped) }

theorem texts?_retyped (items : List Json) : Property.texts? (items.map retypedMember) =
    (Property.texts? items).map (List.map fun name =>
      if name = "null" then name else TypeName.retyped name) := by
  induction items with
  | nil => rfl
  | cons item rest ih =>
      cases item with
      | str name =>
          simp only [List.map_cons, retypedMember, Property.texts?, ih]
          cases Property.texts? rest <;> rfl
      | _ => rfl

theorem find?_retyped (names : List String) :
    (names.map fun name => if name = "null" then name else TypeName.retyped name).find? (· != "null") =
      (names.find? (· != "null")).map TypeName.retyped := by
  induction names with
  | nil => rfl
  | cons name rest ih =>
      rw [List.map_cons, List.find?_cons, List.find?_cons, ih]
      by_cases hname : name = "null"
      · subst hname
        rfl
      · have hother : (TypeName.retyped name != "null") = true := bne_iff_ne.mpr TypeName.retyped_ne_null
        have hkept : (name != "null") = true := bne_iff_ne.mpr hname
        rw [if_neg hname, hother, hkept]
        rfl

theorem readType_retyped (value : Json) : (Property.readType (retypedValue value)).toOption =
    (Property.readType value).toOption.map (Option.map TypeName.retyped) := by
  cases value with
  | arr items =>
      simp only [retypedValue, Property.readType, texts?_retyped]
      cases Property.texts? items with
      | none => rfl
      | some names =>
          simp only [Option.map_some, find?_retyped]
          rfl
  | _ => rfl

/-! ## Properties and definitions -/

theorem readProperty_retyped (name place : String) (schema : Json) :
    (Property.read name (Json.mapAt "type" retypedValue schema) place).toOption =
      (Property.read name schema place).toOption.map Property.retyped := by
  have hother : ∀ key, key ≠ "type" →
      (Json.mapAt "type" retypedValue schema).get? key = schema.get? key :=
    fun key hkey => Json.get?_mapAt_of_ne hkey retypedValue schema
  have htype : ((Json.mapAt "type" retypedValue schema).get? "type").getD .null =
      retypedValue ((schema.get? "type").getD .null) := by
    rw [Json.get?_mapAt_self]
    cases schema.get? "type" <;> rfl
  rw [Property.read_eq, Property.read_eq, Json.isObject_mapAt]
  split
  · simp only [Property.ofKeywords, htype, hother "$ref" (by decide), hother "minimum" (by decide),
      hother "maximum" (by decide), hother "minItems" (by decide), hother "maxItems" (by decide),
      hother "description" (by decide), hother "items" (by decide), hother "enum" (by decide),
      hother "format" (by decide), hother "default" (by decide)]
    rw [toOption_bind, toOption_bind, readType_retyped, Option.map_bind, Option.bind_map]
    congr 1
    funext type
    simp only [Function.comp_def, toOption_bind, Option.map_bind]
    rfl
  · rfl

theorem readEntries_retyped (definition path : String) (properties : List (String × Json)) :
    ((properties.map fun entry => (entry.1, Json.mapAt "type" retypedValue entry.2)).mapM
      fun entry => Document.readProperty definition path entry.1 entry.2).toOption =
      (properties.mapM fun entry =>
        Document.readProperty definition path entry.1 entry.2).toOption.map
          (List.map fun entry => (entry.1, entry.2.retyped)) := by
  have hentry : ∀ name schema, (Document.readProperty definition path name
      (Json.mapAt "type" retypedValue schema)).toOption =
        (Document.readProperty definition path name schema).toOption.map fun entry =>
          (entry.1, entry.2.retyped) := by
    intro name schema
    have hproperty := readProperty_retyped name (path ++ "/properties/" ++ name) schema
    unfold Document.readProperty
    revert hproperty
    simp only
    cases Property.read name (Json.mapAt "type" retypedValue schema)
        (path ++ "/properties/" ++ name) <;>
      cases Property.read name schema (path ++ "/properties/" ++ name) <;> simp [Except.toOption]
  rw [List.mapM_map, toOption_mapM, toOption_mapM, ← mapM_option_map]
  simp only [Function.comp_def, hentry]

theorem readDefinition_retyped (name : String) (body : Json) :
    (Document.readDefinition name (retypedBody body)).toOption =
      (Document.readDefinition name body).toOption.map Definition.retyped := by
  have hother : ∀ key, key ≠ "properties" →
      (retypedBody body).get? key = body.get? key :=
    fun key hkey => Json.get?_mapAt_of_ne hkey _ body
  have hproperties : ((retypedBody body).get?
      "properties").getD (.obj []) = Json.mapMembers (fun _ => Json.mapAt "type" retypedValue)
        ((body.get? "properties").getD (.obj [])) := by
    rw [retypedBody, mapProperties, Json.get?_mapAt_self]
    cases body.get? "properties" <;> rfl
  rw [Document.readDefinition_eq, Document.readDefinition_eq,
    show (retypedBody body).isObject = body.isObject from Json.isObject_mapAt "properties" _ body]
  split
  · simp only [Document.ofKeywords, hproperties, hother "required" (by decide),
      hother "description" (by decide)]
    cases (body.get? "properties").getD (.obj []) with
    | obj properties =>
        simp only [Json.mapMembers]
        cases Document.readRequired (body.get? "required") with
        | none => rfl
        | some required =>
            simp only [toOption_bind, Option.map_bind, readEntries_retyped]
            congr 1
            funext description
            simp only [Function.comp_def, Option.map_bind, Option.bind_map]
            rfl
    | _ => rfl
  · rfl

theorem readEntry_retyped (name : String) (body : Json) :
    (Document.readEntry name (retypedBody body)).toOption =
      (Document.readEntry name body).toOption.map Definition.retyped := by
  have hdefinition := readDefinition_retyped name body
  unfold Document.readEntry
  revert hdefinition
  cases Document.readDefinition name (retypedBody body) <;>
    cases Document.readDefinition name body <;> simp [Except.toOption]

/-! ## Documents -/

theorem samePaths_retypedSchema (schema : Json) : SamePaths (retypedSchema schema) schema := by
  refine samePaths_mapDefinitions (samePaths_mapProperties (samePaths_mapAt fun value => ?_)) schema
  cases value with
  | obj members => exact .refl _
  | _ => exact samePaths_of_leaves (fun _ => rfl) fun _ => rfl

/-- The same definitions can be read, each with its own types only. -/
theorem read_retypedSchema {schema : Json} {document : Document}
    (h : Document.read schema = .ok document) :
    ∃ next, Document.read (retypedSchema schema) = .ok next ∧ Alike document next ∧
      ∀ name definition, Entries.get? name document.entries = some (.ok definition) →
        Entries.get? name next.entries = some (.ok definition.retyped) := by
  obtain ⟨bodies, hentries, hread⟩ := read_mapDefinitions
    (f := retypedBody) (Json.str?_mapAt "properties" _) h
  refine ⟨_, hread, ⟨?_, fun name => ?_⟩, fun name definition hentry => ?_⟩
  · rw [(read_eq_ok h).1]
    intro pointer
    exact (sameNames_of_samePaths (samePaths_retypedSchema schema) pointer).symm
  · have hsome : ∀ name body, (Document.readEntry name
        (retypedBody body)).toOption.isSome =
          (Document.readEntry name body).toOption.isSome := by
      intro name body
      rw [readEntry_retyped, Option.isSome_map]
    simp only [Document.defines, hentries, List.any_map, Function.comp_def, hsome]
  · rw [hentries, Entries.get?_map] at hentry
    obtain ⟨body, hbody, hdefinition⟩ := Option.map_eq_some_iff.mp hentry
    have hretyped := readEntry_retyped name body
    rw [hdefinition] at hretyped
    rw [Entries.get?_map fun name body => Document.readEntry name
      (retypedBody body), hbody, Option.map_some]
    revert hretyped
    cases Document.readEntry name (retypedBody body) <;>
      simp [Except.toOption]

end Schema

end ModelMint
