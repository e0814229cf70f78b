import ModelMint.Proofs.Schema.Rewriting

/-!
# Schemas with other descriptions

What the descriptions of definitions and properties say makes no difference to anything
else that is read, not even to what pointers resolve to.
-/

namespace ModelMint.Schema

/-! ## Silent schemas -/

/-- A text that says nothing. -/
def silenced : Json → Json
  | .str _ => .str ""
  | other => other

def silencedProperty : Json → Json := Json.mapAt "description" silenced

def silencedBody (body : Json) : Json :=
  Json.mapAt "description" silenced (mapProperties silencedProperty body)

/-- The schema with nothing said in its descriptions. -/
def silencedSchema : Json → Json := mapDefinitions silencedBody

def silentText (description : Option String) : Option String := description.map fun _ => ""

def Property.silent (property : Property) : Property :=
  { property with description := silentText property.description }

def Definition.silent (definition : Definition) : Definition :=
  { definition with
    description := silentText definition.description
    properties := definition.properties.map fun entry => (entry.1, entry.2.silent) }

theorem samePaths_silenced (value : Json) : SamePaths (silenced value) value := by
  cases value with
  | str text => exact samePaths_of_leaves (fun _ => rfl) fun _ => rfl
  | _ => exact .refl _

theorem samePaths_silencedSchema (schema : Json) : SamePaths (silencedSchema schema) schema := by
  refine samePaths_mapDefinitions (fun body => ?_) schema
  exact (samePaths_mapAt samePaths_silenced _).trans
    (samePaths_mapProperties (samePaths_mapAt samePaths_silenced) body)

/-! ## Reading -/

theorem readDescription_silenced (value : Json) :
    Property.readDescription (silenced value) = (Property.readDescription value).map silentText := by
  cases value <;> rfl

theorem getD_silenced (value : Option Json) :
    (value.map silenced).getD .null = silenced (value.getD .null) := by
  cases value <;> rfl

theorem readProperty_silenced (name place : String) (schema : Json) :
    Property.read name (silencedProperty schema) place =
      (Property.read name schema place).map Property.silent := by
  have hother : ∀ key, key ≠ "description" →
      (silencedProperty schema).get? key = schema.get? key :=
    fun key hkey => Json.get?_mapAt_of_ne hkey silenced schema
  have hdescription : ((silencedProperty schema).get? "description").getD .null =
      silenced ((schema.get? "description").getD .null) := by
    rw [silencedProperty, Json.get?_mapAt_self, getD_silenced]
  rw [Property.read_eq, Property.read_eq, silencedProperty, Json.isObject_mapAt, ← silencedProperty]
  split
  · simp only [Property.ofKeywords, hdescription, hother "type" (by decide), hother "$ref" (by decide),
      hother "minimum" (by decide), hother "maximum" (by decide), hother "minItems" (by decide),
      hother "maxItems" (by decide), hother "items" (by decide), hother "enum" (by decide),
      hother "format" (by decide), hother "default" (by decide), readDescription_silenced, map_bind,
      bind_map_left]
    rfl
  · rfl

theorem readEntries_silenced (definition path : String) (properties : List (String × Json)) :
    ((properties.map fun entry => (entry.1, silencedProperty entry.2)).mapM
      fun entry => Document.readProperty definition path entry.1 entry.2) =
      (properties.mapM fun entry => Document.readProperty definition path entry.1 entry.2).map
        (List.map fun entry => (entry.1, entry.2.silent)) := by
  have hentry : ∀ name schema, Document.readProperty definition path name (silencedProperty schema) =
      (Document.readProperty definition path name schema).map fun entry =>
        (entry.1, entry.2.silent) := by
    intro name schema
    unfold Document.readProperty
    simp only [readProperty_silenced]
    cases Property.read name schema (path ++ "/properties/" ++ name) <;> rfl
  rw [List.mapM_map, ← mapM_map_right]
  simp only [Function.comp_def, hentry]

theorem readDefinition_silenced (name : String) (body : Json) :
    Document.readDefinition name (silencedBody body) =
      (Document.readDefinition name body).map Definition.silent := by
  have hproperties : ((silencedBody body).get? "properties").getD (.obj []) =
      Json.mapMembers (fun _ => silencedProperty) ((body.get? "properties").getD (.obj [])) := by
    rw [silencedBody, Json.get?_mapAt_of_ne (by decide), mapProperties, Json.get?_mapAt_self]
    cases body.get? "properties" <;> rfl
  have hdescription : ((silencedBody body).get? "description").getD .null =
      silenced ((body.get? "description").getD .null) := by
    rw [silencedBody, Json.get?_mapAt_self, mapProperties, Json.get?_mapAt_of_ne (by decide),
      getD_silenced]
  have hrequired : (silencedBody body).get? "required" = body.get? "required" := by
    rw [silencedBody, Json.get?_mapAt_of_ne (by decide), mapProperties,
      Json.get?_mapAt_of_ne (by decide)]
  have hobject : (silencedBody body).isObject = body.isObject := by
    simp [silencedBody, mapProperties]
  rw [Document.readDefinition_eq, Document.readDefinition_eq, hobject]
  split
  · simp only [Document.ofKeywords, hproperties, hdescription, hrequired, readDescription_silenced]
    cases (body.get? "properties").getD (.obj []) with
    | obj properties =>
        simp only [Json.mapMembers]
        cases Document.readRequired (body.get? "required") with
        | none => rfl
        | some required =>
            simp only [readEntries_silenced, map_bind, bind_map_left]
            rfl
    | _ => rfl
  · rfl

theorem readEntry_silenced (name : String) (body : Json) :
    Document.readEntry name (silencedBody body) =
      (Document.readEntry name body).map Definition.silent := by
  unfold Document.readEntry
  rw [readDefinition_silenced]
  cases Document.readDefinition name body <;> rfl

/-! ## Documents -/

/-- Nothing is left of the descriptions in the entries either. -/
theorem read_silencedSchema {schema : Json} {document : Document}
    (h : Document.read schema = .ok document) :
    Document.read (silencedSchema schema) = .ok {
      raw := silencedSchema schema
      entries := document.entries.map fun entry => (entry.1, entry.2.map Definition.silent) } := by
  obtain ⟨bodies, hentries, hread⟩ := read_mapDefinitions (f := silencedBody)
    (fun body => by simp [silencedBody, mapProperties]) h
  rw [silencedSchema, hread, hentries]
  simp [readEntry_silenced]

section Pairs

variable {schema other : Json} (hsame : silencedSchema schema = silencedSchema other)
include hsame

theorem sameNames_of_silenced : SameNames schema other := by
  intro pointer
  have hschema := sameNames_of_samePaths (samePaths_silencedSchema schema) pointer
  have hother := sameNames_of_samePaths (samePaths_silencedSchema other) pointer
  rw [hsame] at hschema
  exact hschema.symm.trans hother

theorem read_of_silenced {document : Document} (h : Document.read schema = .ok document) :
    ∃ next, Document.read other = .ok next ∧ Alike document next ∧
      document.entries.map (fun entry => (entry.1, entry.2.map Definition.silent)) =
        next.entries.map fun entry => (entry.1, entry.2.map Definition.silent) := by
  have hread := read_silencedSchema h
  rw [hsame] at hread
  cases hother : Document.read other with
  | error failure =>
      rw [silencedSchema, read_mapDefinitions_error hother] at hread
      cases hread
  | ok next =>
      have hentries : document.entries.map (fun entry => (entry.1, entry.2.map Definition.silent)) =
          next.entries.map fun entry => (entry.1, entry.2.map Definition.silent) := by
        have hpair := (read_silencedSchema hother).symm.trans hread
        exact (Document.mk.inj (Except.ok.inj hpair)).2.symm
      refine ⟨next, rfl, ⟨?_, fun name => ?_⟩, hentries⟩
      · rw [(read_eq_ok h).1, (read_eq_ok hother).1]
        exact sameNames_of_silenced hsame
      · have hdefines : ∀ document : Document, document.defines name =
            (document.entries.map fun entry => (entry.1, entry.2.map Definition.silent)).any
              fun entry => entry.1 == name && entry.2.toOption.isSome := by
          intro document
          have hsome : ∀ entry : Except Failure Definition,
              (entry.map Definition.silent).toOption.isSome = entry.toOption.isSome := by
            intro entry
            cases entry <;> rfl
          simp [Document.defines, List.any_map, Function.comp_def, hsome]
        rw [hdefines, hdefines, hentries]

theorem read_error_of_silenced {failure : Failure} (h : Document.read schema = .error failure) :
    Document.read other = .error failure := by
  have hread : Document.read (silencedSchema schema) = .error failure := read_mapDefinitions_error h
  rw [hsame] at hread
  cases hother : Document.read other with
  | ok next =>
      rw [read_silencedSchema hother] at hread
      cases hread
  | error found =>
      rw [silencedSchema, read_mapDefinitions_error hother] at hread
      exact hread

end Pairs

end ModelMint.Schema
