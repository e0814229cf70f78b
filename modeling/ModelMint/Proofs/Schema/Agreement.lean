import ModelMint.Proofs.Schema.Rewriting

/-!
# Schemas that agree where it counts

Of a schema only some keywords are interpreted.  Schemas that agree in these are read
alike, and a pointer straight to a definition leads as far in one as in the other,
whatever else is in them.
-/

namespace ModelMint.Schema

/-! ## Agreement -/

/-- The keywords of a property that are interpreted, beside the reference of its items. -/
def propertyKeywords : List String :=
  ["type", "format", "$ref", "enum", "minimum", "maximum", "minItems", "maxItems", "default",
    "description"]

def itemsReference (schema : Json) : Option Json :=
  (schema.get? "items").bind fun items => items.get? "$ref"

structure PropertiesAgree (schema other : Json) : Prop where
  object : schema.isObject = other.isObject
  keywords : ∀ key ∈ propertyKeywords, schema.get? key = other.get? key
  items : itemsReference schema = itemsReference other

/-- Members that agree one by one, with the same keys in the same order; values that are no objects
are the same. -/
def MembersAgree (agree : Json → Json → Prop) : Option Json → Option Json → Prop
  | some (.obj members), some (.obj others) =>
    List.Forall₂ (fun member other => member.1 = other.1 ∧ agree member.2 other.2) members others
  | value, other => value = other

structure DefinitionsAgree (body other : Json) : Prop where
  object : body.isObject = other.isObject
  /-- Texts are comments, whatever they say. -/
  text : body.str?.isSome = other.str?.isSome
  properties : MembersAgree PropertiesAgree (body.get? "properties") (other.get? "properties")
  required : body.get? "required" = other.get? "required"
  description : body.get? "description" = other.get? "description"

structure SchemasAgree (schema other : Json) : Prop where
  object : schema.isObject = other.isObject
  definitions : MembersAgree DefinitionsAgree (schema.get? "definitions") (other.get? "definitions")

/-! ## Reading -/

section Reading

variable {schema other body second : Json} {agree : Json → Json → Prop}

theorem PropertiesAgree.read (h : PropertiesAgree schema other) (name place : String) :
    Property.read name schema place = Property.read name other place := by
  have hkeyword : ∀ key ∈ propertyKeywords, schema.get? key = other.get? key := h.keywords
  simp only [propertyKeywords, List.forall_mem_cons, List.not_mem_nil, false_implies, implies_true,
    and_true] at hkeyword
  obtain ⟨htype, hformat, href, henum, hminimum, hmaximum, hminItems, hmaxItems, hdefault,
    hdescription⟩ := hkeyword
  have hitems : ∀ schema : Json, Property.readItemsReference (schema.get? "items") =
      Property.readReference ((itemsReference schema).getD .null) := by
    intro schema
    unfold itemsReference
    cases schema.get? "items" with
    | none => rfl
    | some items => cases items <;> rfl
  rw [Property.read_eq, Property.read_eq, h.object]
  simp only [Property.ofKeywords, htype, hformat, href, henum, hminimum, hmaximum, hminItems,
    hmaxItems, hdefault, hdescription, hitems, h.items]

/-- Properties that agree one by one are read alike. -/
theorem mapM_readProperty_congr (name place : String) {members others : List (String × Json)}
    (h : List.Forall₂ (fun member other => member.1 = other.1 ∧ PropertiesAgree member.2 other.2)
      members others) :
    members.mapM (fun (key, schema) => Document.readProperty name place key schema) =
      others.mapM fun (key, schema) => Document.readProperty name place key schema := by
  refine mapM_congr (h.imp ?_)
  rintro ⟨key, schema⟩ ⟨_, other⟩ ⟨rfl, hagree⟩
  unfold Document.readProperty
  simp only [hagree.read]

theorem DefinitionsAgree.read (h : DefinitionsAgree body second) (name : String) :
    Document.readDefinition name body = Document.readDefinition name second := by
  rw [Document.readDefinition_eq, Document.readDefinition_eq, h.object]
  split
  · have hproperties := h.properties
    simp only [Document.ofKeywords, h.required, h.description]
    unfold MembersAgree at hproperties
    split at hproperties
    next members others hbody hsecond =>
      rw [hbody, hsecond]
      simp only [Option.getD_some]
      rw [mapM_readProperty_congr name _ hproperties]
    · rw [hproperties]
  · rfl

/-- Definitions that agree one by one give the same entries. -/
theorem filterMap_readEntry_congr {members others : List (String × Json)}
    (h : List.Forall₂ (fun member other => member.1 = other.1 ∧ DefinitionsAgree member.2 other.2)
      members others) :
    (members.filterMap fun (name, body) =>
      if Document.isComment name body then none else some (name, Document.readEntry name body)) =
        others.filterMap fun (name, body) =>
          if Document.isComment name body then none
          else some (name, Document.readEntry name body) := by
  induction h with
  | nil => rfl
  | @cons member second rest others hfirst _ ih =>
      obtain ⟨name, body⟩ := member
      obtain ⟨_, twin⟩ := second
      obtain ⟨rfl, hagree⟩ := hfirst
      have hentry : Document.readEntry name body = Document.readEntry name twin := by
        unfold Document.readEntry
        rw [hagree.read]
      have hcomment : Document.isComment name body = Document.isComment name twin := by
        unfold Document.isComment
        rw [hagree.text]
      simp only [List.filterMap_cons, ih, hentry, hcomment]

theorem map_entries_read (schema : Json) : (Document.read schema).map Document.entries =
    if schema.isObject then
      match schema.get? "definitions" with
      | some (.obj definitions) => .ok (definitions.filterMap fun (name, body) =>
          if Document.isComment name body then none else some (name, Document.readEntry name body))
      | _ => .error { cause := .malformed .definitionsNotObject,
                      context := { path := some "#/definitions" } }
    else .error { cause := .malformed .documentNotObject, context := { path := some "#" } } := by
  cases schema with
  | obj members =>
      unfold Document.read
      simp only [Json.get?, Json.isObject, if_true]
      cases Entries.get? "definitions" members with
      | none => rfl
      | some found => cases found <;> rfl
  | _ => rfl

theorem MembersAgree.keys {value other : Option Json} (h : MembersAgree agree value other) :
    (value.map Json.isObject) = other.map Json.isObject ∧
      ∀ key, (value.bind (·.get? key)).isSome = (other.bind (·.get? key)).isSome := by
  unfold MembersAgree at h
  split at h
  next members others =>
    refine ⟨rfl, fun key => ?_⟩
    simp only [Option.bind_some, Json.get?]
    induction h with
    | nil => rfl
    | cons hfirst _ ih =>
        simp only [Entries.get?, hfirst.1]
        split
        · rfl
        · exact ih
  · rw [h]
    exact ⟨rfl, fun _ => rfl⟩

end Reading

/-! ## Pointers -/

/-- A pointer to a definition by its key. -/
def Direct (pointer : String) : Prop :=
  ∃ name : String, '/' ∉ name.toList ∧ pointer = "#/definitions/" ++ name

theorem keys_direct {name : String} (h : '/' ∉ name.toList) :
    Pointer.keys ("#/definitions/" ++ name) =
      ["definitions", String.ofList (Pointer.unescape name.toList)] := by
  have hparts : Text.parts '/' ("#/definitions/" ++ name).toList =
      ["#".toList, "definitions".toList, name.toList] := by
    have htext : ("#/definitions/" ++ name).toList =
        "#".toList ++ '/' :: ("definitions".toList ++ '/' :: name.toList) := by
      simp
    rw [htext, Text.parts_append (by decide), Text.parts_append (by decide),
      Text.parts_of_not_mem h]
  unfold Pointer.keys
  rw [hparts]
  rfl

theorem follow_two (value : Json) (first second : String) :
    (Pointer.follow value [first, second]).map (fun _ => ()) =
      if (value.get? first).isSome then
        if ((value.get? first).bind (·.get? second)).isSome then .ok () else .error second
      else .error first := by
  simp only [Pointer.follow]
  cases value.get? first with
  | none => rfl
  | some inner =>
      simp only [Option.isSome_some, if_true, Option.bind_some]
      split
      next found hfound => simp [hfound, Except.map]
      next hnone => simp [hnone, Except.map]

section Documents

variable {schema other : Json} {document next : Document} (h : SchemasAgree schema other)
include h

/-- A direct pointer is followed through the keys of the definitions only. -/
theorem SchemasAgree.sameName {pointer : String} (hdirect : Direct pointer) :
    SameName schema other pointer := by
  obtain ⟨name, hname, rfl⟩ := hdirect
  obtain ⟨hobject, hkeys⟩ := h.definitions.keys
  have hsome : (schema.get? "definitions").isSome = (other.get? "definitions").isSome := by
    have hmapped := congrArg Option.isSome hobject
    simpa using hmapped
  have hfollow := follow_two schema "definitions" (String.ofList (Pointer.unescape name.toList))
  rw [hsome, hkeys, ← follow_two] at hfollow
  unfold SameName resolve
  rw [keys_direct hname]
  revert hfollow
  simp only
  split
  · simp
  · simp
  · cases Pointer.follow schema ["definitions", String.ofList (Pointer.unescape name.toList)] <;>
      cases Pointer.follow other ["definitions", String.ofList (Pointer.unescape name.toList)] <;>
        simp [Except.map]

/-- What is read of the definitions is the same, or the failure is. -/
theorem SchemasAgree.read : (Document.read schema).map Document.entries =
    (Document.read other).map Document.entries := by
  have hdefinitions := h.definitions
  rw [map_entries_read, map_entries_read, h.object]
  unfold MembersAgree at hdefinitions
  split at hdefinitions
  next members others hschema hother =>
    rw [hschema, hother]
    simp only [filterMap_readEntry_congr hdefinitions]
  · rw [hdefinitions]

end Documents

end ModelMint.Schema
