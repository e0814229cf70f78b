import ModelMint.Proofs.Blueprint.Planning
import ModelMint.Proofs.Schema.NullFree

/-!
# Plans without null characters

A definition without null characters has a plan without any.  Attributes and constants
have none whatever the properties are called, since their names are made.
-/

namespace ModelMint.Blueprint

open ModelMint.Schema

variable {document : Document} {root width : Json} {property : Property}

/-! ## Types -/

theorem nullFree_ofSchema {name : String} (h : Text.NullFree name.toList) :
    Text.NullFree (TypeName.ofSchema name).toList := by
  unfold TypeName.ofSchema
  split <;> first | exact h | decide +kernel

theorem nullFree_resolveProperty (hproperty : property.NullFree) {resolved : Resolved}
    (h : resolveProperty root property = .ok resolved) :
    Text.NullFree resolved.name.toList := by
  obtain ⟨pointer, hpointer, hresolve⟩ := resolveProperty_eq_ok.mp h
  exact nullFree_resolve (hproperty.reference pointer hpointer) hresolve

theorem nullFree_referencedType (hproperty : property.NullFree) {type : Option String}
    (h : referencedType root property = .ok type) : ∀ name ∈ type, Text.NullFree name.toList := by
  unfold referencedType at h
  split at h
  · obtain ⟨resolved, hresolved, rfl⟩ := map_eq_ok.mp h
    rintro name ⟨⟩
    exact nullFree_ofSchema (nullFree_resolveProperty hproperty hresolved)
  · cases h
    simp

theorem nullFree_moment : ∀ name ∈ some TypeName.moment, Text.NullFree name.toList := by
  rintro name ⟨⟩
  decide +kernel

theorem nullFree_storageType (hproperty : property.NullFree) {type : Option String}
    (h : storageType root property = .ok type) : ∀ name ∈ type, Text.NullFree name.toList := by
  unfold storageType at h
  split at h
  · cases h
    exact nullFree_moment
  · split at h
    next name hname =>
      cases h
      rintro other ⟨⟩
      exact nullFree_ofSchema (hproperty.type name hname)
    · exact nullFree_referencedType hproperty h

theorem nullFree_elementType (hproperty : property.NullFree) {type : Option String}
    (h : elementType root property = .ok type) : ∀ name ∈ type, Text.NullFree name.toList := by
  unfold elementType at h
  split at h
  · cases h
    exact nullFree_moment
  · exact nullFree_referencedType hproperty h

theorem nullFree_elementTypeIf {wanted : Bool} (hproperty : property.NullFree)
    {type : Option String} (h : elementTypeIf wanted root property = .ok type) :
    ∀ name ∈ type, Text.NullFree name.toList := by
  unfold elementTypeIf at h
  split at h
  · exact nullFree_elementType hproperty h
  · cases h
    simp

theorem nullFree_documentedType {storage element : Option String}
    (hstorage : ∀ name ∈ storage, Text.NullFree name.toList)
    (helement : ∀ name ∈ element, Text.NullFree name.toList) :
    ∀ name ∈ documentedType property storage element, Text.NullFree name.toList := by
  unfold documentedType
  split
  · simp
  · split
    · rintro name ⟨⟩
      have hinner : Text.NullFree (element.getD "None").toList := by
        cases element with
        | none => decide +kernel
        | some name => exact helement name rfl
      simp [hinner]
    · exact hstorage

/-! ## Descriptions -/

theorem nullFree_wrapText {text : String} (htext : Text.NullFree text.toList)
    {lines : List String} (h : wrapText width text = .ok lines) :
    ∀ line ∈ lines, Text.NullFree line.toList := by
  obtain ⟨limit, rfl⟩ := wrapText_eq_ok h
  intro line hline
  obtain ⟨part, hpart, rfl⟩ := List.mem_map.mp hline
  rw [String.toList_ofList]
  exact Text.nullFree_wrapLines limit (Text.nullFree_splitLines htext) part hpart

theorem nullFree_describe {description : Option String}
    (hdescription : ∀ text ∈ description, Text.NullFree text.toList) {lines : List String}
    (h : describe width description = .ok lines) : ∀ line ∈ lines, Text.NullFree line.toList := by
  cases description with
  | none =>
      cases h
      simp
  | some text => exact nullFree_wrapText (hdescription text rfl) h

/-! ## Fields -/

/-- A field of which no text that is written outside of quotes holds a null character. -/
structure Field.NullFree (field : Field) : Prop where
  attr : Text.NullFree field.attr.toList
  storage : ∀ name ∈ field.storage, Text.NullFree name.toList
  element : ∀ name ∈ field.element, Text.NullFree name.toList
  documented : ∀ name ∈ field.documented, Text.NullFree name.toList
  description : ∀ line ∈ field.description, Text.NullFree line.toList

theorem nullFree_field (hproperty : property.NullFree) {required : List String} {field : Field}
    (h : Field.ofProperty root width required property = .ok field) : field.NullFree := by
  unfold Field.ofProperty at h
  obtain ⟨storage, hstorage, h⟩ := bind_eq_ok.mp h
  obtain ⟨pure, -, h⟩ := bind_eq_ok.mp h
  obtain ⟨referenced, hreferenced, h⟩ := bind_eq_ok.mp h
  obtain ⟨initial, -, h⟩ := bind_eq_ok.mp h
  obtain ⟨description, hdescription, h⟩ := bind_eq_ok.mp h
  obtain ⟨element, helement, h⟩ := bind_eq_ok.mp h
  cases h
  have hstored := nullFree_storageType hproperty hstorage
  exact {
    attr := by simpa using Text.nullFree_attributeName property.name.toList
    storage := hstored
    element := nullFree_elementTypeIf hproperty hreferenced
    documented := nullFree_documentedType hstored (nullFree_elementTypeIf hproperty helement)
    description := nullFree_describe hproperty.description (Stop.ofFault_eq_ok.mp hdescription)
  }

/-! ## Members -/

/-- What a member writes outside of quotes: its field, the classes that it names and its
constants. -/
structure Member.NullFree (member : Member) : Prop where
  field : member.field.NullFree
  rules : ∀ className, Rule.elements className ∈ member.rules → Text.NullFree className.toList
  constants : ∀ constant ∈ member.constants, Text.NullFree constant.name.toList
  target : ∀ name ∈ member.target, Text.NullFree name.toList

theorem nullFree_rules (hproperty : property.NullFree) {rules : List Rule}
    (h : rulesOf root property = .ok rules) {className : String}
    (hrule : Rule.elements className ∈ rules) : Text.NullFree className.toList := by
  obtain ⟨storage, elements, -, helements, rfl⟩ := rulesOf_eq_ok h
  rcases List.mem_append.mp hrule with hfirst | hother
  · rcases elementRules_eq_ok helements with rfl | ⟨-, -, resolved, hresolved, rfl⟩
    · cases hfirst
    · obtain ⟨⟩ := List.mem_singleton.mp hfirst
      exact nullFree_ofSchema (nullFree_resolveProperty hproperty hresolved)
  · exact absurd hother not_elements_mem_otherRules

theorem nullFree_constant (name : String) (value : Json) :
    Text.NullFree (Constant.ofValue name value).name.toList := by
  simp only [Constant.ofValue, String.toList_ofList, Text.nullFree_append, Text.nullFree_cons]
  exact ⟨Text.nullFree_constantPrefix _, by decide, Text.nullFree_collapse _⟩

theorem nullFree_target (hproperty : property.NullFree) {target : Option String}
    (h : targetOf document property = .ok target) : ∀ name ∈ target, Text.NullFree name.toList := by
  obtain ⟨-, rfl⟩ | ⟨-, resolved, hresolved, -, rfl⟩ := targetOf_eq_ok h
  · simp
  · rintro name ⟨⟩
    exact nullFree_resolveProperty hproperty hresolved

theorem nullFree_member (hproperty : property.NullFree) {required : List String} {member : Member}
    (h : Member.ofProperty document width required property = .ok member) : member.NullFree := by
  unfold Member.ofProperty at h
  obtain ⟨target, htarget, h⟩ := bind_eq_ok.mp h
  obtain ⟨field, hfield, h⟩ := bind_eq_ok.mp h
  obtain ⟨rules, hrules, h⟩ := bind_eq_ok.mp h
  cases h
  refine ⟨nullFree_field hproperty hfield, fun className => nullFree_rules hproperty hrules,
    fun constant hconstant => ?_, nullFree_target hproperty htarget⟩
  simp only at hconstant
  cases henum : property.enum with
  | none => simp [henum] at hconstant
  | some values =>
      rw [henum] at hconstant
      obtain ⟨value, -, rfl⟩ := List.mem_map.mp hconstant
      exact nullFree_constant property.name value

/-! ## Plans -/

structure Plan.NullFree (plan : Plan) : Prop where
  name : Text.NullFree plan.name.toList
  description : ∀ line ∈ plan.description, Text.NullFree line.toList
  members : ∀ member ∈ plan.members, member.NullFree

theorem nullFree_plan {definition : Definition} (hdefinition : definition.NullFree) {plan : Plan}
    (h : Plan.ofDefinition document width definition = .ok plan) : plan.NullFree := by
  have hplanned := Plan.ofDefinition_eq_ok h
  have hmembers : ∀ member ∈ plan.members, member.NullFree := by
    intro member hmember
    obtain ⟨entry, hentry, hmade⟩ := exists_left_of_mem hplanned.members hmember
    exact nullFree_member (hdefinition.properties entry hentry) hmade
  refine ⟨?_, nullFree_describe hdefinition.description hplanned.description, hmembers⟩
  rw [hplanned.name]
  exact hdefinition.name

end ModelMint.Blueprint
