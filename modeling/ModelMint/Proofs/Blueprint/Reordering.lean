import ModelMint.Blueprint.Plan
import ModelMint.Proofs.Schema.Reordering

/-!
# Plans over documents with the same names

Planning asks a document for nothing but the names that the pointers of properties resolve
to and the names of its definitions, so documents that agree in these give the same plans.
-/

namespace ModelMint.Blueprint

open ModelMint.Schema

section Properties

variable {root other : Json} {property : Property}
  (h : ∀ pointer ∈ property.reference?, SameName root other pointer)
include h

/-! ## Types of properties -/

/-- Of what a property refers to only the name is used. -/
theorem resolveProperty_bind_congr {α : Type} (use : String → Except Stop α) :
    (resolveProperty root property >>= fun resolved => use resolved.name) =
      (resolveProperty other property >>= fun resolved => use resolved.name) := by
  unfold resolveProperty
  cases hpointer : property.reference? with
  | none => rfl
  | some pointer =>
      have hnames := h pointer hpointer
      unfold SameName at hnames
      revert hnames
      simp only
      cases resolve root pointer <;> cases resolve other pointer <;>
        simp [Except.map, bind, Except.bind] <;> intro hsame <;> rw [hsame]

theorem referencedType_congr : referencedType root property = referencedType other property := by
  have hmap : ∀ root, (resolveProperty root property).map
      (fun resolved => some (TypeName.ofSchema resolved.name)) =
        (resolveProperty root property >>= fun resolved =>
          .ok (some (TypeName.ofSchema resolved.name))) := by
    intro root
    cases resolveProperty root property <;> rfl
  unfold referencedType
  rw [hmap, hmap, resolveProperty_bind_congr h fun name => .ok (some (TypeName.ofSchema name))]

theorem storageType_congr : storageType root property = storageType other property := by
  unfold storageType
  rw [referencedType_congr h]

theorem elementType_congr : elementType root property = elementType other property := by
  unfold elementType
  rw [referencedType_congr h]

theorem isPureArray_congr : isPureArray root property = isPureArray other property := by
  unfold isPureArray isArray
  rw [storageType_congr h]

theorem elementTypeIf_congr (wanted : Bool) :
    elementTypeIf wanted root property = elementTypeIf wanted other property := by
  unfold elementTypeIf
  rw [elementType_congr h]

/-! ## Members -/

theorem field_congr (width : Json) (required : List String) :
    Field.ofProperty root width required property = Field.ofProperty other width required property := by
  unfold Field.ofProperty
  simp only [storageType_congr h, isPureArray_congr h, elementTypeIf_congr h]

theorem rulesOf_congr : rulesOf root property = rulesOf other property := by
  unfold rulesOf elementRules
  rw [storageType_congr h, isPureArray_congr h, elementType_congr h]

end Properties

section Members

variable {document next : Document} {property : Property}
  (hdefines : ∀ name, document.defines name = next.defines name)
include hdefines

theorem targetOf_congr
    (h : ∀ pointer ∈ property.reference?, SameName document.raw next.raw pointer) :
    targetOf document property = targetOf next property := by
  unfold targetOf
  simp only [hdefines]
  split
  · exact resolveProperty_bind_congr h fun name =>
      if next.defines name then .ok (some name)
      else .error (.failure {
        cause := .unresolved (property.reference?.getD "") none
          (some (shownText name ++ " is not a definition of this document"))
        context := { property := some property.name, path := some property.path } })
  · rfl

theorem member_congr (h : ∀ pointer ∈ property.reference?, SameName document.raw next.raw pointer)
    (width : Json) (required : List String) :
    Member.ofProperty document width required property =
      Member.ofProperty next width required property := by
  unfold Member.ofProperty
  rw [targetOf_congr hdefines h, field_congr h, rulesOf_congr h]

/-! ## Classes -/

variable {width : Json} {definition : Definition}

theorem planMembers_congr (earlier : List Member) {properties : List (String × Property)}
    (h : ∀ entry ∈ properties, ∀ pointer ∈ entry.2.reference?,
      SameName document.raw next.raw pointer) :
    planMembers document width definition earlier properties =
      planMembers next width definition earlier properties := by
  induction properties generalizing earlier with
  | nil => rfl
  | cons entry rest ih =>
      obtain ⟨hentry, hrest⟩ := List.forall_mem_cons.mp h
      unfold planMembers planMember
      rw [member_congr hdefines hentry]
      simp only [fun earlier => ih earlier hrest]

theorem plan_congr (h : ∀ entry ∈ definition.properties, ∀ pointer ∈ entry.2.reference?,
      SameName document.raw next.raw pointer) :
    Plan.ofDefinition document width definition = Plan.ofDefinition next width definition := by
  unfold Plan.ofDefinition
  rw [planMembers_congr hdefines [] h]

end Members

/-- Where documents can not be told apart at all, no definition has another plan. -/
theorem plan_congr_of_alike {document next : Document} (h : Alike document next) (width : Json)
    (definition : Definition) :
    Plan.ofDefinition document width definition = Plan.ofDefinition next width definition :=
  plan_congr h.defines fun _ _ pointer _ => h.names pointer

end ModelMint.Blueprint
