import ModelMint.Proofs.Blueprint.Planning
import ModelMint.Proofs.Schema.Retyping

/-!
# Types that references give

A property without a type of its own has the one of the definition that it refers to.
Definitions and types are known by name only, so a definition that is called like a type
of a schema or of a class is taken for that type.
-/

namespace ModelMint

open ModelMint.Schema

/-! ## Names of types -/

namespace TypeName

/-- The types that a schema has names of its own for. -/
def primitives : List String := ["boolean", "string", "number", "integer", "array"]

theorem ofSchema_eq_self_iff {name : String} : ofSchema name = name ↔ name ∉ primitives := by
  constructor
  · intro hsame hmem
    simp only [primitives, List.mem_cons, List.not_mem_nil, or_false] at hmem
    rcases hmem with rfl | rfl | rfl | rfl | rfl <;> exact absurd hsame (by decide)
  · intro hother
    unfold ofSchema
    split <;> first | rfl | exact absurd (by decide) hother

theorem free_iff {name : String} {condition : Prop} :
    (ofSchema name = name ∧ name ≠ list ∧ name ≠ moment ∧ (name = int ∨ name = float → condition)) ↔
      (name ∈ meant → (name = int ∨ name = float) ∧ condition) := by
  have hmeant : name ∈ meant ↔
      name ∈ primitives ∨ name = int ∨ name = float ∨ name = list ∨ name = moment := by
    simp [meant, primitives, or_assoc]
  have hnumber : name = int ∨ name = float →
      name ∉ primitives ∧ name ≠ list ∧ name ≠ moment := by
    rintro (rfl | rfl) <;> decide
  rw [ofSchema_eq_self_iff, hmeant]
  tauto

end TypeName

namespace Blueprint

/-! ## Rules for allowed values -/

/-- A rule that asks for nothing but one of the allowed values. -/
def Rule.IsChoice (rule : Rule) : Prop := ∃ values, rule = .oneOf values

section Rules

variable {property : Property} {type : String}

theorem choice_lengthRules_iff : (∀ rule ∈ lengthRules (some type) property, rule.IsChoice) ↔
    (type = TypeName.list → property.hasItemBounds = false) := by
  unfold lengthRules
  by_cases hlist : type = TypeName.list
  · cases property.hasItemBounds <;> simp [hlist, Rule.IsChoice]
  · simp [hlist]

theorem choice_boundRules_iff : (∀ rule ∈ boundRules (some type) property, rule.IsChoice) ↔
    (type = TypeName.int ∨ type = TypeName.float → property.hasNumericBounds = false) := by
  unfold boundRules
  cases property.hasNumericBounds with
  | false => simp
  | true =>
      by_cases hint : type = TypeName.int
      · simp [hint, Rule.IsChoice]
      · by_cases hfloat : type = TypeName.float
        · have hother : TypeName.float ≠ TypeName.int := by decide
          simp [hfloat, hother, Rule.IsChoice]
        · simp [hint, hfloat]

theorem choice_momentRules_iff :
    (∀ rule ∈ momentRules (some type), rule.IsChoice) ↔ type ≠ TypeName.moment := by
  unfold momentRules
  by_cases hmoment : type = TypeName.moment <;> simp [hmoment, Rule.IsChoice]

theorem choice_valueRules : ∀ rule ∈ valueRules property, rule.IsChoice := by
  unfold valueRules
  cases property.enum with
  | none => simp
  | some values => simp [Rule.IsChoice]

theorem choice_otherRules_iff : (∀ rule ∈ otherRules (some type) property, rule.IsChoice) ↔
    (type = TypeName.list → property.hasItemBounds = false) ∧
      (type = TypeName.int ∨ type = TypeName.float → property.hasNumericBounds = false) ∧
      type ≠ TypeName.moment := by
  simp only [otherRules, List.forall_mem_append, choice_lengthRules_iff, choice_boundRules_iff,
    choice_momentRules_iff]
  constructor
  · rintro ⟨⟨⟨hlength, hbound⟩, hmoment⟩, -⟩
    exact ⟨hlength, hbound, hmoment⟩
  · rintro ⟨hlength, hbound, hmoment⟩
    exact ⟨⟨⟨hlength, hbound⟩, hmoment⟩, choice_valueRules⟩

end Rules

/-! ## References without a type -/

variable {document : Document} {root width : Json} {definition : Definition} {plan : Plan}
  {property : Property} {member : Member} {name : String} {resolved : Resolved}

/-- A reference that nothing goes before. -/
structure IsBareReference (property : Property) : Prop where
  reference : property.isReference = true
  type : property.type = none
  format : property.isDateTime = false

theorem IsBareReference.storageType (h : IsBareReference property)
    (hresolved : resolveProperty root property = .ok resolved) :
    Blueprint.storageType root property = .ok (some (TypeName.ofSchema resolved.name)) := by
  simp [Blueprint.storageType, h.format, h.type, referencedType, h.reference, hresolved, Except.map]

/-- A member that stands for an instance of the class of that name, and no list of instances: it is
empty until one is assigned, which only has to be allowed. -/
structure StandsFor (className : String) (member : Member) : Prop where
  storage : member.field.storage = some className
  single : member.field.isArray = false
  /-- What it begins with is declared, if anything. -/
  initial : member.field.initial ≠ .emptyList
  rules : ∀ rule ∈ member.rules, rule.IsChoice

theorem rules_of_bareReference (h : IsBareReference property)
    (hresolved : resolveProperty root property = .ok resolved) {rules : List Rule}
    (hrules : rulesOf root property = .ok rules) :
    (∀ rule ∈ rules, rule.IsChoice) ↔ TypeName.ofSchema resolved.name ≠ TypeName.list ∧
      ∀ rule ∈ otherRules (some (TypeName.ofSchema resolved.name)) property, rule.IsChoice := by
  obtain ⟨storage, elements, hstorage, helements, rfl⟩ := rulesOf_eq_ok hrules
  obtain rfl := Except.ok.inj (hstorage.symm.trans (h.storageType hresolved))
  rw [List.forall_mem_append]
  refine and_congr_left fun _ => ?_
  by_cases hlist : TypeName.ofSchema resolved.name = TypeName.list
  · rw [hlist] at hstorage
    obtain ⟨found, -, rfl⟩ := elementRules_of_list h.reference hstorage helements
    simp [hlist, Rule.IsChoice]
  · obtain rfl | ⟨-, hother, -⟩ := elementRules_eq_ok helements
    · simp [hlist]
    · exact absurd (Option.some.inj (Except.ok.inj (hstorage.symm.trans hother))) hlist

/-- The member of a reference stands for an instance of the class that it refers to exactly where
the name of the class means nothing else, or a number that no bounds are set to. -/
theorem standsFor_iff (h : IsBareReference property)
    (hresolved : resolveProperty document.raw property = .ok resolved)
    (hmember : MemberPlanned document definition.required property member) :
    StandsFor resolved.name member ↔
      (resolved.name ∈ TypeName.meant →
        (resolved.name = TypeName.int ∨ resolved.name = TypeName.float) ∧
          property.hasNumericBounds = false) := by
  have hstorage : member.field.storage = some (TypeName.ofSchema resolved.name) :=
    Except.ok.inj (hmember.field.storage.symm.trans (h.storageType hresolved))
  have hrules := rules_of_bareReference h hresolved hmember.rules
  rw [choice_otherRules_iff] at hrules
  have hinitial := initialOf_eq_emptyList hmember.field.initial
  rw [← TypeName.free_iff]
  constructor
  · intro hstands
    have hsame : TypeName.ofSchema resolved.name = resolved.name :=
      Option.some.inj (hstorage.symm.trans hstands.storage)
    rw [hsame] at hrules
    obtain ⟨hlist, -, hbounds, hmoment⟩ := hrules.mp hstands.rules
    exact ⟨hsame, hlist, hmoment, hbounds⟩
  · rintro ⟨hsame, hlist, hmoment, hbounds⟩
    rw [hsame] at hstorage hrules
    have hsingle : (member.field.storage == some TypeName.list) = false := by
      simp [hstorage, hlist]
    refine ⟨hstorage, hsingle, fun hempty => ?_,
      hrules.mpr ⟨hlist, fun h => absurd h hlist, hbounds, hmoment⟩⟩
    rw [hinitial.mp hempty] at hsingle
    cases hsingle

/-- A reference of an accepted definition leads to another definition, and its field stands for an
instance of that class, whatever else is asked of it, exactly where the name of the class means
nothing else, or a number that no bounds are set to. -/
theorem references_stand_for_classes_iff
    (hplan : Plan.ofDefinition document width definition = .ok plan)
    (hproperty : (name, property) ∈ definition.properties) (h : IsBareReference property) :
    ∃ resolved, resolveProperty document.raw property = .ok resolved ∧
      document.defines resolved.name = true ∧
      ∃ member ∈ plan.members,
        Member.ofProperty document width definition.required property = .ok member ∧
        (StandsFor resolved.name member ↔
          (resolved.name ∈ TypeName.meant →
            (resolved.name = TypeName.int ∨ resolved.name = TypeName.float) ∧
              property.hasNumericBounds = false)) := by
  obtain ⟨member, hmember, hmade⟩ :=
    exists_right_of_mem (Plan.ofDefinition_eq_ok hplan).members hproperty
  have hplanned := Member.ofProperty_eq_ok hmade
  obtain ⟨hnone, -⟩ | ⟨-, resolved, hresolved, hdefined, -⟩ := targetOf_eq_ok hplanned.target
  · rw [h.reference] at hnone
    cases hnone
  · exact ⟨resolved, hresolved, hdefined, member, hmember, hmade,
      standsFor_iff h hresolved hplanned⟩

/-! ## A stay in a room -/

/-- A stay whose room refers to a class of that name. -/
def chamberSchema (className : String) : Json := .obj [("definitions", .obj [
  (className, .obj []),
  ("Stay", .obj [("properties", .obj [("room", .obj [
    ("$ref", .str ("#/definitions/" ++ className)), ("minItems", .int 1), ("minimum", .int 1)])])])])]

def chamberDocument (className : String) : Document :=
  match Document.read (chamberSchema className) with
  | .ok document => document
  | .error _ => { raw := .null, entries := [] }

def chamberDefinition (className : String) : Definition :=
  match Entries.get? "Stay" (chamberDocument className).entries with
  | some (.ok definition) => definition
  | _ => { name := "Stay" }

def chamberPlan (className : String) : Plan :=
  match Plan.ofDefinition (chamberDocument className) (.int 120) (chamberDefinition className) with
  | .ok plan => plan
  | .error _ => { name := "Stay", path := "" }

def chamberRoom (className : String) : Property where
  name := "room"
  ref := some ("#/definitions/" ++ className)
  minItems := some (.int 1)
  minimum := some (.int 1)
  path := "#/definitions/Stay/properties/room"

theorem references_stand_for_classes_iff_chamber :
    ∃ member ∈ (chamberPlan "Chamber").members, StandsFor "Chamber" member := by
  have hplan : Plan.ofDefinition (chamberDocument "Chamber") (.int 120)
      (chamberDefinition "Chamber") = .ok (chamberPlan "Chamber") := rfl
  have hproperty : ("room", chamberRoom "Chamber") ∈ (chamberDefinition "Chamber").properties :=
    List.mem_singleton_self _
  obtain ⟨resolved, hresolved, -, member, hmember, -, hstands⟩ :=
    references_stand_for_classes_iff hplan hproperty ⟨rfl, rfl, rfl⟩
  obtain rfl : ⟨"Chamber", .obj []⟩ = resolved := Except.ok.inj hresolved
  exact ⟨member, hmember, hstands.mpr fun hmeant => absurd hmeant (by decide)⟩

/-- A class that is called like the arrays of a schema is taken for a list. -/
theorem array_taken_for_list :
    Document.read (chamberSchema "array") = .ok (chamberDocument "array") ∧
      Plan.ofDefinition (chamberDocument "array") (.int 120) (chamberDefinition "array") =
        .ok (chamberPlan "array") ∧
      ("room", chamberRoom "array") ∈ (chamberDefinition "array").properties ∧
      IsBareReference (chamberRoom "array") ∧
      resolveProperty (chamberDocument "array").raw (chamberRoom "array") =
        .ok ⟨"array", .obj []⟩ ∧
      ∀ member ∈ (chamberPlan "array").members,
        member.field.storage = some TypeName.list ∧ member.field.isArray = true ∧
        member.field.initial = .emptyList ∧ .elements TypeName.list ∈ member.rules ∧
        ¬ StandsFor "array" member := by
  refine ⟨rfl, rfl, List.mem_singleton_self _, ⟨rfl, rfl, rfl⟩, rfl, fun member hmember => ?_⟩
  obtain rfl := List.mem_singleton.mp hmember
  refine ⟨rfl, rfl, rfl, List.mem_cons_self, fun hstands => ?_⟩
  exact absurd hstands.storage (by decide)

end Blueprint

end ModelMint
