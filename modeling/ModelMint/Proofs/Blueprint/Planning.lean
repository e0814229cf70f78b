import ModelMint.Blueprint.Plan
import ModelMint.Proofs.Results

/-!
# What a plan holds

Reading a plan backwards: where the fields, rules and constants of its members come
from, and how the members fit together.
-/

namespace ModelMint.Blueprint

open ModelMint.Schema

variable {document : Document} {root width : Json} {definition : Definition}

/-! ## Stops -/

theorem Stop.ofFailure_eq_ok {α : Type} {result : Except Failure α} {value : α} :
    Stop.ofFailure result = .ok value ↔ result = .ok value := by
  cases result <;> simp [Stop.ofFailure]

theorem Stop.ofFault_eq_ok {α : Type} {result : Except Fault α} {value : α} :
    Stop.ofFault result = .ok value ↔ result = .ok value := by
  cases result <;> simp [Stop.ofFault]

/-! ## Types -/

theorem resolveProperty_eq_ok {property : Property} {resolved : Resolved} :
    resolveProperty root property = .ok resolved ↔
      ∃ pointer, property.reference? = some pointer ∧ resolve root pointer = .ok resolved := by
  unfold resolveProperty
  cases property.reference? with
  | none => simp
  | some pointer => cases hresolve : resolve root pointer <;> simp [hresolve]

theorem isReference_of_reference? {property : Property} {pointer : String}
    (h : property.reference? = some pointer) : property.isReference = true := by
  unfold Property.reference? at h
  unfold Property.isReference
  cases href : property.ref with
  | some _ => rfl
  | none =>
      rw [href] at h
      change property.itemsRef = some pointer at h
      simp [h]

theorem storageType_of_isDateTime {property : Property} (h : property.isDateTime = true) :
    storageType root property = .ok (some TypeName.moment) := by
  simp [storageType, h]

theorem isPureArray_of_storageType {property : Property} {storage : Option String}
    (h : storageType root property = .ok storage) :
    isPureArray root property = .ok (property.isReference && storage == some TypeName.list) := by
  unfold isPureArray isArray
  rw [h]
  cases property.isReference <;> rfl

/-- An array of instances is a list, and its element type is the one that it refers to. -/
theorem elementType_of_isPureArray {property : Property}
    (hpure : isPureArray root property = .ok true) {element : Option String}
    (helement : elementType root property = .ok element) :
    property.isDateTime = false ∧ property.isReference = true ∧
      storageType root property = .ok (some TypeName.list) ∧
      ∃ resolved, resolveProperty root property = .ok resolved ∧
        element = some (TypeName.ofSchema resolved.name) := by
  unfold isPureArray at hpure
  split at hpure
  next href =>
    obtain ⟨storage, hstorage, hlist⟩ := map_eq_ok.mp hpure
    have hstored : storage = some TypeName.list := by simpa using hlist
    subst hstored
    have hdate : property.isDateTime = false := by
      cases hdate : property.isDateTime with
      | false => rfl
      | true =>
          rw [storageType_of_isDateTime hdate] at hstorage
          simp [TypeName.moment, TypeName.list] at hstorage
    refine ⟨hdate, href, hstorage, ?_⟩
    rw [elementType, hdate] at helement
    simp only [Bool.false_eq_true, if_false, referencedType, href, if_true] at helement
    obtain ⟨resolved, hresolved, rfl⟩ := map_eq_ok.mp helement
    exact ⟨resolved, hresolved, rfl⟩
  · simp at hpure

/-! ## Descriptions -/

/-- Whatever the room is, what comes out are the lines of the text at some limit. -/
theorem wrapText_eq_ok {text : String} {lines : List String} (h : wrapText width text = .ok lines) :
    ∃ limit, lines = (Text.wrapLines limit (Text.splitLines text.toList)).map String.ofList := by
  unfold wrapText at h
  simp only at h
  split at h
  next hempty =>
    cases h
    rw [List.isEmpty_iff.mp hempty]
    exact ⟨0, rfl⟩
  · obtain ⟨room, -, h⟩ := bind_eq_ok.mp h
    cases room with
    | whole limit =>
        cases h
        exact ⟨limit, rfl⟩
    | parted limit =>
        simp only at h
        split at h
        · cases h
        · cases h
          exact ⟨limit, rfl⟩
    | endless =>
        cases h
        exact ⟨_, rfl⟩

/-! ## Fields -/

/-- Where the parts of a field come from. -/
structure FieldPlanned (root : Json) (required : List String) (property : Property)
    (field : Field) : Prop where
  name : field.name = property.name
  attr : field.attr = String.ofList (Text.attributeName property.name.toList)
  storage : storageType root property = .ok field.storage
  element : ∀ type ∈ field.element, field.storage = some TypeName.list ∧
    ∃ resolved, resolveProperty root property = .ok resolved ∧
      type = TypeName.ofSchema resolved.name
  documented : ∃ element,
    elementTypeIf (property.type.isSome && property.isReference) root property = .ok element ∧
      field.documented = documentedType property field.storage element
  initial : initialOf property required (field.storage == some TypeName.list) = .ok field.initial

theorem Field.ofProperty_eq_ok {required : List String} {property : Property} {field : Field}
    (h : Field.ofProperty root width required property = .ok field) :
    FieldPlanned root required property field := by
  unfold Field.ofProperty at h
  obtain ⟨storage, hstorage, h⟩ := bind_eq_ok.mp h
  obtain ⟨pure, hpure, h⟩ := bind_eq_ok.mp h
  obtain ⟨referenced, hreferenced, h⟩ := bind_eq_ok.mp h
  obtain ⟨initial, hinitial, h⟩ := bind_eq_ok.mp h
  obtain ⟨description, -, h⟩ := bind_eq_ok.mp h
  obtain ⟨element, helement, h⟩ := bind_eq_ok.mp h
  cases h
  refine ⟨rfl, rfl, hstorage, ?_, ⟨element, helement, rfl⟩, Stop.ofFailure_eq_ok.mp hinitial⟩
  rintro type (rfl : referenced = some type)
  cases pure with
  | false => cases hreferenced
  | true =>
      obtain ⟨-, -, hlist, resolved, hresolved, htype⟩ :=
        elementType_of_isPureArray hpure hreferenced
      exact ⟨Except.ok.inj (hstorage.symm.trans hlist), resolved, hresolved,
        Option.some.inj htype⟩

theorem initialOf_eq_emptyList {required : List String} {isArray : Bool} {initial : Initial}
    (h : initialOf property required isArray = .ok initial) :
    initial = .emptyList ↔ isArray = true := by
  unfold initialOf at h
  cases isArray with
  | true => exact iff_of_true (Except.ok.inj h).symm rfl
  | false =>
      refine iff_of_false ?_ Bool.false_ne_true
      rintro rfl
      simp only [Bool.false_eq_true, if_false] at h
      split at h
      · cases h
      · split at h
        · cases h
        · split at h
          · obtain ⟨-, -, h⟩ := bind_eq_ok.mp h
            cases h
          · cases h

theorem Field.description_eq_ok {required : List String} {property : Property} {field : Field}
    (h : Field.ofProperty root width required property = .ok field) :
    describe width property.description = .ok field.description := by
  unfold Field.ofProperty at h
  obtain ⟨storage, -, h⟩ := bind_eq_ok.mp h
  obtain ⟨pure, -, h⟩ := bind_eq_ok.mp h
  obtain ⟨referenced, -, h⟩ := bind_eq_ok.mp h
  obtain ⟨initial, -, h⟩ := bind_eq_ok.mp h
  obtain ⟨description, hdescription, h⟩ := bind_eq_ok.mp h
  obtain ⟨element, -, h⟩ := bind_eq_ok.mp h
  cases h
  exact Stop.ofFault_eq_ok.mp hdescription

/-! ## Rules -/

/-- The rules behind those for the elements. -/
def otherRules (storage : Option String) (property : Property) : List Rule :=
  lengthRules storage property ++ boundRules storage property ++ momentRules storage ++
    valueRules property

/-- The rules of a property, in the order in which they are tried. -/
theorem rulesOf_eq_ok {property : Property} {rules : List Rule}
    (h : rulesOf root property = .ok rules) :
    ∃ storage elements, storageType root property = .ok storage ∧
      elementRules root property = .ok elements ∧
      rules = elements ++ otherRules storage property := by
  unfold rulesOf at h
  obtain ⟨storage, hstorage, h⟩ := bind_eq_ok.mp h
  obtain ⟨elements, helements, h⟩ := bind_eq_ok.mp h
  cases h
  exact ⟨storage, elements, hstorage, helements, by simp [otherRules]⟩

/-- The elements are checked where the property is a list that refers to a definition. -/
theorem elementRules_eq_ok {property : Property} {elements : List Rule}
    (h : elementRules root property = .ok elements) :
    elements = [] ∨
      property.isReference = true ∧ storageType root property = .ok (some TypeName.list) ∧
        ∃ resolved, resolveProperty root property = .ok resolved ∧
          elements = [.elements (TypeName.ofSchema resolved.name)] := by
  unfold elementRules at h
  obtain ⟨pure, hpure, h⟩ := bind_eq_ok.mp h
  cases pure with
  | false =>
      cases h
      exact .inl rfl
  | true =>
      obtain ⟨element, helement, h⟩ := bind_eq_ok.mp h
      obtain ⟨-, href, hstorage, resolved, hresolved, rfl⟩ :=
        elementType_of_isPureArray hpure helement
      cases h
      exact .inr ⟨href, hstorage, resolved, hresolved, rfl⟩

theorem elementRules_of_list {property : Property} {elements : List Rule}
    (href : property.isReference = true)
    (hstorage : storageType root property = .ok (some TypeName.list))
    (h : elementRules root property = .ok elements) :
    ∃ resolved, resolveProperty root property = .ok resolved ∧
      elements = [.elements (TypeName.ofSchema resolved.name)] := by
  have hpure : isPureArray root property = .ok true := by
    rw [isPureArray_of_storageType hstorage, href]
    rfl
  unfold elementRules at h
  obtain ⟨pure, hpure', h⟩ := bind_eq_ok.mp h
  obtain rfl : true = pure := Except.ok.inj (hpure.symm.trans hpure')
  obtain ⟨element, helement, h⟩ := bind_eq_ok.mp h
  obtain ⟨-, -, -, resolved, hresolved, rfl⟩ := elementType_of_isPureArray hpure helement
  exact ⟨resolved, hresolved, (Except.ok.inj h).symm⟩

section Others

variable {storage : Option String} {property : Property} {rule : Rule}

theorem eq_of_mem_lengthRules (h : rule ∈ lengthRules storage property) :
    rule = .within .length property.minItems property.maxItems := by
  unfold lengthRules at h
  split at h
  · exact List.mem_singleton.mp h
  · cases h

theorem eq_of_mem_boundRules (h : rule ∈ boundRules storage property) :
    ∃ measure, rule = .within measure property.minimum property.maximum := by
  unfold boundRules at h
  split at h
  · cases h
  · split at h
    · exact ⟨.integer, List.mem_singleton.mp h⟩
    · split at h
      · exact ⟨.float, List.mem_singleton.mp h⟩
      · cases h

theorem eq_of_mem_momentRules (h : rule ∈ momentRules storage) : rule = .moment := by
  unfold momentRules at h
  split at h
  · exact List.mem_singleton.mp h
  · cases h

theorem mem_valueRules :
    rule ∈ valueRules property ↔ ∃ values, property.enum = some values ∧ rule = .oneOf values := by
  simp [valueRules, eq_comm]

/-- What a rule behind those for the elements can be. -/
theorem otherRules_cases (h : rule ∈ otherRules storage property) :
    rule = .within .length property.minItems property.maxItems ∨
      (∃ measure, rule = .within measure property.minimum property.maximum) ∨
      rule = .moment ∨ ∃ values, property.enum = some values ∧ rule = .oneOf values := by
  simp only [otherRules, List.mem_append] at h
  rcases h with ((hlength | hbound) | hmoment) | hvalue
  · exact .inl (eq_of_mem_lengthRules hlength)
  · exact .inr (.inl (eq_of_mem_boundRules hbound))
  · exact .inr (.inr (.inl (eq_of_mem_momentRules hmoment)))
  · exact .inr (.inr (.inr (mem_valueRules.mp hvalue)))

theorem not_elements_mem_otherRules {className : String} :
    Rule.elements className ∉ otherRules storage property := by
  intro h
  rcases otherRules_cases h with h | ⟨measure, h⟩ | h | ⟨values, -, h⟩ <;> cases h

end Others

/-- Without allowed values only the length of a list is left to check. -/
theorem otherRules_list {property : Property} (h : property.enum = none) :
    otherRules (some TypeName.list) property = lengthRules (some TypeName.list) property := by
  have hbounds : boundRules (some TypeName.list) property = [] := by
    unfold boundRules
    split
    · rfl
    · rfl
  have hmoment : momentRules (some TypeName.list) = [] := rfl
  simp [otherRules, hbounds, hmoment, valueRules, h]

/-! ## Members -/

/-- A reference leads to a definition that could be read, or there is none. -/
theorem targetOf_eq_ok {property : Property} {target : Option String}
    (h : targetOf document property = .ok target) :
    property.isReference = false ∧ target = none ∨
      property.isReference = true ∧ ∃ resolved,
        resolveProperty document.raw property = .ok resolved ∧
          document.defines resolved.name = true ∧ target = some resolved.name := by
  unfold targetOf at h
  split at h
  next href =>
    obtain ⟨resolved, hresolved, h⟩ := bind_eq_ok.mp h
    split at h
    next hdefined =>
      cases h
      exact .inr ⟨href, resolved, hresolved, hdefined, rfl⟩
    · cases h
  next href =>
    cases h
    exact .inl ⟨by simpa using href, rfl⟩

/-- Where the parts of a member come from. -/
structure MemberPlanned (document : Document) (required : List String) (property : Property)
    (member : Member) : Prop where
  target : targetOf document property = .ok member.target
  field : FieldPlanned document.raw required property member.field
  rules : rulesOf document.raw property = .ok member.rules
  constants : member.constants = (property.enum.map (constantsOf property.name)).getD []

theorem Member.ofProperty_eq_ok {required : List String} {property : Property} {member : Member}
    (h : Member.ofProperty document width required property = .ok member) :
    MemberPlanned document required property member := by
  unfold Member.ofProperty at h
  obtain ⟨target, htarget, h⟩ := bind_eq_ok.mp h
  obtain ⟨field, hfield, h⟩ := bind_eq_ok.mp h
  obtain ⟨rules, hrules, h⟩ := bind_eq_ok.mp h
  cases h
  exact ⟨htarget, Field.ofProperty_eq_ok hfield, hrules, rfl⟩

theorem Member.field_eq_ok {required : List String} {property : Property} {member : Member}
    (h : Member.ofProperty document width required property = .ok member) :
    Field.ofProperty document.raw width required property = .ok member.field := by
  unfold Member.ofProperty at h
  obtain ⟨target, -, h⟩ := bind_eq_ok.mp h
  obtain ⟨field, hfield, h⟩ := bind_eq_ok.mp h
  obtain ⟨rules, -, h⟩ := bind_eq_ok.mp h
  cases h
  exact hfield

/-- Two members that one class can have. -/
def Compatible (earlier later : Member) : Prop := conflict? earlier.field later.field = none

theorem compatible_iff {earlier later : Member} :
    Compatible earlier later ↔
      earlier.field.attr ≠ later.field.attr ∧
        isAccessorOf later.field.attr earlier.field.attr = false ∧
        isAccessorOf earlier.field.attr later.field.attr = false := by
  unfold Compatible conflict?
  by_cases hattr : earlier.field.attr = later.field.attr
  · simp [hattr]
  · by_cases hclash : (isAccessorOf later.field.attr earlier.field.attr ||
        isAccessorOf earlier.field.attr later.field.attr) = true
    · simp only [hclash]
      simp only [Bool.or_eq_true] at hclash
      simp [hattr]
      grind
    · simp only [Bool.not_eq_true, Bool.or_eq_false_iff] at hclash
      simp [hattr, hclash]

theorem planMember_eq_ok {earlier : List Member} {name : String} {property : Property}
    {member : Member}
    (h : planMember document width definition earlier name property = .ok member) :
    Member.ofProperty document width definition.required property = .ok member ∧
      ∀ other ∈ earlier, Compatible other member := by
  unfold planMember at h
  obtain ⟨planned, hplanned, h⟩ := bind_eq_ok.mp (mapError_eq_ok.mp h)
  obtain ⟨_, hchecked, h⟩ := bind_eq_ok.mp h
  cases h
  refine ⟨hplanned, ?_⟩
  unfold checkConflicts at hchecked
  split at hchecked
  · cases hchecked
  next hnone =>
    intro other hother
    exact List.findSome?_eq_none_iff.mp hnone other hother

/-- One member for each property, in order, and no two of them clash. -/
theorem planMembers_eq_ok {earlier members : List Member}
    {properties : List (String × Property)}
    (h : planMembers document width definition earlier properties = .ok members) :
    (∃ later, members = earlier ++ later ∧
      List.Forall₂ (fun entry member =>
        Member.ofProperty document width definition.required entry.2 = .ok member)
        properties later) ∧
      (earlier.Pairwise Compatible → members.Pairwise Compatible) := by
  induction properties generalizing earlier with
  | nil =>
      cases h
      exact ⟨⟨[], by simp, .nil⟩, id⟩
  | cons entry rest ih =>
      obtain ⟨name, property⟩ := entry
      obtain ⟨member, hmember, h⟩ := bind_eq_ok.mp h
      obtain ⟨hplanned, hcompatible⟩ := planMember_eq_ok hmember
      -- the members so far grow by one that is compatible with each of them
      obtain ⟨⟨later, rfl, hlater⟩, hpairwise⟩ := ih h
      refine ⟨⟨member :: later, by simp, .cons hplanned hlater⟩, ?_⟩
      intro hearlier
      apply hpairwise
      rw [List.pairwise_append]
      exact ⟨hearlier, List.pairwise_singleton _ _, by simpa using hcompatible⟩

/-! ## Plans -/

/-- Where the parts of a plan come from, and how its members fit together. -/
structure Planned (document : Document) (width : Json) (definition : Definition) (plan : Plan) :
    Prop where
  name : plan.name = definition.name
  plain : Text.isPlainName definition.name.toList = true
  description : describe width definition.description = .ok plan.description
  members : List.Forall₂ (fun entry member =>
    Member.ofProperty document width definition.required entry.2 = .ok member)
    definition.properties plan.members
  compatible : plan.members.Pairwise Compatible

theorem Plan.ofDefinition_eq_ok {plan : Plan}
    (h : Plan.ofDefinition document width definition = .ok plan) :
    Planned document width definition plan := by
  unfold Plan.ofDefinition at h
  cases hplain : Text.isPlainName definition.name.toList with
  | false => simp [hplain, bind, Except.bind] at h
  | true =>
      simp only [hplain] at h
      obtain ⟨-, -, h⟩ := bind_eq_ok.mp h
      obtain ⟨description, hdescription, h⟩ := bind_eq_ok.mp h
      obtain ⟨members, hmembers, h⟩ := bind_eq_ok.mp h
      cases h
      obtain ⟨⟨later, hlater, hproperties⟩, hpairwise⟩ := planMembers_eq_ok hmembers
      rw [List.nil_append] at hlater
      subst hlater
      exact ⟨rfl, hplain, Stop.ofFault_eq_ok.mp hdescription, hproperties, hpairwise .nil⟩

theorem Planned.exists_property {plan : Plan} (h : Planned document width definition plan)
    {member : Member} (hmember : member ∈ plan.members) :
    ∃ entry ∈ definition.properties,
      MemberPlanned document definition.required entry.2 member := by
  obtain ⟨entry, hentry, hplanned⟩ := exists_left_of_mem h.members hmember
  exact ⟨entry, hentry, Member.ofProperty_eq_ok hplanned⟩

theorem mem_constants_iff {plan : Plan} (h : Planned document width definition plan)
    {constant : Constant} :
    constant ∈ plan.constants ↔ ∃ entry ∈ definition.properties, ∃ values ∈ entry.2.enum,
      ∃ value ∈ values, constant = Constant.ofValue entry.2.name value := by
  have hmember : ∀ {entry : String × Property} {member : Member},
      Member.ofProperty document width definition.required entry.2 = .ok member →
      (constant ∈ member.constants ↔ ∃ values ∈ entry.2.enum, ∃ value ∈ values,
        constant = Constant.ofValue entry.2.name value) := by
    intro entry member hmade
    rw [(Member.ofProperty_eq_ok hmade).constants]
    cases entry.2.enum with
    | none => simp
    | some values => simp [constantsOf, eq_comm]
  constructor
  · intro hconstant
    obtain ⟨member, hmem, hconstant⟩ := List.mem_flatMap.mp hconstant
    obtain ⟨entry, hentry, hmade⟩ := exists_left_of_mem h.members hmem
    exact ⟨entry, hentry, (hmember hmade).mp hconstant⟩
  · rintro ⟨entry, hentry, hvalues⟩
    obtain ⟨member, hmem, hmade⟩ := exists_right_of_mem h.members hentry
    exact List.mem_flatMap.mpr ⟨member, hmem, (hmember hmade).mpr hvalues⟩

theorem Planned.attr_eq {plan : Plan} (h : Planned document width definition plan)
    {member : Member} (hmember : member ∈ plan.members) :
    member.field.attr = String.ofList (Text.attributeName member.field.name.toList) := by
  obtain ⟨entry, -, hmade⟩ := h.exists_property hmember
  rw [hmade.field.name, hmade.field.attr]

theorem Planned.distinct_attrs {plan : Plan} (h : Planned document width definition plan) :
    (plan.members.map (·.field.attr)).Nodup := by
  rw [List.Nodup, List.pairwise_map]
  exact h.compatible.imp fun hcompatible => (compatible_iff.mp hcompatible).1

theorem Planned.names_in_order {plan : Plan} (h : Planned document width definition plan) :
    plan.members.map (·.field.name) = definition.properties.map (·.2.name) := by
  rw [← List.forall₂_eq_eq_eq, List.forall₂_map_left_iff, List.forall₂_map_right_iff]
  exact h.members.flip.imp fun _ _ hmade => (Member.ofProperty_eq_ok hmade).field.name

/-- Fields of one name would have one attribute. -/
theorem Planned.distinct_names {plan : Plan} (h : Planned document width definition plan) :
    (plan.members.map (·.field.name)).Nodup := by
  have hattrs : plan.members.map (·.field.attr) =
      (plan.members.map (·.field.name)).map fun name =>
        String.ofList (Text.attributeName name.toList) := by
    rw [List.map_map]
    exact List.map_congr_left fun member hmember => h.attr_eq hmember
  exact .of_map _ (hattrs ▸ h.distinct_attrs)

theorem foldl_collect (self : String) (targets collected : List String) :
    targets.foldl (fun names target =>
        if target == self || names.contains target then names else names ++ [target]) collected =
      collected ++ (targets.filter fun target =>
        target != self && !collected.contains target).eraseDups := by
  induction targets generalizing collected with
  | nil => simp
  | cons target rest ih =>
      rw [List.foldl_cons, ih]
      cases hskip : target == self || collected.contains target with
      | true =>
          rw [if_pos rfl, List.filter_cons_of_neg]
          grind
      | false =>
          obtain ⟨hself, hnew⟩ := Bool.or_eq_false_iff.mp hskip
          -- a name that is collected now is left out of all that come later
          have hlater : ∀ other,
              (other != self && !(collected ++ [target]).contains other) =
                ((!other == target) && (other != self && !collected.contains other)) := by
            grind
          have hkept : (target != self && !collected.contains target) = true := by
            rw [bne, hself, hnew]
            rfl
          rw [if_neg Bool.false_ne_true, List.filter_cons, if_pos hkept, List.eraseDups_cons,
            List.filter_filter, List.append_assoc]
          simp only [hlater]
          rfl

/-- A class refers to what its members refer to and not to itself, to each class once and in the
order in which the members come to it. -/
theorem references_eq (plan : Plan) : plan.references =
    ((plan.members.filterMap Member.target).filter (· != plan.name)).eraseDups := by
  rw [Plan.references, foldl_collect]
  simp

theorem mem_references {plan : Plan} {name : String} :
    name ∈ plan.references ↔
      name ≠ plan.name ∧ ∃ member ∈ plan.members, member.target = some name := by
  rw [references_eq, List.mem_eraseDups, List.mem_filter, List.mem_filterMap, bne_iff_ne]
  exact and_comm

end ModelMint.Blueprint
