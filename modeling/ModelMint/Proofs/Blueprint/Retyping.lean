import ModelMint.Proofs.Blueprint.Likeness
import ModelMint.Proofs.Schema.Retyping

/-!
# Types that pass through

A type name that means nothing to a class stands in annotations only.  With another such
name in its place a definition has the same rules, constants and fields, or the same
failure.
-/

namespace ModelMint

open ModelMint.Schema

namespace TypeName

/-- The types of fields that rules are made for. -/
def kinds : List String := [int, float, list, moment]

theorem contains_kinds_ofSchema {name : String} (h : meant.contains name = false) :
    kinds.contains (ofSchema name) = false := by
  have hname : ofSchema name = name := by
    unfold ofSchema
    split <;> first | rfl | exact absurd h (by decide)
  rw [hname]
  simp only [meant, List.contains_cons, List.contains_nil, Bool.or_eq_false_iff, beq_eq_false_iff_ne]
    at h
  simp only [kinds, List.contains_cons, List.contains_nil, Bool.or_eq_false_iff, beq_eq_false_iff_ne]
  exact ⟨h.2.2.2.2.2.1, h.2.2.2.2.2.2⟩

end TypeName

namespace Blueprint

/-! ## What is left of fields -/

/-- A type as far as rules are made for it. -/
def kindOf (storage : Option String) : Option String := storage.filter TypeName.kinds.contains

/-- The field without the type that is declared for it. -/
def Field.untyped (field : Field) : Field :=
  { field with storage := kindOf field.storage, documented := none }

def Member.untyped (member : Member) : Member := { member with field := member.field.untyped }

theorem kindOf_beq (storage : Option String) {kind : String} (h : kind ∈ TypeName.kinds) :
    (kindOf storage == some kind) = (storage == some kind) := by
  cases storage with
  | none => rfl
  | some name =>
      have hkind : name = kind → TypeName.kinds.contains name = true := by
        rintro rfl
        exact List.contains_iff_mem.mpr h
      by_cases hname : TypeName.kinds.contains name = true
      · rw [kindOf, Option.filter_some, if_pos hname]
      · rw [kindOf, Option.filter_some, if_neg hname]
        have hother : name ≠ kind := fun hsame => hname (hkind hsame)
        exact (beq_eq_false_iff_ne.mpr fun hsame => hother (Option.some.inj hsame)).symm

theorem beq_of_kindOf {storage other : Option String} (h : kindOf storage = kindOf other)
    {kind : String} (hkind : kind ∈ TypeName.kinds) :
    (storage == some kind) = (other == some kind) := by
  rw [← kindOf_beq storage hkind, ← kindOf_beq other hkind, h]

theorem showsNames_untyped : ShowsNames Member.untyped := ⟨fun _ => rfl, fun _ => rfl⟩

/-! ## Retyped properties -/

section Properties

variable {root width : Json} (property : Property)

theorem storageType_retyped : (storageType root property.retyped).map kindOf =
    (storageType root property).map kindOf := by
  have hdate : property.retyped.isDateTime = property.isDateTime := rfl
  unfold storageType
  rw [hdate]
  split
  · rfl
  · simp only [Property.retyped]
    cases property.type with
    | none => rfl
    | some name =>
        simp only [Option.map_some, TypeName.retyped]
        split
        · rfl
        next hmeant =>
          have hkind := TypeName.contains_kinds_ofSchema (Bool.eq_false_iff.mpr hmeant)
          simp only [Except.map, kindOf, Option.filter_some, hkind]
          rfl

theorem isPureArray_retyped : isPureArray root property.retyped = isPureArray root property := by
  have hstorage : (storageType root property.retyped).map kindOf = _ := storageType_retyped property
  have harray : isArray root property.retyped = isArray root property := by
    unfold isArray
    revert hstorage
    cases storageType root property.retyped <;> cases storageType root property <;>
      simp only [Except.map, Except.ok.injEq, Except.error.injEq, reduceCtorEq, imp_self]
    exact fun hkind => beq_of_kindOf hkind (by simp [TypeName.kinds])
  unfold isPureArray
  rw [harray]
  rfl

theorem elementRules_retyped : elementRules root property.retyped = elementRules root property := by
  unfold elementRules
  rw [isPureArray_retyped]
  rfl

theorem rulesOf_retyped : rulesOf root property.retyped = rulesOf root property := by
  unfold rulesOf
  refine bind_congr_of_map (storageType_retyped property) fun storage other hkind => ?_
  have hsame : ∀ kind ∈ TypeName.kinds, (storage == some kind) = (other == some kind) :=
    fun kind => beq_of_kindOf hkind
  simp only [TypeName.kinds, List.forall_mem_cons, List.not_mem_nil, false_implies, implies_true,
    and_true] at hsame
  obtain ⟨hint, hfloat, hlist, hmoment⟩ := hsame
  have hlength : lengthRules storage property.retyped = lengthRules other property := by
    unfold lengthRules
    rw [hlist]
    rfl
  have hbounds : boundRules storage property.retyped = boundRules other property := by
    unfold boundRules
    rw [hint, hfloat]
    rfl
  have hmoments : momentRules storage = momentRules other := by
    unfold momentRules
    rw [hmoment]
  rw [elementRules_retyped, hlength, hbounds, hmoments]
  rfl

theorem field_retyped (required : List String) :
    (Field.ofProperty root width required property.retyped).map Field.untyped =
      (Field.ofProperty root width required property).map Field.untyped := by
  have hasked : (property.retyped.type.isSome && property.retyped.isReference) =
      (property.type.isSome && property.isReference) := by
    simp [Property.retyped, Property.isReference]
  have helement : ∀ wanted, elementTypeIf wanted root property.retyped =
      elementTypeIf wanted root property := fun _ => rfl
  unfold Field.ofProperty
  rw [map_bind, map_bind, isPureArray_retyped, hasked]
  refine bind_congr_of_map (storageType_retyped property) fun storage other hkind => ?_
  have harray : (storage == some TypeName.list) = (other == some TypeName.list) :=
    beq_of_kindOf hkind (by simp [TypeName.kinds])
  rw [harray]
  simp only [helement, map_bind]
  simp only [Except.map, Field.untyped, hkind]
  rfl

theorem member_retyped (document : Document) (required : List String) :
    (Member.ofProperty document width required property.retyped).map Member.untyped =
      (Member.ofProperty document width required property).map Member.untyped := by
  have htarget : targetOf document property.retyped = targetOf document property := rfl
  unfold Member.ofProperty
  rw [map_bind, map_bind, htarget]
  refine bind_congr_of_map rfl fun target same (hsame : target = same) => ?_
  rw [map_bind, map_bind, rulesOf_retyped]
  refine bind_congr_of_map (field_retyped property required) fun field other hfield => ?_
  rw [map_bind, map_bind, hsame]
  simp only [Except.map, Member.untyped, hfield]
  rfl

end Properties

/-! ## Retyped definitions -/

/-- The plan without the types that are declared in it. -/
def Plan.untyped (plan : Plan) : Plan := plan.seen Member.untyped id

theorem plan_retyped (document : Document) (width : Json) (definition : Definition) :
    (Plan.ofDefinition document width definition.retyped).map Plan.untyped =
      (Plan.ofDefinition document width definition).map Plan.untyped := by
  refine plan_alike showsNames_untyped rfl rfl rfl ?_
  rw [Definition.retyped, List.forall₂_map_left_iff, List.forall₂_same]
  exact fun entry _ => ⟨rfl, rfl, member_retyped entry.2 document definition.required⟩

end Blueprint

end ModelMint
