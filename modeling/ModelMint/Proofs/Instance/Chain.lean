import ModelMint.Proofs.Instance.Acceptance

/-!
# The chain of rules of a member

The rules of a planned member are sound, and the rule for moments is among them exactly
where the field holds moments.  So what a setter stores is the value that it was given,
or the moment that the value is the text of.
-/

namespace ModelMint

open ModelMint.Emit
open ModelMint.Blueprint
open ModelMint.Schema

variable {document : Document} {required : List String} {property : Property}
  {member : Blueprint.Member}

/-! ## Sound chains -/

theorem elements_of_mem_elementRules {root : Json} {elements : List Rule}
    (h : elementRules root property = .ok elements) {rule : Rule} (hrule : rule ∈ elements) :
    ∃ className, rule = .elements className := by
  rcases elementRules_eq_ok h with rfl | ⟨-, -, resolved, -, rfl⟩
  · cases hrule
  · exact ⟨_, List.mem_singleton.mp hrule⟩

/-- The rules of a member that was read are sound, if its allowed values have literals. -/
theorem rules_sound (hplanned : MemberPlanned document required property member)
    {name : String} (hread : PropertyRead name property)
    (hfinite : ∀ values, property.enum = some values → Json.itemsFinite values = true) :
    ∀ rule ∈ member.rules, rule.Sound := by
  obtain ⟨storage, elements, -, helements, hrules⟩ := rulesOf_eq_ok hplanned.rules
  intro rule hrule
  rw [hrules, List.mem_append] at hrule
  rcases hrule with helement | hother
  · obtain ⟨className, rfl⟩ := elements_of_mem_elementRules helements helement
    trivial
  · rcases otherRules_cases hother with rfl | ⟨measure, rfl⟩ | rfl | ⟨values, henum, rfl⟩
    · exact ⟨hread.minItems, hread.maxItems⟩
    · exact ⟨hread.minimum, hread.maximum⟩
    · trivial
    · exact hfinite values henum

/-! ## The rule for moments -/

/-- Around the rule for moments, if it is there, stand rules that hand the value on. -/
theorem rules_eq (hplanned : MemberPlanned document required property member) :
    ∃ before after, member.rules = before ++ momentRules member.field.storage ++ after ∧
      (∀ rule ∈ before, rule ≠ .moment) ∧ ∀ rule ∈ after, rule ≠ .moment := by
  obtain ⟨storage, elements, hstorage, helements, hrules⟩ := rulesOf_eq_ok hplanned.rules
  have hfield := hplanned.field.storage
  rw [hstorage] at hfield
  obtain rfl := Except.ok.inj hfield
  refine ⟨elements ++ lengthRules member.field.storage property ++
    boundRules member.field.storage property, valueRules property,
    by rw [hrules]; simp [otherRules], ?_, ?_⟩
  · intro rule hrule
    simp only [List.mem_append] at hrule
    rcases hrule with (helement | hlength) | hbound
    · obtain ⟨className, rfl⟩ := elements_of_mem_elementRules helements helement
      exact Rule.noConfusion
    · rw [eq_of_mem_lengthRules hlength]
      exact Rule.noConfusion
    · obtain ⟨measure, rfl⟩ := eq_of_mem_boundRules hbound
      exact Rule.noConfusion
  · intro rule hrule
    obtain ⟨values, -, rfl⟩ := mem_valueRules.mp hrule
    exact Rule.noConfusion

section Judging

variable {scene : Scene} {className : String} {code : SetterCode} {value taken : Value}

theorem foldlM_judge_eq_self {rules : List Rule} (hrules : ∀ rule ∈ rules, rule ≠ .moment)
    (h : rules.foldlM (Blueprint.Rule.judge scene className code) value = .ok taken) :
    taken = value := by
  induction rules generalizing value with
  | nil => exact (Except.ok.inj h).symm
  | cons rule rest ih =>
      rw [List.foldlM_cons] at h
      obtain ⟨first, hfirst, hrest⟩ := bind_eq_ok.mp h
      obtain ⟨hrule, hothers⟩ := List.forall_mem_cons.mp hrules
      rw [ih hothers hrest, judge_eq_self hrule hfirst]

theorem foldlM_of_verdict (h : member.verdict scene className value = .ok taken) :
    member.rules.foldlM (Blueprint.Rule.judge scene className (standardSetter member)) value =
      .ok taken := by
  unfold Blueprint.Member.verdict at h
  simp only at h
  split at h
  · cases h
  · split at h
    · cases h
    · exact h

/-- What a field stores for a value that it takes. -/
def Blueprint.Field.stored (field : Field) (value : Value) : Value :=
  if field.isMoment then (value.moment?.map Value.moment).getD value else value

/-- A setter stores the value as it is, or the moment that it is the text of. -/
theorem verdict_eq_stored (hplanned : MemberPlanned document required property member)
    (h : member.verdict scene className value = .ok taken) :
    taken = member.field.stored value ∧
      (member.field.isMoment = true → value.moment?.isSome = true) := by
  obtain ⟨before, after, hrules, hbefore, hafter⟩ := rules_eq hplanned
  replace h := foldlM_of_verdict h
  rw [hrules, List.foldlM_append, List.foldlM_append] at h
  obtain ⟨second, hfirst, hlast⟩ := bind_eq_ok.mp h
  obtain ⟨first, hbegin, hmiddle⟩ := bind_eq_ok.mp hfirst
  obtain rfl := foldlM_judge_eq_self hbefore hbegin
  obtain rfl := foldlM_judge_eq_self hafter hlast
  unfold Blueprint.Field.stored Blueprint.Field.isMoment
  unfold momentRules at hmiddle
  cases hstorage : member.field.storage == some TypeName.moment with
  | false =>
      rw [hstorage] at hmiddle
      cases hmiddle
      simp
  | true =>
      rw [hstorage] at hmiddle
      rw [if_pos rfl, List.foldlM_cons] at hmiddle
      obtain ⟨parsed, hparsed, hnone⟩ := bind_eq_ok.mp hmiddle
      cases hnone
      have hmoment := parseMoment_eq_ok.mp hparsed
      cases hfound : first.moment? with
      | none => simp [hfound] at hmoment
      | some moment =>
          simp only [hfound, Option.map_some, Option.some.injEq] at hmoment
          simp [hmoment]

end Judging

end ModelMint
