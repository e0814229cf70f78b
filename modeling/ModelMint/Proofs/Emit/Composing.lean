import ModelMint.Emit.ClassModule
import ModelMint.Proofs.Results

/-!
# Composed modules

What a module has of the plan that it is composed from, and a setter of its member.
-/

namespace ModelMint.Emit

open ModelMint.Blueprint

variable {names : BaseNames} {member : Blueprint.Member} {code : SetterCode} {lines : List String}
  {plan : Plan} {module : ClassModule}

/-- The code of a setter for a member. -/
structure SetterCode.Sets (names : BaseNames) (member : Blueprint.Member) (code : SetterCode) :
    Prop where
  attr : code.attr = member.field.attr
  parameterType : code.parameterType = parameterTypeOf member.field
  statements : List.Forall₂ (fun rule statement =>
    statementOf names member.field rule = .ok statement) member.rules code.statements

theorem setterCode_eq_ok (h : setterCode names member = .ok code) : code.Sets names member := by
  unfold setterCode at h
  obtain ⟨statements, hstatements, h⟩ := bind_eq_ok.mp h
  cases h
  exact ⟨rfl, rfl, mapM_eq_ok.mp hstatements⟩

theorem eq_parseMoment_of_start {field : Field} {operation : String} {value : Json}
    (h : (fieldCode names field).start = some (.parsed operation value)) :
    operation = plainText names.parseMoment := by
  simp only [fieldCode, startOf] at h
  split at h
  · cases h
  · split at h
    · cases h
      rfl
    · cases h

theorem eq_exportElements_of_exported {field : Field} {operation : String}
    (h : operation ∈ (fieldCode names field).exported) :
    operation = plainText names.exportElements := by
  simp only [fieldCode] at h
  split at h
  · cases h
    rfl
  · cases h

/-- A module that is composed from a plan. -/
structure ClassModule.Composed (names : BaseNames) (lines : List String) (plan : Plan)
    (module : ClassModule) : Prop where
  name : module.name = plan.name
  heading : module.heading = lines
  usesMoment : module.usesMoment = plan.fields.any Field.isMoment
  references : module.references = plan.references
  baseModule : module.baseModule = plainText names.module
  baseClass : module.baseClass = plainText names.className
  documentation : module.documentation = documentationOf plan
  constants : module.constants = plan.constants
  fields : module.fields = plan.fields.map (fieldCode names)
  setters : List.Forall₂ (fun member code => setterCode names member = .ok code) plan.setters
    module.setters

theorem ClassModule.ofPlan_eq_ok (h : ClassModule.ofPlan names lines plan = .ok module) :
    module.Composed names lines plan := by
  unfold ClassModule.ofPlan at h
  obtain ⟨setters, hsetters, h⟩ := bind_eq_ok.mp h
  cases h
  exact ⟨rfl, rfl, rfl, rfl, rfl, rfl, rfl, rfl, rfl, mapM_eq_ok.mp hsetters⟩

namespace ClassModule.Composed

theorem exists_member (h : module.Composed names lines plan) (hcode : code ∈ module.setters) :
    ∃ member ∈ plan.members, code.Sets names member := by
  obtain ⟨member, hmember, hmade⟩ := exists_left_of_mem h.setters hcode
  exact ⟨member, (List.mem_filter.mp hmember).1, setterCode_eq_ok hmade⟩

theorem exists_field (h : module.Composed names lines plan) {part : FieldCode}
    (hpart : part ∈ module.fields) :
    ∃ member ∈ plan.members, part = fieldCode names member.field := by
  rw [h.fields] at hpart
  obtain ⟨field, hfield, rfl⟩ := List.mem_map.mp hpart
  obtain ⟨member, hmember, rfl⟩ := List.mem_map.mp hfield
  exact ⟨member, hmember, rfl⟩

theorem exists_constant (h : module.Composed names lines plan) {constant : Constant}
    (hconstant : constant ∈ module.constants) : ∃ member ∈ plan.members, constant ∈ member.constants := by
  rw [h.constants] at hconstant
  exact List.mem_flatMap.mp hconstant

end ClassModule.Composed

end ModelMint.Emit
