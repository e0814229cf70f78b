import ModelMint.Proofs.Package.Files

/-!
# What a class refers to

A class refers to other definitions of its document, and only to such as could be read.
Each definition is composed on its own: one that is referred to may fail later than a
class that refers to it was made, and then it is among the failures.
-/

namespace ModelMint.Package

open ModelMint.Schema
open ModelMint.Blueprint

variable {settings : Settings} {comment schema : Json} {document : Document} {run : Run}
  {definition : Definition} {plan : Plan} {module : Emit.ClassModule} {other : String}

/-- What a module refers to is another definition, and one that could be read. -/
theorem Origin.defines (h : Origin settings comment schema document definition plan module)
    (hother : other ∈ module.references) :
    other ≠ module.name ∧ document.defines other = true := by
  obtain ⟨lines, -, hofPlan⟩ := h.composed
  obtain ⟨hname, -, hreferences⟩ := ofPlan_eq_ok hofPlan
  rw [hreferences, mem_references] at hother
  obtain ⟨hne, member, hmember, htarget⟩ := hother
  obtain ⟨entry, -, hplanned⟩ := h.planned_members.exists_property hmember
  rw [hname]
  refine ⟨hne, ?_⟩
  obtain ⟨-, hnone⟩ | ⟨-, resolved, -, hdefined, hsome⟩ := targetOf_eq_ok hplanned.target
  · rw [htarget] at hnone
    cases hnone
  · rw [htarget] at hsome
    obtain rfl := Option.some.inj hsome
    exact hdefined

/-- A class refers to definitions that could be read, and those that are not left out are
classes of the run themselves, unless a failure of the run names them. -/
theorem references_generated_or_failed (hrun : generate settings comment schema = .ok run)
    (hmodule : module ∈ run.package.modules) (hother : other ∈ module.references)
    (hkept : isIgnored settings.ignored other = .ok false) :
    (∃ document, Document.read schema = .ok document ∧ document.defines other = true) ∧
      other ≠ module.name ∧
      (other ∈ run.package.classes ∨
        ∃ failure ∈ run.package.failures, AssignedTo other failure) := by
  obtain ⟨document, added, hran⟩ := generate_eq_ok hrun
  obtain ⟨definition, plan, horigin⟩ := hran.exists_origin hmodule
  obtain ⟨hne, hdefined⟩ := horigin.defines hother
  obtain ⟨entry, hentry⟩ := exists_entry_of_defines hdefined
  refine ⟨⟨document, hran.read, hdefined⟩, hne, ?_⟩
  obtain ⟨made, hmade, hname⟩ | hfailed := hran.made_or_failed hentry hkept
  · exact .inl (List.mem_map.mpr ⟨made, hmade, hname⟩)
  · exact .inr hfailed

/-! ## A booking of a stay -/

/-- A class that refers to a definition whose default is no moment. -/
def bookingSchema : Json := .obj [("definitions", .obj [
  ("Booking", .obj [("properties", .obj [("stay", .obj [("$ref", .str "#/definitions/Stay")])])]),
  ("Stay", .obj [("properties", .obj [
    ("since", .obj [("format", .str "date-time"), ("default", .str "soon")])])])])]

def bookingRun : Run := runOf uncheckedSettings .null bookingSchema

def bookingModule : Emit.ClassModule := bookingRun.package.modules.get ⟨0, by decide +kernel⟩

private theorem generate_booking :
    generate uncheckedSettings .null bookingSchema = .ok bookingRun := rfl

private theorem stay_not_mem_classes : "Stay" ∉ bookingRun.package.classes := by decide +kernel

private theorem stay_mem_references : "Stay" ∈ bookingModule.references := by decide +kernel

theorem booking_refers_to_no_class :
    generate uncheckedSettings .null bookingSchema = .ok bookingRun ∧
      bookingModule ∈ bookingRun.package.modules ∧ "Stay" ∈ bookingModule.references ∧
      isIgnored uncheckedSettings.ignored "Stay" = .ok false ∧
      "Stay" ∉ bookingRun.package.classes :=
  ⟨generate_booking, List.get_mem _ _, stay_mem_references, rfl, stay_not_mem_classes⟩

theorem references_generated_or_failed_booking :
    ∃ failure ∈ bookingRun.package.failures, AssignedTo "Stay" failure := by
  have hmodule : bookingModule ∈ bookingRun.package.modules := List.get_mem _ _
  obtain ⟨-, -, hclass | hfailed⟩ :=
    references_generated_or_failed generate_booking hmodule stay_mem_references rfl
  · exact absurd hclass stay_not_mem_classes
  · exact hfailed

end ModelMint.Package
