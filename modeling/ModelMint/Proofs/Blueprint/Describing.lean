import ModelMint.Proofs.Blueprint.Likeness
import ModelMint.Proofs.Blueprint.Reordering
import ModelMint.Proofs.Blueprint.Stopping
import ModelMint.Proofs.Schema.Describing

/-!
# Plans without descriptions

Descriptions come into a plan as lines, and with a width that has room they always do.
Nothing else in a plan, and no failure, depends on what they say or how wide they are.
-/

namespace ModelMint.Blueprint

open ModelMint.Schema

/-! ## What is left of members -/

def Field.undescribed (field : Field) : Field := { field with description := [] }

def Member.undescribed (member : Member) : Member := { member with field := member.field.undescribed }

def Plan.undescribed : Plan → Plan := Plan.seen Member.undescribed fun _ => []

theorem showsNames_undescribed : ShowsNames Member.undescribed := ⟨fun _ => rfl, fun _ => rfl⟩

section Members

variable {document next : Document} {root width room : Json} {property other : Property}
  {definition second : Definition} (hwidth : HasRoom width) (hroom : HasRoom room)
include hwidth hroom

theorem field_undescribed (required : List String) (description : Option String) :
    (Field.ofProperty root width required property).map Field.undescribed =
      (Field.ofProperty root room required { property with description }).map Field.undescribed := by
  obtain ⟨lines, hlines⟩ := describe_eq_ok hwidth property.description
  obtain ⟨others, hothers⟩ := describe_eq_ok hroom description
  unfold Field.ofProperty
  simp only [hlines, hothers, map_bind]
  rfl

theorem member_undescribed (hnames : ∀ pointer ∈ property.reference?,
      SameName document.raw next.raw pointer)
    (hdefines : ∀ name, document.defines name = next.defines name) (required : List String)
    (hother : property.silent = other.silent) :
    (Member.ofProperty document width required property).map Member.undescribed =
      (Member.ofProperty next room required other).map Member.undescribed := by
  have hparts : other = { property with description := other.description } := by
    cases property
    cases other
    simp only [Property.silent, Property.mk.injEq] at hother ⊢
    tauto
  rw [hparts, member_congr hdefines hnames]
  unfold Member.ofProperty
  simp only [map_bind]
  refine bind_congr_of_map rfl fun target same (hsame : target = same) => ?_
  have hfield : (Field.ofProperty next.raw width required property).map Field.undescribed = _ :=
    field_undescribed hwidth hroom required other.description
  refine bind_congr_of_map hfield fun field found hfound => ?_
  subst hsame
  refine bind_congr_of_map (f := id) (g := id) rfl fun rules same (hsame : rules = same) => ?_
  simp only [Except.map, Member.undescribed, hfound, hsame]

/-- Definitions that differ in descriptions only have plans that do, or fail alike. -/
theorem plan_undescribed (halike : Alike document next) (hsame : definition.silent = second.silent) :
    (Plan.ofDefinition document width definition).map Plan.undescribed =
      (Plan.ofDefinition next room second).map Plan.undescribed := by
  simp only [Definition.silent, Definition.mk.injEq] at hsame
  obtain ⟨hname, hproperties, hrequired, -, hpath⟩ := hsame
  obtain ⟨lines, hlines⟩ := describe_eq_ok hwidth definition.description
  obtain ⟨others, hothers⟩ := describe_eq_ok hroom second.description
  refine plan_alike showsNames_undescribed hname hpath (by rw [hlines, hothers]; rfl) ?_
  have hpairs := forall₂_of_map_eq hproperties
  refine hpairs.imp fun entry other hentry => ?_
  obtain ⟨hkey, hsilent⟩ := Prod.mk.inj hentry
  have hplace : entry.2.silent.path = other.2.silent.path := by rw [hsilent]
  refine ⟨hkey, hplace, ?_⟩
  rw [hrequired]
  exact member_undescribed hwidth hroom (fun pointer _ => halike.names pointer) halike.defines _
    hsilent

end Members

end ModelMint.Blueprint
