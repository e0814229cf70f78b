import ModelMint.Proofs.Emit.Composing
import ModelMint.Proofs.Instance.Keywords

/-!
# The keys of a class

A field of a class goes by two keys, its attribute and the name of its property.  The
attribute of an attribute is the attribute itself, so fields that share a key share their
attribute, and a class has no two such fields.  A key is looked up among the attributes
first, which decides nothing.
-/

namespace ModelMint

open ModelMint.Emit
open ModelMint.Blueprint
open ModelMint.Schema

section Keys

variable {document : Document} {width : Json} {definition : Definition} {plan : Plan}
  {names : BaseNames} {lines : List String} {module : ClassModule} {item : LoadedClass}
  {key : String}

theorem Blueprint.Planned.attr_of_named (h : Planned document width definition plan) {field : Field}
    (hfield : field ∈ plan.fields) (hnamed : field.IsNamed key) :
    field.attr = String.ofList (Text.attributeName key.toList) := by
  obtain ⟨member, hmember, rfl⟩ := List.mem_map.mp hfield
  exact h.attr_of_isNamed hmember hnamed

theorem Blueprint.Planned.index_eq (h : Planned document width definition plan) {i j : Nat}
    (hi : i < plan.fields.length) (hj : j < plan.fields.length)
    (hfirst : plan.fields[i].IsNamed key) (hsecond : plan.fields[j].IsNamed key) : i = j := by
  have hdistinct : (plan.fields.map Field.attr).Nodup := by
    rw [Plan.fields, List.map_map]
    exact h.distinct_attrs
  have hattr : plan.fields[i].attr = plan.fields[j].attr :=
    (h.attr_of_named (List.getElem_mem hi) hfirst).trans
      (h.attr_of_named (List.getElem_mem hj) hsecond).symm
  have hsame : plan.fields[i] = plan.fields[j] :=
    List.inj_on_of_nodup_map hdistinct (List.getElem_mem hi) (List.getElem_mem hj) hattr
  exact (List.Nodup.getElem_inj_iff hdistinct.of_map).mp hsame

theorem Blueprint.Planned.attributeOf?_eq_some_iff (h : Planned document width definition plan)
    (hfields : item.fields = plan.fields.map (fieldCode names)) {attr : String} :
    item.attributeOf? key = some attr ↔
      ∃ field ∈ plan.fields, field.IsNamed key ∧ field.attr = attr := by
  have hfound : ∀ {attr}, item.attributeOf? key = some attr →
      ∃ field ∈ plan.fields, field.IsNamed key ∧ field.attr = attr := by
    intro attr hattr
    obtain ⟨code, hcode, rfl, hkey⟩ := LoadedClass.field_of_attributeOf? hattr
    rw [hfields] at hcode
    obtain ⟨field, hfield, rfl⟩ := List.mem_map.mp hcode
    exact ⟨field, hfield, hkey, rfl⟩
  refine ⟨hfound, ?_⟩
  rintro ⟨field, hfield, hnamed, rfl⟩
  have hcode : fieldCode names field ∈ item.fields := hfields ▸ List.mem_map_of_mem hfield
  obtain ⟨attr, hattr⟩ := LoadedClass.exists_attributeOf? hcode hnamed
  obtain ⟨other, hother, halso, rfl⟩ := hfound hattr
  rw [hattr, h.attr_of_named hother halso, h.attr_of_named hfield hnamed]

end Keys

/-- No key is the attribute or the name of two fields of an accepted definition.  So in its class,
whatever the base, a key is looked up to the attribute of the one field that goes by it, and a name
never to that of another field. -/
theorem keys_name_one_field {document : Document} {width : Json} {definition : Definition}
    {plan : Plan} (hplan : Plan.ofDefinition document width definition = .ok plan) :
    (∀ key i j, ∀ (hi : i < plan.fields.length) (hj : j < plan.fields.length),
      plan.fields[i].IsNamed key → plan.fields[j].IsNamed key → i = j) ∧
    ∀ names lines module item, ClassModule.ofPlan names lines plan = .ok module →
      LoadedClass.load module = .ok item →
        (∀ key attr, item.attributeOf? key = some attr ↔
          ∃ field ∈ plan.fields, field.IsNamed key ∧ field.attr = attr) ∧
        ∀ field ∈ plan.fields, item.attributeOf? field.name = some field.attr := by
  have hplanned := Plan.ofDefinition_eq_ok hplan
  refine ⟨fun key i j hi hj => hplanned.index_eq hi hj, fun names lines module item hmodule hload => ?_⟩
  have hfields : item.fields = plan.fields.map (fieldCode names) := by
    obtain ⟨constants, -, rfl⟩ := LoadedClass.load_eq_ok hload
    exact (ClassModule.ofPlan_eq_ok hmodule).fields
  have hlookup : ∀ key attr, item.attributeOf? key = some attr ↔
      ∃ field ∈ plan.fields, field.IsNamed key ∧ field.attr = attr :=
    fun key attr => hplanned.attributeOf?_eq_some_iff hfields
  exact ⟨hlookup, fun field hfield => (hlookup _ _).mpr ⟨field, hfield, .inr rfl, rfl⟩⟩

theorem keys_name_one_field_room :
    roomClass.attributeOf? "3dView" = some "_3d_view" ∧
      roomClass.attributeOf? "_3d_view" = some "_3d_view" := by
  have hplan : Plan.ofDefinition ⟨.null, []⟩ (.int 120) roomDefinition = .ok roomPlan := rfl
  obtain ⟨-, hclass⟩ := keys_name_one_field hplan
  obtain ⟨hlookup, hname⟩ := hclass {} [] (standardModule [] roomPlan) roomClass rfl rfl
  have hview : { name := "3dView", attr := "_3d_view", initial := .absent } ∈ roomPlan.fields := by
    simp [roomPlan, Plan.fields]
  exact ⟨hname _ hview, (hlookup _ _).mpr ⟨_, hview, .inl rfl, rfl⟩⟩

end ModelMint
