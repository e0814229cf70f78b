import ModelMint.Proofs.Blueprint.Planning

/-!
# The order of the properties

Each member is planned from its own property, and two members that fit together do so in
either order.  So a definition has a plan whatever the order of its properties, with the
same members in that order.
-/

namespace ModelMint.Blueprint

open ModelMint.Schema

variable {document : Document} {width : Json} {definition : Definition} {plan : Plan}
  {properties others : List (String × Property)} {members : List Member}

/-! ## Members that fit together -/

theorem compatible_comm {member other : Member} : Compatible member other ↔ Compatible other member := by
  rw [compatible_iff, compatible_iff, ne_comm, and_comm (b := isAccessorOf _ _ = false)]

theorem planMember_of_compatible {earlier : List Member} {name : String} {property : Property}
    {member : Member}
    (hmember : Member.ofProperty document width definition.required property = .ok member)
    (hcompatible : ∀ other ∈ earlier, Compatible other member) :
    planMember document width definition earlier name property = .ok member := by
  have hchecked : checkConflicts earlier member = .ok () := by
    unfold checkConflicts
    rw [List.findSome?_eq_none_iff.mpr hcompatible]
  unfold planMember
  rw [hmember]
  simp only [bind, Except.bind, hchecked]
  rfl

theorem planMembers_of_compatible {earlier later : List Member}
    (hmembers : List.Forall₂ (fun entry member =>
      Member.ofProperty document width definition.required entry.2 = .ok member) properties later)
    (hcompatible : (earlier ++ later).Pairwise Compatible) :
    planMembers document width definition earlier properties = .ok (earlier ++ later) := by
  induction hmembers generalizing earlier with
  | nil => simp [planMembers]
  | @cons entry member rest later hmember _ ih =>
      have hearlier : ∀ other ∈ earlier, Compatible other member := by
        intro other hother
        exact (List.pairwise_append.mp hcompatible).2.2 other hother member List.mem_cons_self
      rw [List.append_cons] at hcompatible ⊢
      rw [planMembers, planMember_of_compatible hmember hearlier]
      exact ih hcompatible

/-! ## Plans -/

theorem plan_eq_ok_iff : Plan.ofDefinition document width definition = .ok plan ↔
    Planned document width definition plan ∧ plan.path = definition.path := by
  constructor
  · intro h
    have hplanned := Plan.ofDefinition_eq_ok h
    refine ⟨hplanned, ?_⟩
    unfold Plan.ofDefinition at h
    simp only [hplanned.plain] at h
    obtain ⟨-, -, h⟩ := bind_eq_ok.mp h
    obtain ⟨description, -, h⟩ := bind_eq_ok.mp h
    obtain ⟨members, -, h⟩ := bind_eq_ok.mp h
    cases h
    rfl
  · rintro ⟨hplanned, hpath⟩
    have hmembers : planMembers document width definition [] definition.properties =
        .ok plan.members := planMembers_of_compatible hplanned.members hplanned.compatible
    unfold Plan.ofDefinition
    rw [hplanned.plain, hplanned.description, hmembers]
    obtain ⟨name, path, description, members⟩ := plan
    obtain rfl : name = definition.name := hplanned.name
    obtain rfl : path = definition.path := hpath
    rfl

/-- The member that a property is planned as, if it is. -/
def memberOf (document : Document) (width : Json) (required : List String) (property : Property) :
    Member :=
  match Member.ofProperty document width required property with
  | .ok member => member
  | .error _ => { field := { name := property.name, attr := property.name } }

theorem Planned.member_eq (h : Planned document width definition plan) :
    ∀ entry ∈ definition.properties,
      Member.ofProperty document width definition.required entry.2 =
        .ok (memberOf document width definition.required entry.2) := by
  intro entry hentry
  obtain ⟨member, -, hmember⟩ := exists_right_of_mem h.members hentry
  rw [memberOf, hmember]

theorem Planned.members_eq (h : Planned document width definition plan) :
    plan.members = definition.properties.map fun entry =>
      memberOf document width definition.required entry.2 := by
  rw [← List.forall₂_eq_eq_eq, List.forall₂_map_right_iff]
  refine h.members.flip.imp fun member entry hmember => ?_
  rw [memberOf, hmember]

theorem Planned.reordered (h : Planned document width definition plan)
    (hperm : definition.properties.Perm others) :
    ∃ members, members.Perm plan.members ∧
      Planned document width { definition with properties := others } { plan with members } := by
  obtain ⟨members, hmembers, hsame⟩ := List.perm_comp_forall₂ hperm.symm h.members
  refine ⟨members, hsame, h.name, h.plain, h.description, hmembers, ?_⟩
  exact (hsame.pairwise_iff fun hcompatible => compatible_comm.mp hcompatible).mpr h.compatible

theorem nodup_eraseDups (names : List String) : names.eraseDups.Nodup := by
  induction hlength : names.length using Nat.strong_induction_on generalizing names with
  | _ length ih =>
      cases names with
      | nil => simp
      | cons name rest =>
          rw [List.eraseDups_cons, List.nodup_cons, List.mem_eraseDups]
          refine ⟨by simp, ih _ ?_ _ rfl⟩
          rw [← hlength]
          exact Nat.lt_succ_of_le (List.length_filter_le _ _)

theorem references_perm {other : Plan} (hname : other.name = plan.name)
    (hmembers : other.members.Perm plan.members) : other.references.Perm plan.references := by
  have hnodup : ∀ plan : Plan, plan.references.Nodup := by
    intro plan
    rw [references_eq]
    exact nodup_eraseDups _
  rw [List.perm_ext_iff_of_nodup (hnodup other) (hnodup plan)]
  intro name
  simp only [mem_references, hname, hmembers.mem_iff]

/-- What a plan has of each property, in the order of the properties. -/
structure InOrder (member : Property → Member) (properties : List (String × Property))
    (plan : Plan) : Prop where
  fields : plan.fields = properties.map fun entry => (member entry.2).field
  setters : plan.setters =
    (properties.map fun entry => member entry.2).filter (!·.rules.isEmpty)
  constants : plan.constants = properties.flatMap fun entry => (member entry.2).constants
  /-- Each class where it comes first. -/
  references : plan.references =
    ((properties.filterMap fun entry => (member entry.2).target).filter (· != plan.name)).eraseDups

theorem Planned.inOrder (h : Planned document width definition plan) :
    InOrder (memberOf document width definition.required) definition.properties plan := by
  refine ⟨?_, ?_, ?_, ?_⟩
  · simp [Plan.fields, h.members_eq, Function.comp_def]
  · simp [Plan.setters, h.members_eq]
  · simp [Plan.constants, h.members_eq, List.flatMap_map]
  · simp [references_eq, h.members_eq, List.filterMap_map]

theorem exists_plan_of_perm (hperm : definition.properties.Perm others)
    (hplan : Plan.ofDefinition document width definition = .ok plan) :
    ∃ members, members.Perm plan.members ∧
      Plan.ofDefinition document width { definition with properties := others } =
        .ok { plan with members } := by
  obtain ⟨hplanned, hpath⟩ := plan_eq_ok_iff.mp hplan
  obtain ⟨members, hsame, hmembers⟩ := hplanned.reordered hperm
  exact ⟨members, hsame, plan_eq_ok_iff.mpr ⟨hmembers, hpath⟩⟩

/-- With its properties in another order a definition has a plan if it had one before, and the plans
have the same of each property and refer to the same classes.  Only the order is another one. -/
theorem plans_follow_properties (hperm : definition.properties.Perm others) :
    ((∃ plan, Plan.ofDefinition document width definition = .ok plan) ↔
      ∃ after, Plan.ofDefinition document width { definition with properties := others } =
        .ok after) ∧
    ∀ plan after, Plan.ofDefinition document width definition = .ok plan →
      Plan.ofDefinition document width { definition with properties := others } = .ok after →
      after = { plan with members := after.members } ∧
      after.references.Perm plan.references ∧
      ∃ member : Property → Member,
        (∀ entry ∈ definition.properties,
          Member.ofProperty document width definition.required entry.2 = .ok (member entry.2)) ∧
        InOrder member definition.properties plan ∧ InOrder member others after := by
  refine ⟨⟨?_, ?_⟩, fun plan after hplan hafter => ?_⟩
  · rintro ⟨plan, hplan⟩
    obtain ⟨members, -, hafter⟩ := exists_plan_of_perm hperm hplan
    exact ⟨_, hafter⟩
  · rintro ⟨after, hafter⟩
    have hback : others.Perm definition.properties := hperm.symm
    obtain ⟨members, -, hplan⟩ := exists_plan_of_perm hback hafter
    exact ⟨_, hplan⟩
  · obtain ⟨members, hsame, hmembers⟩ := exists_plan_of_perm hperm hplan
    obtain rfl := Except.ok.inj (hmembers.symm.trans hafter)
    have hplanned := Plan.ofDefinition_eq_ok hplan
    exact ⟨rfl, references_perm rfl hsame, memberOf document width definition.required,
      hplanned.member_eq, hplanned.inOrder, (Plan.ofDefinition_eq_ok hafter).inOrder⟩

/-! ## A suite -/

def suiteDocument : Document where
  raw := .obj [("definitions", .obj [("Room", .obj []), ("Guest", .obj [])])]
  entries := [("Room", .ok { name := "Room" }), ("Guest", .ok { name := "Guest" })]

def suiteDefinition : Definition where
  name := "Suite"
  properties := [("room", { name := "room", ref := some "#/definitions/Room" }),
    ("nights", { name := "nights", type := some "integer", minimum := some (.int 1) }),
    ("guests", { name := "guests", type := some "array", itemsRef := some "#/definitions/Guest" }),
    ("view", { name := "view", enum := some [.str "garden", .str "sea"] })]

def suitePlan (definition : Definition) : Plan :=
  match Plan.ofDefinition suiteDocument (.int 120) definition with
  | .ok plan => plan
  | .error _ => { name := "", path := "" }

theorem plans_follow_properties_suite :
    (suitePlan suiteDefinition).references = ["Room", "Guest"] ∧
      ∃ after, Plan.ofDefinition suiteDocument (.int 120)
          { suiteDefinition with properties := suiteDefinition.properties.reverse } = .ok after ∧
        after.references.Perm ["Room", "Guest"] := by
  have hplan : Plan.ofDefinition suiteDocument (.int 120) suiteDefinition =
      .ok (suitePlan suiteDefinition) := rfl
  have hperm : suiteDefinition.properties.Perm suiteDefinition.properties.reverse :=
    (List.reverse_perm _).symm
  obtain ⟨hiff, hsame⟩ := plans_follow_properties hperm
  obtain ⟨after, hafter⟩ := hiff.mp ⟨_, hplan⟩
  obtain ⟨-, hreferences, -⟩ := hsame _ after hplan hafter
  exact ⟨by decide +kernel, after, hafter, hreferences⟩

end ModelMint.Blueprint
