import ModelMint.Proofs.Blueprint.Planning

/-!
# Plans that look alike

Members of a class are planned one by one, and of those before it a member only needs to
know what they are called.  So whatever is seen of each member, as long as its names are,
is seen of all of them together.
-/

namespace ModelMint.Blueprint

open ModelMint.Schema

variable {document next : Document} {width room : Json} {definition other : Definition}
  {view : Member → Member}

/-- What is seen of a member, its names at least. -/
structure ShowsNames (view : Member → Member) : Prop where
  name : ∀ member, (view member).field.name = member.field.name
  attr : ∀ member, (view member).field.attr = member.field.attr

theorem ShowsNames.checkConflicts (h : ShowsNames view) (earlier : List Member) (member : Member) :
    checkConflicts (earlier.map view) (view member) = checkConflicts earlier member := by
  have hconflict : ∀ other, conflict? (view other).field (view member).field =
      conflict? other.field member.field := by
    intro other
    simp only [conflict?, h.name, h.attr]
  unfold Blueprint.checkConflicts
  rw [List.findSome?_map]
  simp only [Function.comp_def, hconflict]

/-- Two properties whose members look alike. -/
structure MembersAlike (view : Member → Member) (document next : Document) (width room : Json)
    (definition other : Definition) (entry second : String × Property) : Prop where
  name : entry.1 = second.1
  path : entry.2.path = second.2.path
  member : (Member.ofProperty document width definition.required entry.2).map view =
    (Member.ofProperty next room other.required second.2).map view

theorem MembersAlike.planMember (hview : ShowsNames view) (hname : definition.name = other.name)
    {entry second : String × Property}
    (h : MembersAlike view document next width room definition other entry second)
    {earlier others : List Member} (hearlier : earlier.map view = others.map view) :
    (planMember document width definition earlier entry.1 entry.2).map view =
      (planMember next room other others second.1 second.2).map view := by
  unfold Blueprint.planMember
  rw [map_mapError, map_mapError, hname, h.name, h.path, map_bind, map_bind]
  congr 1
  refine bind_congr_of_map h.member fun member same hsame => ?_
  rw [← hview.checkConflicts earlier, ← hview.checkConflicts others, hearlier, hsame, map_bind,
    map_bind]
  simp only [Except.map, hsame]

theorem planMembers_alike (hview : ShowsNames view) (hname : definition.name = other.name)
    {entries seconds : List (String × Property)}
    (h : List.Forall₂ (MembersAlike view document next width room definition other) entries seconds)
    {earlier others : List Member} (hearlier : earlier.map view = others.map view) :
    (planMembers document width definition earlier entries).map (List.map view) =
      (planMembers next room other others seconds).map (List.map view) := by
  induction h generalizing earlier others with
  | nil => simp [planMembers, Except.map, hearlier]
  | cons hfirst _ ih =>
      rw [planMembers, planMembers, map_bind, map_bind]
      refine bind_congr_of_map (hfirst.planMember hview hname hearlier) fun member same hsame => ?_
      exact ih (by rw [List.map_append, List.map_append, hearlier, List.map_singleton,
        List.map_singleton, hsame])

/-- The plan as far as it is seen. -/
def Plan.seen (view : Member → Member) (lines : List String → List String) (plan : Plan) : Plan :=
  { plan with description := lines plan.description, members := plan.members.map view }

section Seen

variable {lines : List String → List String} (plan : Plan)

theorem Plan.fields_seen {shown : Field → Field}
    (h : ∀ member, (view member).field = shown member.field) :
    (plan.seen view lines).fields = plan.fields.map shown := by
  simp [Plan.fields, Plan.seen, h]

theorem Plan.setters_seen (h : ∀ member, (view member).rules = member.rules) :
    (plan.seen view lines).setters = plan.setters.map view := by
  simp [Plan.setters, Plan.seen, List.filter_map, Function.comp_def, h]

theorem Plan.references_seen (h : ∀ member, (view member).target = member.target) :
    (plan.seen view lines).references = plan.references := by
  simp [Plan.references, Plan.seen, List.filterMap_map, h]

theorem Plan.constants_seen (h : ∀ member, (view member).constants = member.constants) :
    (plan.seen view lines).constants = plan.constants := by
  simp [Plan.constants, Plan.seen, List.flatMap_map, h]

end Seen

/-- Definitions of one name whose members and descriptions look alike have plans that do. -/
theorem plan_alike (hview : ShowsNames view) {lines : List String → List String}
    (hname : definition.name = other.name) (hpath : definition.path = other.path)
    (hdescription : (describe width definition.description).map lines =
      (describe room other.description).map lines)
    (h : List.Forall₂ (MembersAlike view document next width room definition other)
      definition.properties other.properties) :
    (Plan.ofDefinition document width definition).map (Plan.seen view lines) =
      (Plan.ofDefinition next room other).map (Plan.seen view lines) := by
  have hstop : (Stop.ofFault (describe width definition.description)).map lines =
      (Stop.ofFault (describe room other.description)).map lines := by
    revert hdescription
    cases describe width definition.description <;> cases describe room other.description <;>
      simp [Stop.ofFault, Except.map]
  unfold Plan.ofDefinition
  rw [hname, hpath]
  cases Text.isPlainName other.name.toList with
  | false => rfl
  | true =>
      simp only [Bool.not_true, Bool.false_eq_true, if_false]
      rw [map_bind, map_bind]
      refine bind_congr_of_map hstop fun description same hsame => ?_
      rw [map_bind, map_bind]
      refine bind_congr_of_map (planMembers_alike hview hname h rfl) fun members others hmembers => ?_
      simp only [Except.map, Plan.seen, hsame, hmembers]

end ModelMint.Blueprint
