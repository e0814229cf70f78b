import ModelMint.Proofs.Instance.FieldMap
import ModelMint.Proofs.Instance.Namespaces
import ModelMint.Proofs.Text.AttributeNames

/-!
# Making an instance of values

Values are given by the attribute of a field or by the name of its property.  No key
stands for two fields, and making an instance of values is making one of none and then
calling setters.  Only the name of the receiver can not be given.
-/

namespace ModelMint

open ModelMint.Emit
open ModelMint.Blueprint
open ModelMint.Schema

/-! ## Keys -/

/-- A key that stands for a field: its attribute, or the name of its property. -/
def Blueprint.Field.IsNamed (field : Field) (key : String) : Prop :=
  key = field.attr ∨ key = field.name

section Keys

variable {document : Document} {width : Json} {definition : Definition} {plan : Plan}
  {item : LoadedClass} {member first second : Blueprint.Member} {key : String}

/-- Whichever way a key stands for a field, the attribute of the field is made from it. -/
theorem Blueprint.Planned.attr_of_isNamed (h : Planned document width definition plan)
    (hmember : member ∈ plan.members) (hnamed : member.field.IsNamed key) :
    member.field.attr = String.ofList (Text.attributeName key.toList) := by
  have hattr := h.attr_eq hmember
  rcases hnamed with rfl | rfl
  · rw [hattr, String.toList_ofList, Text.attributeName_attributeName]
  · exact hattr

theorem Standard.eq_of_isNamed (hstandard : Standard plan item)
    (h : Planned document width definition plan) (hfirst : first ∈ plan.members)
    (hsecond : second ∈ plan.members) (hnamed : first.field.IsNamed key)
    (halso : second.field.IsNamed key) : first = second :=
  hstandard.eq_of_attr_eq hfirst hsecond
    ((h.attr_of_isNamed hfirst hnamed).trans (h.attr_of_isNamed hsecond halso).symm)

theorem Standard.attributeOf?_of_isNamed (hstandard : Standard plan item)
    (h : Planned document width definition plan) (hmember : member ∈ plan.members)
    (hnamed : member.field.IsNamed key) : item.attributeOf? key = some member.field.attr := by
  obtain ⟨attr, hattr⟩ := LoadedClass.exists_attributeOf? (hstandard.field_mem hmember) hnamed
  rw [hattr]
  -- what was found stands for the key as well
  obtain ⟨field, hfield, rfl, halso⟩ := LoadedClass.field_of_attributeOf? hattr
  obtain ⟨other, hother, rfl⟩ := hstandard.member_of_field hfield
  have hsame : other = member := hstandard.eq_of_isNamed h hother hmember halso hnamed
  rw [hsame]
  rfl

end Keys

/-! ## Setters for keys -/

/-- Makes an instance of no values and then calls setters in order, up to the first refusal. -/
def Instance.makeByCalls (library : Library) (className : String) (calls : List (String × Value)) :
    Action Nat := do
  let id ← Instance.make library className []
  let _ ← Action.forEach (fun call => Instance.assign library id call.1 call.2) calls
  pure id

/-- The calls of setters for values that stand for fields, in order. -/
def callsFor (named : List Blueprint.Member) (values : List (String × Value)) :
    List (String × Value) :=
  List.zipWith (fun member entry => (member.field.attr, entry.2)) named values

section Calls

variable {document : Document} {width : Json} {definition : Definition} {plan : Plan}
  {library : Library} {item : LoadedClass} {className : String} {id : Nat}
  {values : List (String × Value)} {named : List Blueprint.Member}

/-- Filling in a value is calling the setter of the field that its key stands for. -/
theorem fill_eq {entry : String × Value} {attr : String} (h : item.attributeOf? entry.1 = some attr) :
    Instance.fill library item id entry =
      (Instance.assign library id attr entry.2 >>= fun _ => Pure.pure () : Action Unit) := by
  unfold Instance.fill
  rw [h]

theorem fill_as_calls {α : Type} (result : α)
    (h : List.Forall₂ (fun entry member => item.attributeOf? entry.1 = some member.field.attr)
      values named) (store : Store) :
    (Action.forEach (Instance.fill library item id) values >>= fun _ => Pure.pure result :
      Action α) store =
    (Action.forEach (fun call => Instance.assign library id call.1 call.2)
      (callsFor named values) >>= fun _ => Pure.pure result : Action α) store := by
  induction h generalizing store with
  | nil => rfl
  | @cons entry member rest others hattr _ ih =>
      have hcalls : callsFor (member :: others) (entry :: rest) =
          (member.field.attr, entry.2) :: callsFor others rest := rfl
      rw [hcalls]
      simp only [Action.forEach, Action.bind_run, Action.bind_apply, Action.pure_run,
        Action.pure_apply, fill_eq hattr] at ih ⊢
      -- one assignment on both sides, and from its store the rests run alike
      cases hassign : Instance.assign library id member.field.attr entry.2 store with
      | mk after answer =>
          cases answer with
          | error refusal => rfl
          | ok reply =>
              have hnext := ih after
              simp only
              revert hnext
              generalize Action.forEach (Instance.fill library item id) rest after = filled
              generalize Action.forEach (fun call => Instance.assign library id call.1 call.2)
                (callsFor others rest) after = called
              obtain ⟨one, answer⟩ := filled
              obtain ⟨other, reply⟩ := called
              cases answer <;> cases reply <;> simp

theorem make_as_calls (hfind : library.find? className = some item)
    (hself : Entries.contains receiverName values = false)
    (h : List.Forall₂ (fun entry member => item.attributeOf? entry.1 = some member.field.attr)
      values named) :
    Instance.make library className values =
      Instance.makeByCalls library className (callsFor named values) := by
  funext store
  unfold Instance.makeByCalls
  rw [Action.bind_run, make_eq hfind hself, make_eq hfind rfl]
  simp only [Action.bind_run]
  generalize Action.forEach (Instance.startField library store.size) item.fields
    (store.add className) = started
  obtain ⟨middle, answer⟩ := started
  cases answer with
  | error refusal => rfl
  | ok units =>
      cases hbase : className == Instance.baseAccess with
      | true => rfl
      | false =>
          simp only [Bool.false_eq_true, if_false]
          exact fill_as_calls store.size h middle

theorem exists_named
    (h : ∀ entry ∈ values, ∃ member ∈ plan.members, member.field.IsNamed entry.1) :
    ∃ named : List Blueprint.Member, List.Forall₂ (fun entry member =>
      member ∈ plan.members ∧ member.field.IsNamed entry.1) values named := by
  induction values with
  | nil => exact ⟨[], .nil⟩
  | cons entry rest ih =>
      obtain ⟨⟨member, hmember, hnamed⟩, hrest⟩ := List.forall_mem_cons.mp h
      obtain ⟨named, hothers⟩ := ih hrest
      exact ⟨member :: named, .cons ⟨hmember, hnamed⟩ hothers⟩

end Calls

/-- Values that are given by attributes and names of fields, each of which stands for one field, make
the instance that calls of the setters of these fields make of one of no values, with the same
changes and the same first refusal.  With the name of the receiver among the keys no instance is
made. -/
theorem keyword_values_act_as_calls {document : Document} {width : Json} {definition : Definition}
    {plan : Plan} (hplan : Plan.ofDefinition document width definition = .ok plan)
    {lines : List String} {item : LoadedClass}
    (hload : LoadedClass.load (standardModule lines plan) = .ok item) {library : Library}
    (hfind : library.find? plan.name = some item) {values : List (String × Value)}
    (hnamed : ∀ entry ∈ values, ∃ member ∈ plan.members, member.field.IsNamed entry.1) :
    ∃ named : List Blueprint.Member,
      List.Forall₂ (fun entry member => member ∈ plan.members ∧ member.field.IsNamed entry.1 ∧
        ∀ other ∈ plan.members, other.field.IsNamed entry.1 → other = member) values named ∧
      (receiverName ∉ Entries.keys values → Instance.make library plan.name values =
        Instance.makeByCalls library plan.name (callsFor named values)) ∧
      (receiverName ∈ Entries.keys values → ∀ store,
        Instance.make library plan.name values store = (store, .error (.fault .unsuitable))) := by
  have hplanned := Plan.ofDefinition_eq_ok hplan
  have hstandard := hplanned.standard_class hload
  obtain ⟨named, hof⟩ := exists_named hnamed
  refine ⟨named, hof.imp fun entry member h => ⟨h.1, h.2, fun other hother halso =>
    hstandard.eq_of_isNamed hplanned hother h.1 halso h.2⟩, fun hself => ?_, fun hself => ?_⟩
  · refine make_as_calls hfind ?_ (hof.imp fun entry member h =>
      hstandard.attributeOf?_of_isNamed hplanned h.1 h.2)
    rwa [← Bool.not_eq_true, Entries.contains_iff_mem_keys]
  · exact fun store => make_of_receiver hfind (Entries.contains_iff_mem_keys.mpr hself)

/-- A stay in a room of the first class with a view of three directions. -/
def roomValues : List (String × Value) := [("class", .int 1), ("_3d_view", .int 3)]

theorem keyword_values_act_as_calls_room :
    Instance.make [("Stay", roomClass)] "Stay" roomValues =
      Instance.makeByCalls [("Stay", roomClass)] "Stay"
        [("class_", .int 1), ("_3d_view", .int 3)] := by
  have hplan : Plan.ofDefinition ⟨.null, []⟩ (.int 120) roomDefinition = .ok roomPlan := rfl
  have hload : LoadedClass.load (standardModule [] roomPlan) = .ok roomClass := rfl
  have hnamed : ∀ entry ∈ roomValues, ∃ member ∈ roomPlan.members,
      member.field.IsNamed entry.1 := by
    simp [roomValues, roomPlan, Blueprint.Field.IsNamed]
  have hfind : Library.find? [("Stay", roomClass)] roomPlan.name = some roomClass := rfl
  obtain ⟨named, hof, hcalls, -⟩ := keyword_values_act_as_calls hplan hload hfind hnamed
  cases hof with
  | cons hfirst hof =>
      cases hof with
      | cons hsecond hof =>
          cases hof
          obtain rfl := hfirst.2.2 _ List.mem_cons_self (.inr rfl)
          obtain rfl := hsecond.2.2 _
            (List.mem_cons_of_mem _ (List.mem_cons_of_mem _ List.mem_cons_self)) (.inl rfl)
          exact hcalls (by decide)

/-- A property that is called like the receiver. -/
def selfProperty : Property where
  name := "self"
  path := "#/definitions/Stay/properties/self"

def selfMember : Blueprint.Member where
  field := { name := "self", attr := "self_", initial := .absent }

/-- The stay after the call of the setter. -/
def selfStore : Store :=
  (Instance.makeByCalls [("Stay", choiceClass selfMember)] "Stay" [("self_", .int 1)] {}).1

/-- The name of a property is refused as a key where it is that of the receiver, and the setter of
its field is not. -/
theorem receiver_key_refused :
    Package.generate Package.uncheckedSettings .null (choiceSchema "self" []) =
        .ok (choiceRun "self" []) ∧
      (choiceRun "self" []).package.failures = [] ∧
      standardModule [] (choicePlan selfMember) ∈ (choiceRun "self" []).package.modules ∧
      Plan.ofDefinition ⟨choiceSchema "self" [], []⟩ (.int 120) (choiceDefinition selfProperty) =
        .ok (choicePlan selfMember) ∧
      LoadedClass.load (standardModule [] (choicePlan selfMember)) = .ok (choiceClass selfMember) ∧
      selfMember.field.IsNamed "self" ∧
      Instance.make [("Stay", choiceClass selfMember)] "Stay" [("self", .int 1)] {} =
        ({}, .error (.fault .unsuitable)) ∧
      Instance.makeByCalls [("Stay", choiceClass selfMember)] "Stay" [("self_", .int 1)] {} =
        (selfStore, .ok 0) ∧
      selfStore.attribute? 0 "self_" = some (.int 1) := by
  refine ⟨rfl, rfl, List.mem_cons_self, rfl, rfl, .inr rfl, rfl, ?_, ?_⟩ <;>
    with_unfolding_all rfl

end ModelMint
