import ModelMint.Proofs.Instance.Loading
import ModelMint.Proofs.Instance.Start

/-!
# An instance is a map from fields to values

Setters and getters are called in any order, with any values.  A refused value leaves
everything as it was, an accepted one is stored for its field alone, and a getter gives
what was accepted last, or else what the field began with.
-/

namespace ModelMint

open ModelMint.Emit
open ModelMint.Blueprint
open ModelMint.Schema

/-! ## Calls -/

/-- A call of an accessor. -/
inductive Access where
  | set (attr : String) (value : Value)
  | get (attr : String)

namespace Access

def attr : Access → String
  | .set attr _ => attr
  | .get attr => attr

def assignment? : Access → Option (String × Value)
  | .set attr value => some (attr, value)
  | .get _ => none

def perform (library : Library) (id : Nat) : Access → Action Value
  | .set attr value => Instance.assign library id attr value
  | .get attr => Instance.read library id attr

/-- The store after calls that may each be refused. -/
def performAll (library : Library) (id : Nat) (calls : List Access) (store : Store) : Store :=
  calls.foldl (fun store call => (call.perform library id store).1) store

end Access

/-! ## What is known without the state -/

/-- The same instances with no attribute set. -/
def Store.bare (store : Store) : Store where
  instances := store.instances.map fun item => { className := item.className }

/-- Whether a setter accepts a value, on instances that hold nothing. -/
def accepts (library : Library) (id : Nat) (store : Store) (attr : String) (value : Value) : Bool :=
  (Instance.assign library id attr value store.bare).2.isOk

/-- What a field stores of the assignments that are accepted, if there is one: the last. -/
def lastTaken (accepted : String → Value → Bool) (field : Field)
    (history : List (String × Value)) : Option Value :=
  ((history.filter fun entry => entry.1 == field.attr && accepted entry.1 entry.2).getLast?).map
    fun entry => field.stored entry.2

/-- The assignments that the given values of a new instance stand for. -/
def givenAssignments (item : LoadedClass) (values : List (String × Value)) :
    List (String × Value) :=
  values.filterMap fun entry => (item.attributeOf? entry.1).map fun attr => (attr, entry.2)

/-- How a field answers after a history of assignments. -/
structure ActsAsMap (library : Library) (id : Nat) (className : String)
    (accepted : String → Value → Bool) (field : Field) (history : List (String × Value))
    (now : Store) : Prop where
  /-- Whether a value is refused depends on the field and the value only. -/
  judged : ∀ value, (Instance.assign library id field.attr value now).2.isOk =
    accepted field.attr value
  refused : ∀ value, accepted field.attr value = false →
    (Instance.assign library id field.attr value now).1 = now
  taken : ∀ value, accepted field.attr value = true →
    Instance.assign library id field.attr value now =
        (now.put id field.attr (field.stored value), .ok (.instance id)) ∧
      (field.isMoment = true → ∃ moment, value.moment? = some moment ∧
        field.stored value = .moment moment)
  read : Instance.read library id field.attr now = (now,
    match (lastTaken accepted field history).or (field.startValue? className) with
    | some value => .ok value
    | none => .error (.fault (.unset className field.attr)))
  unset : (lastTaken accepted field history).or (field.startValue? className) = none ↔
    field.initialized = false ∧
      ∀ entry ∈ history, entry.1 = field.attr → accepted entry.1 entry.2 = false

/-- An instance that was made of given values answers as a map after any calls. -/
def InstanceActsAsMap (library : Library) (item : LoadedClass) (plan : Plan) (className : String)
    (values : List (String × Value)) (before store : Store) (id : Nat) : Prop :=
  ∀ calls : List Access,
    (∀ call ∈ calls, ∃ member ∈ plan.members, call.attr = member.field.attr) →
    ∀ member ∈ plan.members,
      ActsAsMap library id className (accepts library id (before.add className)) member.field
        (givenAssignments item values ++ calls.filterMap Access.assignment?)
        (Access.performAll library id calls store)

/-! ## Stores without attributes -/

theorem sameClasses_bare (store : Store) : SameClasses store store.bare := by
  intro id
  simp only [Store.classOf, Store.get?, Store.bare, List.getElem?_map]
  cases store.instances[id]? <;> rfl

theorem live_bare {library : Library} {item : LoadedClass} {store : Store} {id : Nat}
    (h : Live library item store id) : Live library item store.bare id := by
  refine ⟨?_, ?_, ?_⟩
  · simpa [Store.size, Store.bare] using h.inside
  · rw [← sameClasses_bare store id]
    exact h.loaded
  · intro attr hattr
    simp only [Store.attributes, Store.get?, Store.bare, List.getElem?_map] at hattr
    cases hget : store.instances[id]? <;> simp [hget, Entries.keys] at hattr

/-! ## One call -/

section Calls

variable {library : Library} {item : LoadedClass} {plan : Plan} {base now : Store} {id : Nat}
  {className : String}

/-- What is assumed of the class throughout. -/
structure Sound (library : Library) (item : LoadedClass) (plan : Plan) : Prop where
  standard : Standard plan item
  opened : item.Open
  sound : ∀ member ∈ plan.members, ∀ rule ∈ member.rules, rule.Sound
  planned : ∀ member ∈ plan.members, ∃ document required property,
    MemberPlanned document required property member

/-- Acceptance is a verdict on any store with instances of the same classes. -/
theorem accepts_iff (hclass : Sound library item plan) (hbase : Live library item base id)
    (hsame : SameClasses base now) {member : Blueprint.Member} (hmember : member ∈ plan.members)
    (value : Value) :
    accepts library id base member.field.attr value = true ↔
      ∃ taken, member.verdict ⟨library, now⟩ (now.classOf id) value = .ok taken := by
  have hbare : SameClasses base.bare now := fun other =>
    (sameClasses_bare base other).symm.trans (hsame other)
  have hassign := assign_eq hclass.standard hclass.opened (live_bare hbase) hmember value
  unfold accepts
  rw [hassign, hbare id]
  constructor
  · intro haccepted
    cases hverdict : member.verdict ⟨library, base.bare⟩ (now.classOf id) value with
    | error refusal =>
        rw [hverdict] at haccepted
        cases haccepted
    | ok taken => exact ⟨taken, verdict_congr hbare (hclass.sound member hmember) hverdict⟩
  · rintro ⟨taken, hverdict⟩
    have hback := verdict_congr (fun other => (hbare other).symm) (hclass.sound member hmember)
      hverdict
    rw [hback]
    rfl

theorem assign_of_accepts (hclass : Sound library item plan) (hbase : Live library item base id)
    (hsame : SameClasses base now) (hlive : Live library item now id)
    {member : Blueprint.Member} (hmember : member ∈ plan.members) (value : Value) :
    (accepts library id base member.field.attr value = true →
      Instance.assign library id member.field.attr value now =
          (now.put id member.field.attr (member.field.stored value), .ok (.instance id)) ∧
        (member.field.isMoment = true → value.moment?.isSome = true)) ∧
      (accepts library id base member.field.attr value = false → ∃ refusal,
        Instance.assign library id member.field.attr value now = (now, .error refusal)) := by
  have hiff := accepts_iff hclass hbase hsame hmember value
  rw [assign_eq hclass.standard hclass.opened hlive hmember value]
  obtain ⟨document, required, property, hplanned⟩ := hclass.planned member hmember
  cases hverdict : member.verdict ⟨library, now⟩ (now.classOf id) value with
  | error refusal =>
      refine ⟨fun haccepted => ?_, fun _ => ⟨refusal, rfl⟩⟩
      obtain ⟨taken, htaken⟩ := hiff.mp haccepted
      rw [hverdict] at htaken
      cases htaken
  | ok taken =>
      obtain ⟨rfl, hmoment⟩ := verdict_eq_stored hplanned hverdict
      refine ⟨fun _ => ⟨rfl, hmoment⟩, fun hrefused => ?_⟩
      rw [hiff.mpr ⟨_, hverdict⟩] at hrefused
      cases hrefused

/-! ## Histories -/

theorem lastTaken_append_of_ne {accepted : String → Value → Bool} {field : Field}
    {history : List (String × Value)} {entry : String × Value}
    (h : (entry.1 == field.attr && accepted entry.1 entry.2) = false) :
    lastTaken accepted field (history ++ [entry]) = lastTaken accepted field history := by
  simp [lastTaken, List.filter_append, h]

theorem lastTaken_append_of_accepted {accepted : String → Value → Bool} {field : Field}
    {history : List (String × Value)} {value : Value} (h : accepted field.attr value = true) :
    lastTaken accepted field (history ++ [(field.attr, value)]) = some (field.stored value) := by
  simp [lastTaken, List.filter_append, h]

theorem lastTaken_eq_none {accepted : String → Value → Bool} {field : Field}
    {history : List (String × Value)} :
    lastTaken accepted field history = none ↔
      ∀ entry ∈ history, entry.1 = field.attr → accepted entry.1 entry.2 = false := by
  simp only [lastTaken, Option.map_eq_none_iff, List.getLast?_eq_none_iff,
    List.filter_eq_nil_iff, Bool.and_eq_true, beq_iff_eq, not_and, Bool.not_eq_true]

/-- The store after a history of assignments: every field holds what it took last, or what it
began with. -/
structure Tracked (library : Library) (item : LoadedClass) (plan : Plan) (className : String)
    (base : Store) (id : Nat) (history : List (String × Value)) (now : Store) : Prop where
  live : Live library item now id
  classes : SameClasses base now
  held : ∀ member ∈ plan.members, now.attribute? id member.field.attr =
    (lastTaken (accepts library id base) member.field history).or
      (member.field.startValue? className)

/-- An assignment to a field keeps track. -/
theorem Tracked.assign (hclass : Sound library item plan) (hbase : Live library item base id)
    {history : List (String × Value)}
    (h : Tracked library item plan className base id history now)
    {member : Blueprint.Member} (hmember : member ∈ plan.members) (value : Value) :
    Tracked library item plan className base id (history ++ [(member.field.attr, value)])
      (Instance.assign library id member.field.attr value now).1 := by
  obtain ⟨htaken, hrefused⟩ := assign_of_accepts hclass hbase h.classes h.live hmember value
  cases haccepts : accepts library id base member.field.attr value with
  | false =>
      obtain ⟨refusal, hassign⟩ := hrefused haccepts
      rw [hassign]
      refine ⟨h.live, h.classes, fun other hother => ?_⟩
      rw [lastTaken_append_of_ne (by simp [haccepts])]
      exact h.held other hother
  | true =>
      rw [(htaken haccepts).1]
      refine ⟨h.live.put (hclass.standard.field_mem hmember) _, fun other => ?_,
        fun other hother => ?_⟩
      · rw [Store.classOf_put]
        exact h.classes other
      · by_cases hattr : other.field.attr = member.field.attr
        · obtain rfl := hclass.standard.eq_of_attr_eq hother hmember hattr
          rw [lastTaken_append_of_accepted haccepts, Option.some_or,
            Store.attribute?_put_self _ _ _ _ h.live.inside]
        · rw [lastTaken_append_of_ne (by simp [Ne.symm hattr]),
            Store.attribute?_put_of_ne _ _ _ _ hattr]
          exact h.held other hother

theorem Tracked.perform (hclass : Sound library item plan) (hbase : Live library item base id)
    {history : List (String × Value)}
    (h : Tracked library item plan className base id history now) {call : Access}
    (hcall : ∃ member ∈ plan.members, call.attr = member.field.attr) :
    Tracked library item plan className base id (history ++ call.assignment?.toList)
      (call.perform library id now).1 := by
  obtain ⟨member, hmember, hattr⟩ := hcall
  cases call with
  | set attr value =>
      obtain rfl : attr = member.field.attr := hattr
      exact h.assign hclass hbase hmember value
  | get attr =>
      obtain rfl : attr = member.field.attr := hattr
      have hread := read_eq hclass.standard hclass.opened h.live hmember
      simp only [Access.perform, Access.assignment?, Option.toList_none, List.append_nil, hread]
      exact h

theorem Tracked.performAll (hclass : Sound library item plan) (hbase : Live library item base id)
    {history : List (String × Value)}
    (h : Tracked library item plan className base id history now) {calls : List Access}
    (hcalls : ∀ call ∈ calls, ∃ member ∈ plan.members, call.attr = member.field.attr) :
    Tracked library item plan className base id (history ++ calls.filterMap Access.assignment?)
      (Access.performAll library id calls now) := by
  induction calls generalizing history now with
  | nil => simpa [Access.performAll] using h
  | cons call rest ih =>
      obtain ⟨hcall, hrest⟩ := List.forall_mem_cons.mp hcalls
      have hafter := ih (h.perform hclass hbase hcall) hrest
      have hhistory : history ++ (call :: rest).filterMap Access.assignment? =
          history ++ call.assignment?.toList ++ rest.filterMap Access.assignment? := by
        cases call <;> simp [Access.assignment?, List.filterMap_cons]
      rw [hhistory]
      exact hafter

/-! ## New instances -/

theorem attributeOf?_eq_some (hstandard : Standard plan item) {key attr : String}
    (h : item.attributeOf? key = some attr) :
    ∃ member ∈ plan.members, attr = member.field.attr := by
  obtain ⟨field, hfield, rfl, -⟩ := LoadedClass.field_of_attributeOf? h
  obtain ⟨member, hmember, rfl⟩ := hstandard.member_of_field hfield
  exact ⟨member, hmember, rfl⟩

/-- The given values of a new instance are assignments like any other. -/
theorem fill_induction {P : List (String × Value) → Store → Prop} (hstandard : Standard plan item)
    (hassign : ∀ history now, P history now → ∀ member ∈ plan.members, ∀ value,
      P (history ++ [(member.field.attr, value)])
        (Instance.assign library id member.field.attr value now).1)
    (history : List (String × Value)) (h : P history now) {values : List (String × Value)}
    {after : Store} {units : List Unit}
    (hfill : Action.forEach (Instance.fill library item id) values now = (after, .ok units)) :
    P (history ++ givenAssignments item values) after := by
  -- the history grows by each value that is filled in, and the invariant goes with it
  induction values generalizing history now units with
  | nil =>
      cases hfill
      simpa [givenAssignments] using h
  | cons entry rest ih =>
      rw [Action.forEach, Action.bind_apply] at hfill
      unfold Instance.fill at hfill
      cases hattr : item.attributeOf? entry.1 with
      | none =>
          rw [hattr] at hfill
          cases hfill
      | some attr =>
          rw [hattr] at hfill
          obtain ⟨member, hmember, rfl⟩ := attributeOf?_eq_some hstandard hattr
          have hnext := hassign history now h member hmember entry.2
          have hhistory : history ++ givenAssignments item (entry :: rest) =
              history ++ [(member.field.attr, entry.2)] ++ givenAssignments item rest := by
            simp [givenAssignments, hattr]
          rw [hhistory]
          simp only [Action.bind_run] at hfill
          generalize Instance.assign library id member.field.attr entry.2 now = result
            at hfill hnext
          obtain ⟨middle, answer⟩ := result
          cases answer with
          | error refusal => cases hfill
          | ok answer =>
              simp only [Action.pure_run, Action.bind_apply] at hfill
              split at hfill
              next filled others hothers =>
                cases hfill
                exact ih _ hnext hothers
              · cases hfill

theorem get?_beginning {members : List Blueprint.Member}
    (hdistinct : (members.map fun member => member.field.attr).Nodup)
    {member : Blueprint.Member} (hmember : member ∈ members) :
    Entries.get? member.field.attr (beginning className members) =
      member.field.startValue? className := by
  induction members with
  | nil => cases hmember
  | cons first rest ih =>
      rw [List.map_cons, List.nodup_cons] at hdistinct
      have hothers : ∀ attr, attr ∉ rest.map (fun member => member.field.attr) →
          Entries.get? attr (beginning className rest) = none := by
        intro attr hattr
        rw [Entries.get?_eq_none_iff]
        intro hmem
        obtain ⟨pair, hpair, rfl⟩ := List.mem_map.mp hmem
        obtain ⟨other, hother, hsome⟩ := List.mem_filterMap.mp hpair
        obtain ⟨value, -, rfl⟩ := Option.map_eq_some_iff.mp hsome
        exact hattr (List.mem_map.mpr ⟨other, hother, rfl⟩)
      -- attributes are distinct, so no other field has an entry under this one
      rcases List.mem_cons.mp hmember with rfl | hrest
      · cases hvalue : member.field.startValue? className with
        | none =>
            have hbeginning : beginning className (member :: rest) = beginning className rest := by
              simp [beginning, hvalue]
            rw [hbeginning]
            exact hothers _ hdistinct.1
        | some value => simp [beginning, hvalue, Entries.get?]
      · have hne : first.field.attr ≠ member.field.attr := by
          intro hsame
          exact hdistinct.1 (hsame ▸ List.mem_map.mpr ⟨member, hrest, rfl⟩)
        rw [← ih hdistinct.2 hrest]
        cases hvalue : first.field.startValue? className <;>
          simp [beginning, hvalue, Entries.get?, hne]

theorem tracked_make (hclass : Sound library item plan)
    (hfind : library.find? className = some item) {values : List (String × Value)}
    {before store : Store}
    (hmake : Instance.make library className values before = (store, .ok id)) :
    Live library item (before.add className) id ∧
      (∀ member ∈ plan.members, Startable item className member.field) ∧
      Tracked library item plan className (before.add className) id
        (givenAssignments item values) store := by
  obtain ⟨rfl, -, hstart, units, hfill⟩ := make_eq_ok hfind hclass.standard hmake
  have hbase := live_add before hfind
  have hlive := live_foldl_begin className hclass.standard (fun _ h => h) hbase
  obtain ⟨-, hclasses⟩ := foldl_begin_same className before.size (before.add className)
    plan.members
  refine ⟨hbase, hstart, ?_⟩
  refine fill_induction hclass.standard (fun history now h member hmember value =>
    h.assign hclass hbase hmember value) [] ⟨hlive, fun other => (hclasses other).symm, ?_⟩ hfill
  intro member hmember
  rw [Store.attribute?, attributes_begun className hclass.standard,
    get?_beginning hclass.standard.distinct_attrs hmember]
  simp [lastTaken]

end Calls

/-! ## Generated classes -/

variable {settings : Settings} {comment schema : Json} {document : Document}
  {definition : Definition} {plan : Plan} {module : ClassModule} {item : LoadedClass}

/-- The allowed values of a class that was loaded are constants of it, and so have literals. -/
theorem itemsFinite_of_origin
    (horigin : Package.Origin settings comment schema document definition plan module)
    (hbase : settings.base = {}) (hload : LoadedClass.load module = .ok item)
    {required : List String} {property : Property} {member : Blueprint.Member}
    (hmember : member ∈ plan.members) (hplanned : MemberPlanned document required property member)
    (values : List Json) (henum : property.enum = some values) :
    Json.itemsFinite values = true := by
  rw [itemsFinite_iff]
  intro value hvalue
  obtain ⟨lines, rfl⟩ := horigin.standard hbase
  apply isFinite_of_load hload (Constant.ofValue property.name value)
  refine List.mem_flatMap.mpr ⟨member, hmember, ?_⟩
  rw [hplanned.constants, henum]
  exact List.mem_map.mpr ⟨value, hvalue, rfl⟩

/-- A generated class none of whose constants is named like a member of the base. -/
theorem sound_of_origin
    (horigin : Package.Origin settings comment schema document definition plan module)
    (hbase : settings.base = {}) (hload : LoadedClass.load module = .ok item)
    (hconstants : ∀ constant ∈ module.constants, baseMember? constant.name = none)
    (library : Library) : Sound library item plan := by
  have hstandard := horigin.standard_class hbase hload
  have hplanned := horigin.planned_members
  refine ⟨hstandard, ?_, ?_, ?_⟩
  · intro key hkey
    obtain ⟨constant, hconstant, rfl, -⟩ := LoadedClass.exists_constant hload hkey
    exact baseMember?_privateName (hconstants constant hconstant)
  · intro member hmember
    obtain ⟨entry, hentry, hmade⟩ := hplanned.exists_property hmember
    exact rules_sound hmade (horigin.property_read hentry)
      (itemsFinite_of_origin horigin hbase hload hmember hmade)
  · intro member hmember
    obtain ⟨entry, -, hmade⟩ := hplanned.exists_property hmember
    exact ⟨document, definition.required, entry.2, hmade⟩

/-- An instance of a generated class is a map from its fields to values: whatever calls came
before, a setter refuses a value without a trace or stores it for its field alone, which of the
two depends on the field and the value only, and a getter gives what its field took last, or
what it began with. -/
theorem generated_instance_acts_as_map {run : Package.Run}
    (hrun : Package.generate settings comment schema = .ok run) (hbase : settings.base = {})
    (hmodule : module ∈ run.package.modules)
    (hconstants : ∀ constant ∈ module.constants, baseMember? constant.name = none)
    {library : Library} (hload : LoadedClass.load module = .ok item)
    (hfind : library.find? module.name = some item) {values : List (String × Value)}
    {before store : Store} {id : Nat}
    (hmake : Instance.make library module.name values before = (store, .ok id)) :
    ∃ document definition plan,
      Package.Origin settings comment schema document definition plan module ∧
      InstanceActsAsMap library item plan module.name values before store id := by
  obtain ⟨document, definition, plan, horigin⟩ := Package.exists_origin hrun hmodule
  refine ⟨document, definition, plan, horigin, fun calls hcalls member hmember => ?_⟩
  have hclass := sound_of_origin horigin hbase hload hconstants library
  obtain ⟨hbaseLive, hstart, htracked⟩ := tracked_make hclass hfind hmake
  have hnow := htracked.performAll hclass hbaseLive hcalls
  generalize Access.performAll library id calls store = now at hnow
  generalize givenAssignments item values ++ calls.filterMap Access.assignment? = history at hnow
  have hname : now.classOf id = module.name := by
    rw [← hnow.classes id, (make_eq_ok hfind hclass.standard hmake).1, Store.classOf_add_self]
  have hassign := fun value =>
    assign_of_accepts hclass hbaseLive hnow.classes hnow.live hmember value
  refine ⟨fun value => ?_, fun value hrefused => ?_, fun value haccepted => ?_, ?_, ?_⟩
  · cases haccepts : accepts library id (before.add module.name) member.field.attr value with
    | true =>
        rw [((hassign value).1 haccepts).1]
        rfl
    | false =>
        obtain ⟨refusal, hanswer⟩ := (hassign value).2 haccepts
        rw [hanswer]
        rfl
  · obtain ⟨refusal, hanswer⟩ := (hassign value).2 hrefused
    rw [hanswer]
  · obtain ⟨hanswer, hmoment⟩ := (hassign value).1 haccepted
    refine ⟨hanswer, fun hfield => ?_⟩
    obtain ⟨moment, hfound⟩ := Option.isSome_iff_exists.mp (hmoment hfield)
    exact ⟨moment, hfound, by simp [Blueprint.Field.stored, hfield, hfound]⟩
  · have hread := read_eq hclass.standard hclass.opened hnow.live hmember
    rw [hnow.held member hmember, hname] at hread
    exact hread
  · rw [Option.or_eq_none_iff, lastTaken_eq_none, and_comm]
    refine and_congr_left fun _ => ?_
    constructor
    · intro hnone
      cases hinitialized : member.field.initialized with
      | false => rfl
      | true =>
          have hsome := (hstart member hmember hinitialized).1
          rw [hnone] at hsome
          cases hsome
    · intro hinitialized
      simp [Blueprint.Field.startValue?, hinitialized]

/-! ## A stay of some nights -/

/-- One required number with a bound, and a moment. -/
def staySchema : Json := .obj [("definitions", .obj [("Stay", .obj [
  ("properties", .obj [
    ("nights", .obj [("type", .str "integer"), ("minimum", .int 1)]),
    ("since", .obj [("format", .str "date-time")])]),
  ("required", .arr [.str "nights"])])])]

def stayRun : Package.Run := Package.runOf Package.uncheckedSettings .null staySchema

def stayModule : ClassModule := stayRun.package.modules.get ⟨0, by decide +kernel⟩

def stayClass : LoadedClass :=
  match LoadedClass.load stayModule with
  | .ok item => item
  | .error _ => { name := "Stay" }

theorem generated_instance_acts_as_map_stay :
    ∃ store id, Instance.make [("Stay", stayClass)] "Stay" [("nights", .int 3)] {} = (store, .ok id) ∧
      ∃ document definition plan,
        Package.Origin Package.uncheckedSettings .null staySchema document definition plan stayModule ∧
        InstanceActsAsMap [("Stay", stayClass)] stayClass plan "Stay" [("nights", .int 3)] {} store
          id := by
  have hrun : Package.generate Package.uncheckedSettings .null staySchema = .ok stayRun := rfl
  have hmodule : stayModule ∈ stayRun.package.modules := List.get_mem _ _
  have hconstants : stayModule.constants = [] := rfl
  have hload : LoadedClass.load stayModule = .ok stayClass := rfl
  have hmade : (Instance.make [("Stay", stayClass)] "Stay" [("nights", .int 3)] {}).2.isOk = true := by
    decide +kernel
  generalize hmake : Instance.make [("Stay", stayClass)] "Stay" [("nights", .int 3)] {} = made at hmade
  obtain ⟨store, answer⟩ := made
  cases answer with
  | error refusal => cases hmade
  | ok id =>
      exact ⟨store, id, rfl, generated_instance_acts_as_map hrun rfl hmodule
        (by simp [hconstants]) hload rfl hmake⟩

end ModelMint
