import ModelMint.Proofs.Instance.Chain

/-!
# How instances begin

A new instance starts its fields in order: each field with an initial value sets its
attribute, the others leave theirs out.  The start is stuck at the first field whose
initial value can not be worked out.
-/

namespace ModelMint

open ModelMint.Emit
open ModelMint.Blueprint

/-! ## Initial values -/

namespace Blueprint.Field

/-- Whether the initial value is the moment of a text. -/
def parses (field : Field) : Bool := field.isMoment && field.default != .null

/-- What the attribute of a new instance holds, if anything. -/
def startValue? (className : String) (field : Field) : Option Value :=
  if field.initialized then
    match literalValue (classNames className) field.default with
    | .ok value => if field.parses then value.moment?.map Value.moment else some value
    | .error _ => none
  else none

end Blueprint.Field

/-- Whether a field starts: its initial value can be worked out, by the operation of the base if it
has to be parsed. -/
def Startable (item : LoadedClass) (className : String) (field : Field) : Prop :=
  field.initialized = true → (field.startValue? className).isSome = true ∧
    (field.parses = true → Entries.get? "_parse_date" item.constants = none)

/-- The store in which a member has started. -/
def begin (className : String) (id : Nat) (store : Store) (member : Blueprint.Member) : Store :=
  match member.field.startValue? className with
  | some value => store.put id member.field.attr value
  | none => store

section Start

variable {library : Library} {item : LoadedClass} {plan : Plan} {store : Store} {id : Nat}

theorem startField_uninitialized {field : Field} (h : field.initialized = false) :
    Instance.startField library id (fieldCode {} field) store = (store, .ok ()) := by
  simp [Instance.startField, fieldCode, startOf, h, Pure.pure, Action.pure]

theorem startField_literal {field : Field} (h : field.initialized = true)
    (hparses : field.parses = false) :
    Instance.startField library id (fieldCode {} field) store =
      match literalValue (classNames (store.classOf id)) field.default with
      | .ok value => (store.put id field.attr value, .ok ())
      | .error found => (store, .error (.fault found)) := by
  have hstart : startOf {} field = some (.literal field.default) := by
    unfold Blueprint.Field.parses at hparses
    rw [startOf_standard, h, hparses]
    rfl
  simp only [Instance.startField, fieldCode, hstart, Action.bind_run, Action.look,
    Action.ofFault_run]
  cases literalValue (classNames (store.classOf id)) field.default <;> rfl

theorem startField_parsed (hregular : item.Regular) (hlive : Live library item store id)
    {field : Field} (h : field.initialized = true) (hparses : field.parses = true) :
    Instance.startField library id (fieldCode {} field) store =
      match literalValue (classNames (store.classOf id)) field.default,
        Entries.get? "_parse_date" item.constants with
      | .error found, _ => (store, .error (.fault found))
      | .ok _, some _ => (store, .error (.fault .unsuitable))
      | .ok value, none =>
        match (Scene.mk library store).parseMoment value with
        | .ok parsed => (store.put id field.attr parsed, .ok ())
        | .error refusal => (store, .error refusal) := by
  have hstart : startOf {} field = some (.parsed "_parse_date" field.default) := by
    unfold Blueprint.Field.parses at hparses
    rw [startOf_standard, h, hparses]
    rfl
  have hfind : findMember library id "_parse_date" store =
      .ok (match Entries.get? "_parse_date" item.constants with
        | some value => .value value
        | none => .operation .parseMoment) :=
    Operation.HasName.moment.findMember hregular hlive
  have hprivate : privateName (store.classOf id) "_parse_date" = "_parse_date" :=
    Operation.HasName.moment.privateName_eq _
  obtain ⟨fuel, hfuel⟩ := exists_callDepth library store
  simp only [Instance.startField, fieldCode, hstart, Action.bind_run, Action.look,
    Action.ofFault_run, ModelMint.member, hprivate, hfind]
  cases literalValue (classNames (store.classOf id)) field.default with
  | error found => rfl
  | ok value =>
      simp only [Scene.ofFault, hfuel]
      cases Entries.get? "_parse_date" item.constants with
      | some constant => simp only [call_value]
      | none =>
          simp only [call_parseMoment]
          cases (Scene.mk library store).parseMoment value <;> rfl

theorem startField_of_startable (hregular : item.Regular) (hlive : Live library item store id)
    {member : Blueprint.Member} (h : Startable item (store.classOf id) member.field) :
    Instance.startField library id (fieldCode {} member.field) store =
      (begin (store.classOf id) id store member, .ok ()) := by
  unfold begin
  cases hinitialized : member.field.initialized with
  | false =>
      rw [startField_uninitialized hinitialized]
      simp [Blueprint.Field.startValue?, hinitialized]
  | true =>
      obtain ⟨hsome, hopen⟩ := h hinitialized
      obtain ⟨value, hvalue⟩ := Option.isSome_iff_exists.mp hsome
      rw [hvalue]
      simp only [Blueprint.Field.startValue?, hinitialized, if_true] at hvalue
      cases hparses : member.field.parses with
      | false =>
          rw [startField_literal hinitialized hparses]
          split at hvalue
          next found hfound =>
            simp only [hparses, Bool.false_eq_true, if_false, Option.some.injEq] at hvalue
            rw [hvalue]
          · cases hvalue
      | true =>
          rw [startField_parsed hregular hlive hinitialized hparses, hopen hparses]
          split at hvalue
          next found hfound =>
            simp only [hparses, if_true] at hvalue
            simp [hfound, parseMoment_eq_ok.mpr hvalue]
          · cases hvalue

theorem startField_of_not_startable (hregular : item.Regular) (hlive : Live library item store id)
    {field : Field} (h : ¬ Startable item (store.classOf id) field) :
    ∃ refusal, Instance.startField library id (fieldCode {} field) store =
      (store, .error refusal) := by
  have hinitialized : field.initialized = true := by
    by_contra hnot
    exact h fun hyes => absurd hyes hnot
  cases hparses : field.parses with
  | false =>
      rw [startField_literal hinitialized hparses]
      cases hliteral : literalValue (classNames (store.classOf id)) field.default with
      | error found => exact ⟨_, rfl⟩
      | ok value =>
          exfalso
          refine h fun _ => ⟨?_, by simp [hparses]⟩
          simp [Blueprint.Field.startValue?, hinitialized, hliteral, hparses]
  | true =>
      rw [startField_parsed hregular hlive hinitialized hparses]
      cases hliteral : literalValue (classNames (store.classOf id)) field.default with
      | error found => exact ⟨_, rfl⟩
      | ok value =>
          cases hconstant : Entries.get? "_parse_date" item.constants with
          | some constant => exact ⟨_, rfl⟩
          | none =>
              cases hparsed : (Scene.mk library store).parseMoment value with
              | error refusal => exact ⟨refusal, by simp [hparsed]⟩
              | ok parsed =>
                  exfalso
                  refine h fun _ => ⟨?_, fun _ => hconstant⟩
                  simp [Blueprint.Field.startValue?, hinitialized, hliteral, hparses,
                    parseMoment_eq_ok.mp hparsed]

/-! ## All fields -/

theorem begin_same (className : String) (id : Nat) (store : Store) (member : Blueprint.Member) :
    (begin className id store member).size = store.size ∧
      ∀ other, (begin className id store member).classOf other = store.classOf other := by
  unfold begin
  split <;> simp

theorem Live.begin (hstandard : Standard plan item) (hlive : Live library item store id)
    (className : String) {member : Blueprint.Member} (hmember : member ∈ plan.members) :
    Live library item (ModelMint.begin className id store member) id := by
  unfold ModelMint.begin
  split
  · exact hlive.put (hstandard.field_mem hmember) _
  · exact hlive

theorem forEach_start (hstandard : Standard plan item) {members : List Blueprint.Member}
    (hmembers : ∀ member ∈ members, member ∈ plan.members) (hlive : Live library item store id)
    (h : ∀ member ∈ members, Startable item (store.classOf id) member.field) :
    ∃ units, Action.forEach (Instance.startField library id)
        (members.map fun member => fieldCode {} member.field) store =
      (members.foldl (begin (store.classOf id) id) store, .ok units) := by
  induction members generalizing store with
  | nil => exact ⟨[], rfl⟩
  | cons member rest ih =>
      obtain ⟨hmember, hrest⟩ := List.forall_mem_cons.mp hmembers
      obtain ⟨hstart, hothers⟩ := List.forall_mem_cons.mp h
      have hclass := (begin_same (store.classOf id) id store member).2 id
      obtain ⟨units, hunits⟩ := ih hrest (hlive.begin hstandard (store.classOf id) hmember)
        (by rw [hclass]; exact hothers)
      rw [hclass] at hunits
      refine ⟨() :: units, ?_⟩
      simp only [List.map_cons, Action.forEach, Action.bind_apply,
        startField_of_startable hstandard.regular hlive hstart, hunits, Action.pure_apply,
        List.foldl_cons]

theorem forEach_start_stuck (hstandard : Standard plan item) {members : List Blueprint.Member}
    (hmembers : ∀ member ∈ members, member ∈ plan.members) (hlive : Live library item store id)
    (h : ¬ ∀ member ∈ members, Startable item (store.classOf id) member.field) :
    ∃ after refusal, Action.forEach (Instance.startField library id)
        (members.map fun member => fieldCode {} member.field) store = (after, .error refusal) := by
  induction members generalizing store with
  | nil => exact absurd (by simp) h
  | cons member rest ih =>
      obtain ⟨hmember, hrest⟩ := List.forall_mem_cons.mp hmembers
      by_cases hstart : Startable item (store.classOf id) member.field
      · have hclass := (begin_same (store.classOf id) id store member).2 id
        obtain ⟨after, refusal, hstuck⟩ := ih hrest
          (hlive.begin hstandard (store.classOf id) hmember)
          (by rw [hclass]; exact fun hall => h (List.forall_mem_cons.mpr ⟨hstart, hall⟩))
        refine ⟨after, refusal, ?_⟩
        simp only [List.map_cons, Action.forEach, Action.bind_apply,
          startField_of_startable hstandard.regular hlive hstart, hstuck]
      · obtain ⟨refusal, hstuck⟩ := startField_of_not_startable hstandard.regular hlive hstart
        refine ⟨store, refusal, ?_⟩
        simp only [List.map_cons, Action.forEach, Action.bind_apply, hstuck]

/-- The attributes that members begin with, in order. -/
def beginning (className : String) (members : List Blueprint.Member) : List (String × Value) :=
  members.filterMap fun member =>
    (member.field.startValue? className).map fun value => (member.field.attr, value)

theorem attributes_foldl_begin (className : String) {members : List Blueprint.Member}
    (hdistinct : (members.map fun member => member.field.attr).Nodup)
    (hfresh : ∀ member ∈ members, member.field.attr ∉ Entries.keys (store.attributes id))
    (hinside : id < store.size) :
    (members.foldl (begin className id) store).attributes id =
      store.attributes id ++ beginning className members := by
  -- the attributes so far stay in front, and those of the rest are new to them
  induction members generalizing store with
  | nil => simp [beginning]
  | cons member rest ih =>
      obtain ⟨hmember, hrest⟩ := List.forall_mem_cons.mp hfresh
      rw [List.map_cons, List.nodup_cons] at hdistinct
      have hsize := (begin_same className id store member).1
      rw [List.foldl_cons]
      cases hvalue : member.field.startValue? className with
      | none =>
          have hbegin : begin className id store member = store := by simp [begin, hvalue]
          rw [hbegin, ih hdistinct.2 hrest hinside]
          simp [beginning, hvalue]
      | some value =>
          have hbegin : (begin className id store member).attributes id =
              store.attributes id ++ [(member.field.attr, value)] := by
            have hcontains : Entries.contains member.field.attr (store.attributes id) = false := by
              rw [← Bool.not_eq_true, Entries.contains_iff_mem_keys]
              exact hmember
            simp only [begin, hvalue]
            rw [Store.attributes_put_self _ _ _ _ hinside,
              Entries.insert_of_not_contains value hcontains]
          rw [ih hdistinct.2 ?_ (by omega), hbegin]
          · simp [beginning, hvalue]
          · intro other hother hmem
            rw [hbegin] at hmem
            simp only [Entries.keys, List.map_append, List.mem_append, List.map_cons, List.map_nil,
              List.mem_singleton] at hmem
            rcases hmem with hmem | hattr
            · exact hrest other hother hmem
            · exact hdistinct.1 (List.mem_map.mpr ⟨other, hother, hattr⟩)

/-! ## New instances -/

variable {className : String}

theorem live_add (store : Store) (hfind : library.find? className = some item) :
    Live library item (store.add className) store.size := by
  refine ⟨by simp, by simpa using hfind, ?_⟩
  intro attr hattr
  simp [Entries.keys] at hattr

theorem live_foldl_begin (className : String) (hstandard : Standard plan item)
    {members : List Blueprint.Member}
    (hmembers : ∀ member ∈ members, member ∈ plan.members)
    (hlive : Live library item store id) :
    Live library item (members.foldl (begin className id) store) id := by
  induction members generalizing store with
  | nil => exact hlive
  | cons member rest ih =>
      obtain ⟨hmember, hrest⟩ := List.forall_mem_cons.mp hmembers
      exact ih hrest (hlive.begin hstandard className hmember)

theorem foldl_begin_same (className : String) (id : Nat) (store : Store)
    (members : List Blueprint.Member) :
    (members.foldl (begin className id) store).size = store.size ∧
      ∀ other, (members.foldl (begin className id) store).classOf other = store.classOf other := by
  induction members generalizing store with
  | nil => simp
  | cons member rest ih =>
      obtain ⟨hsize, hclass⟩ := begin_same className id store member
      obtain ⟨hsizes, hclasses⟩ := ih (begin className id store member)
      exact ⟨hsizes.trans hsize, fun other => (hclasses other).trans (hclass other)⟩

theorem Standard.fields_eq (h : Standard plan item) :
    item.fields = plan.members.map fun member => fieldCode {} member.field := by
  rw [h.fields, Plan.fields, List.map_map]
  rfl

theorem Standard.distinct_attrs (h : Standard plan item) :
    (plan.members.map fun member => member.field.attr).Nodup := by
  have hdistinct := h.regular.distinct
  rw [h.fields_eq, List.map_map] at hdistinct
  exact hdistinct

/-- A new instance holds what its fields began with. -/
theorem attributes_begun (className : String) (hstandard : Standard plan item) (store : Store) :
    (plan.members.foldl (begin className store.size) (store.add className)).attributes
      store.size = beginning className plan.members := by
  rw [attributes_foldl_begin className hstandard.distinct_attrs (by simp [Entries.keys]) (by simp),
    Store.attributes_add_self, List.nil_append]

theorem make_eq (hfind : library.find? className = some item) {values : List (String × Value)}
    (hself : Entries.contains receiverName values = false) :
    Instance.make library className values store =
      (Action.forEach (Instance.startField library store.size) item.fields >>= fun _ =>
        if className == Instance.baseAccess then Action.fault .endless
        else Action.forEach (Instance.fill library item store.size) values >>= fun _ =>
          Pure.pure store.size : Action Nat) (store.add className) := by
  have hnamed : library.classNamed? className = some item := by
    simp [Library.classNamed?, hfind]
  have hgiven : ¬ Entries.contains receiverName values = true := by simp [hself]
  unfold Instance.make
  rw [hnamed]
  exact congrFun (if_neg hgiven) store

/-- No value can be given by the name of the receiver. -/
theorem make_of_receiver (hfind : library.find? className = some item)
    {values : List (String × Value)} (hself : Entries.contains receiverName values = true) :
    Instance.make library className values store = (store, .error (.fault .unsuitable)) := by
  have hnamed : library.classNamed? className = some item := by
    simp [Library.classNamed?, hfind]
  unfold Instance.make
  rw [hnamed]
  exact congrFun (if_pos hself) store

/-- Making an instance starts every field and then assigns the given values. -/
theorem make_eq_ok (hfind : library.find? className = some item) (hstandard : Standard plan item)
    {values : List (String × Value)} {after : Store}
    (h : Instance.make library className values store = (after, .ok id)) :
    id = store.size ∧ className ≠ Instance.baseAccess ∧
      (∀ member ∈ plan.members, Startable item className member.field) ∧
      ∃ units, Action.forEach (Instance.fill library item id) values
        (plan.members.foldl (begin className id) (store.add className)) = (after, .ok units) := by
  have hlive := live_add store hfind
  cases hself : Entries.contains receiverName values with
  | true =>
      rw [make_of_receiver hfind hself] at h
      cases h
  | false =>
      rw [make_eq hfind hself, hstandard.fields_eq, Action.bind_run] at h
      by_cases hstart : ∀ member ∈ plan.members, Startable item className member.field
      · obtain ⟨units, hunits⟩ := forEach_start hstandard (fun _ h => h) hlive
          (by simpa using hstart)
        rw [Store.classOf_add_self] at hunits
        rw [hunits] at h
        cases hbase : className == Instance.baseAccess with
        | true =>
            simp only [hbase, if_true] at h
            cases h
        | false =>
            simp only [hbase, Bool.false_eq_true, if_false, Action.bind_run] at h
            split at h
            next filled others hfilled =>
              cases h
              exact ⟨rfl, by simpa using hbase, hstart, others, hfilled⟩
            · cases h
      · obtain ⟨stuck, refusal, hstuck⟩ := forEach_start_stuck hstandard (fun _ h => h) hlive
          (by simpa using hstart)
        rw [hstuck] at h
        cases h

theorem make_empty (hfind : library.find? className = some item) (hstandard : Standard plan item)
    (hbase : className ≠ Instance.baseAccess)
    (hstart : ∀ member ∈ plan.members, Startable item className member.field) :
    Instance.make library className [] store =
      (plan.members.foldl (begin className store.size) (store.add className),
        .ok store.size) := by
  obtain ⟨units, hunits⟩ := forEach_start hstandard (fun _ h => h) (live_add store hfind)
    (by simpa using hstart)
  rw [Store.classOf_add_self] at hunits
  have hother : (className == Instance.baseAccess) = false := by simpa using hbase
  rw [make_eq hfind rfl, hstandard.fields_eq, Action.bind_run, hunits]
  simp only [hother, Bool.false_eq_true, if_false]
  rfl

end Start

end ModelMint
