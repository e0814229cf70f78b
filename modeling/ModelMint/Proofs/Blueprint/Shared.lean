import ModelMint.Blueprint.Shared
import ModelMint.Proofs.Results

/-!
# One resolver plans as none

A resolver that is sound answers as if it had to follow every pointer, and stays sound.
So a step that asks it ends as the step that follows the pointers itself, whatever was
asked before.
-/

namespace ModelMint.Blueprint.Shared

open ModelMint.Schema

variable {ε δ α β : Type} {root width : Json} {document : Document} {property : Property}

/-! ## Sound resolvers -/

/-- What was found is what the pointers lead to. -/
structure Sound (root : Json) (resolver : Resolver) : Prop where
  origin : resolver.root = root
  found : ∀ pointer resolved, Entries.get? pointer resolver.found = some resolved →
    resolve root pointer = .ok resolved

theorem sound_new (root : Json) : Sound root { root } where
  origin := rfl
  found := by
    intro pointer resolved h
    cases h

/-- A sound resolver tells what the pointer leads to, and is sound afterwards. -/
theorem Sound.resolve {resolver : Resolver} (h : Sound root resolver) (pointer : String) :
    (resolver.resolve pointer).1 = resolve root pointer ∧
      Sound root (resolver.resolve pointer).2 := by
  unfold Resolver.resolve
  split
  next resolved hfound => exact ⟨(h.found pointer resolved hfound).symm, h⟩
  next hmissing =>
    rw [h.origin]
    split
    next resolved hresolved =>
      refine ⟨hresolved.symm, rfl, fun other value hother => ?_⟩
      by_cases hsame : other = pointer
      · subst hsame
        rw [Entries.get?_insert_self] at hother
        rw [hresolved, Option.some.inj hother]
      · rw [Entries.get?_insert_of_ne hsame] at hother
        exact h.found other value hother
    next failure hfailure => exact ⟨hfailure.symm, h⟩

/-! ## Steps -/

/-- The step comes to the result with every sound resolver and leaves it sound. -/
def Answers (root : Json) (action : Asking ε α) (result : Except ε α) : Prop :=
  ∀ resolver, Sound root resolver → (action resolver).1 = result ∧ Sound root (action resolver).2

theorem answers_of (result : Except ε α) : Answers root (Asking.of result) result :=
  fun _ hsound => ⟨rfl, hsound⟩

theorem answers_ask (pointer : String) :
    Answers root (ask pointer : Asking ε _) (.ok (resolve root pointer)) := by
  intro resolver hsound
  obtain ⟨hanswer, hafter⟩ := hsound.resolve pointer
  exact ⟨congrArg Except.ok hanswer, hafter⟩

theorem Answers.caught {action : Asking ε α} {result : Except ε α}
    (h : Answers root action result) : Answers root (action.caught : Asking δ _) (.ok result) := by
  intro resolver hsound
  obtain ⟨hanswer, hafter⟩ := h resolver hsound
  exact ⟨congrArg Except.ok hanswer, hafter⟩

theorem Answers.adapt {action : Asking ε α} {result : Except ε α} (h : Answers root action result)
    (f : ε → δ) : Answers root (action.adapt f) (result.mapError f) := by
  intro resolver hsound
  obtain ⟨hanswer, hafter⟩ := h resolver hsound
  exact ⟨congrArg (Except.mapError f) hanswer, hafter⟩

theorem bind_apply (action : Asking ε α) (next : α → Asking ε β) (resolver : Resolver) :
    (action >>= next) resolver = match (action resolver).1 with
      | .ok value => next value (action resolver).2
      | .error found => (.error found, (action resolver).2) := by
  simp only [Bind.bind, ExceptT.bind, ExceptT.mk, StateT.bind, ExceptT.bindCont]
  generalize action resolver = first
  obtain ⟨_ | _, after⟩ := first <;> rfl

theorem Answers.bind {action : Asking ε α} {result : Except ε α} {next : α → Asking ε β}
    {later : α → Except ε β} (h : Answers root action result)
    (hnext : ∀ value, Answers root (next value) (later value)) :
    Answers root (action >>= next) (result >>= later) := by
  intro resolver hsound
  obtain ⟨hanswer, hafter⟩ := h resolver hsound
  rw [bind_apply, hanswer]
  cases result with
  | ok value => exact hnext value _ hafter
  | error found => exact ⟨rfl, hafter⟩

theorem Answers.bind_ok {action : Asking ε α} {value : α} {next : α → Asking ε β}
    {result : Except ε β} (h : Answers root action (.ok value))
    (hnext : Answers root (next value) result) : Answers root (action >>= next) result := by
  intro resolver hsound
  obtain ⟨hanswer, hafter⟩ := h resolver hsound
  rw [bind_apply, hanswer]
  exact hnext _ hafter

theorem Answers.map {action : Asking ε α} {result : Except ε α} (h : Answers root action result)
    (f : α → β) :
    Answers root (do let value ← action; Asking.of (.ok (f value))) (result.map f) := by
  have hmap : result.map f = result >>= fun value => .ok (f value) := by
    cases result <;> rfl
  rw [hmap]
  exact h.bind fun value => answers_of _

theorem answers_foldlM {step : β → α → Asking ε β} {plain : β → α → Except ε β}
    (h : ∀ state item, Answers root (step state item) (plain state item)) (items : List α)
    (state : β) : Answers root (items.foldlM step state) (items.foldlM plain state) := by
  induction items generalizing state with
  | nil => exact answers_of _
  | cons item rest ih =>
      rw [List.foldlM_cons, List.foldlM_cons]
      exact (h state item).bind fun middle => ih middle

/-! ## Types of properties -/

theorem answers_resolveProperty :
    Answers root (resolveProperty property) (Blueprint.resolveProperty root property) := by
  unfold resolveProperty Blueprint.resolveProperty
  cases property.reference? with
  | some pointer =>
      refine (answers_ask pointer).bind_ok ?_
      simp only
      cases resolve root pointer <;> exact answers_of _
  | none => exact answers_of _

theorem answers_referencedType :
    Answers root (referencedType property) (Blueprint.referencedType root property) := by
  unfold referencedType Blueprint.referencedType
  split
  · exact answers_resolveProperty.map _
  · exact answers_of _

theorem answers_storageType :
    Answers root (storageType property) (Blueprint.storageType root property) := by
  unfold storageType Blueprint.storageType
  split
  · exact answers_of _
  · cases property.type with
    | some name => exact answers_of _
    | none => exact answers_referencedType

theorem answers_elementType :
    Answers root (elementType property) (Blueprint.elementType root property) := by
  unfold elementType Blueprint.elementType
  split
  · exact answers_of _
  · exact answers_referencedType

theorem answers_isPureArray :
    Answers root (isPureArray property) (Blueprint.isPureArray root property) := by
  unfold isPureArray Blueprint.isPureArray Blueprint.isArray
  split
  · exact answers_storageType.map _
  · exact answers_of _

theorem answers_elementTypeIf (wanted : Bool) :
    Answers root (elementTypeIf wanted property) (Blueprint.elementTypeIf wanted root property) := by
  unfold elementTypeIf Blueprint.elementTypeIf
  split
  · exact answers_elementType
  · exact answers_of _

/-! ## Members -/

theorem answers_fieldOf {required : List String} :
    Answers root (fieldOf width required property)
      (Field.ofProperty root width required property) :=
  answers_storageType.bind fun _ => answers_isPureArray.bind fun pure =>
    (answers_elementTypeIf pure).bind fun _ => (answers_of _).bind fun _ =>
      (answers_of _).bind fun _ => (answers_elementTypeIf _).bind fun _ => answers_of _

theorem answers_elementRules :
    Answers root (elementRules property) (Blueprint.elementRules root property) := by
  refine answers_isPureArray.bind fun pure => ?_
  cases pure with
  | true => exact answers_elementType.bind fun _ => answers_of _
  | false => exact answers_of _

theorem answers_rulesOf : Answers root (rulesOf property) (Blueprint.rulesOf root property) :=
  answers_storageType.bind fun _ => answers_elementRules.bind fun _ => answers_of _

theorem answers_targetOf : Answers document.raw (targetOf document property)
    (Blueprint.targetOf document property) := by
  unfold targetOf Blueprint.targetOf
  split
  · refine answers_resolveProperty.bind fun resolved => ?_
    split <;> exact answers_of _
  · exact answers_of _

theorem answers_memberOf {required : List String} :
    Answers document.raw (memberOf document width required property)
      (Member.ofProperty document width required property) :=
  answers_targetOf.bind fun _ => answers_fieldOf.bind fun _ =>
    answers_rulesOf.bind fun _ => answers_of _

/-! ## Classes -/

variable {definition : Definition}

theorem answers_planMember {earlier : List Member} {name : String} :
    Answers document.raw (planMember document width definition earlier name property)
      (Blueprint.planMember document width definition earlier name property) := by
  refine Answers.adapt ?_ _
  exact answers_memberOf.bind fun _ => (answers_of _).bind fun _ => answers_of _

theorem answers_planMembers {earlier : List Member} {properties : List (String × Property)} :
    Answers document.raw (planMembers document width definition earlier properties)
      (Blueprint.planMembers document width definition earlier properties) := by
  induction properties generalizing earlier with
  | nil => exact answers_of _
  | cons entry rest ih => exact answers_planMember.bind fun _ => ih

/-- A plan is the same, whatever the resolver has found for others. -/
theorem answers_planOf :
    Answers document.raw (planOf document width definition)
      (Plan.ofDefinition document width definition) := by
  unfold planOf Plan.ofDefinition
  split
  · exact (answers_of _).bind fun _ => (answers_of _).bind fun _ =>
      answers_planMembers.bind fun _ => answers_of _
  · exact (answers_of _).bind fun _ => (answers_of _).bind fun _ =>
      answers_planMembers.bind fun _ => answers_of _

end ModelMint.Blueprint.Shared
