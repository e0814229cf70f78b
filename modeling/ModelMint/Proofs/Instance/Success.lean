import ModelMint.Proofs.Instance.Chain

/-!
# When setters succeed

A setter succeeds exactly where its rules let the value through and where each rule finds
the operations of the base that it goes by: a constant of the class can have taken the
name of one.
-/

namespace ModelMint

open ModelMint.Emit
open ModelMint.Blueprint

/-- The operations of the base that a rule goes by. -/
def Blueprint.Rule.operations : Rule → List String
  | .elements _ => ["_check_if_pure_array"]
  | .within .length _ _ => [boundsOperation .length]
  | .within measure _ _ => [boundsOperation measure, numberCheckName]
  | .moment => ["_parse_date"]
  | .oneOf _ => ["_check_enum_bounds"]

/-- Whether the rule finds the operations that it goes by. -/
def LoadedClass.Serves (item : LoadedClass) (rule : Rule) : Prop :=
  ∀ name ∈ rule.operations, Entries.get? name item.constants = none

section Statements

variable {library : Library} {item : LoadedClass} {store after : Store} {id : Nat}
  {value taken : Value} {operation : Operation} {name : String}

theorem findMember_check_free (hregular : item.Regular) (hlive : Live library item store id)
    (hname : operation.HasName name) (hfree : Entries.get? name item.constants = none) :
    findMember library id (privateName (store.classOf id) name) store =
      .ok (.operation operation) := by
  rw [hname.privateName_eq]
  exact findMember_of_free hregular hlive hname hfree

theorem findMember_check_taken (hregular : item.Regular) (hlive : Live library item store id)
    (hname : operation.HasName name) {hidden : Value}
    (htaken : Entries.get? name item.constants = some hidden) :
    findMember library id (privateName (store.classOf id) name) store = .ok (.value hidden) := by
  rw [hname.privateName_eq]
  exact findMember_of_taken hregular hlive hname htaken

/-- What follows a judgement as long as no constant has a name, and fails otherwise. -/
theorem eq_ok_iff_of_check {result : Store × Except Refusal Value}
    {judged : Except Refusal Value}
    (hfree : Entries.get? name item.constants = none → result = (store, judged))
    (htaken : ∀ hidden, Entries.get? name item.constants = some hidden →
      ∃ found, result = (store, .error (.fault found))) :
    result = (after, .ok taken) ↔
      after = store ∧ judged = .ok taken ∧ Entries.get? name item.constants = none := by
  cases hconstant : Entries.get? name item.constants with
  | some hidden =>
      obtain ⟨found, hresult⟩ := htaken hidden hconstant
      simp [hresult]
  | none =>
      rw [hfree hconstant, Prod.mk.injEq, eq_comm (a := store)]
      simp

theorem runStatement_number_eq_ok (hregular : item.Regular) (hlive : Live library item store id)
    (code : SetterCode) {measure : Measure} (hmeasure : measure ≠ .length)
    {minimum maximum : Json} (fuel : Nat) :
    runStatement library (fuel + 5) id code
        (.within (boundsOperation measure) minimum maximum) value store = (after, .ok taken) ↔
      after = store ∧ (Rule.within measure (some minimum) (some maximum)).judge ⟨library, store⟩
          (store.classOf id) code value = .ok taken ∧
        Entries.get? (boundsOperation measure) item.constants = none ∧
          Entries.get? numberCheckName item.constants = none := by
  have hmeasureName := Operation.HasName.measure measure
  cases hconstant : Entries.get? (boundsOperation measure) item.constants with
  | some hidden =>
      obtain ⟨found, hrefused⟩ : ∃ found, runStatement library (fuel + 5) id code
          (.within (boundsOperation measure) minimum maximum) value store =
            (store, .error (.fault found)) :=
        runStatement_within_hidden (fuel + 3)
          (findMember_check_taken hregular hlive hmeasureName hconstant)
      rw [hrefused]
      simp
  | none =>
      have hfind := findMember_check_free hregular hlive hmeasureName hconstant
      simp only [true_and]
      refine eq_ok_iff_of_check (fun h => ?_) (fun hidden h => ?_)
      · exact runStatement_within fuel measure hfind
          (.inr (findMember_of_free hregular hlive .number h))
      · exact runStatement_within_number_hidden (fuel + 1) hmeasure hfind
          (findMember_of_taken hregular hlive .number h)

/-- A statement succeeds where its rule accepts the value and finds its operations. -/
theorem runStatement_eq_ok (hregular : item.Regular) (hlive : Live library item store id)
    (code : SetterCode) (attr : String) (rule : Rule) (fuel : Nat) :
    runStatement library (fuel + 5) id code (standardStatement attr rule) value store =
        (after, .ok taken) ↔
      after = store ∧ rule.judge ⟨library, store⟩ (store.classOf id) code value = .ok taken ∧
        item.Serves rule := by
  unfold LoadedClass.Serves
  cases rule with
  | elements expected =>
      simp only [Blueprint.Rule.operations, List.forall_mem_singleton, standardStatement]
      exact eq_ok_iff_of_check
        (fun h => runStatement_elements (fuel + 2) (findMember_check_free hregular hlive .elements h))
        (fun _ h => ⟨_, runStatement_elements_hidden (fuel + 3)
          (findMember_check_taken hregular hlive .elements h)⟩)
  | moment =>
      simp only [Blueprint.Rule.operations, List.forall_mem_singleton, standardStatement]
      exact eq_ok_iff_of_check
        (fun h => runStatement_moment (fuel + 2) (findMember_check_free hregular hlive .moment h))
        (fun _ h => ⟨_, runStatement_moment_hidden (fuel + 3)
          (findMember_check_taken hregular hlive .moment h)⟩)
  | oneOf values =>
      simp only [Blueprint.Rule.operations, List.forall_mem_singleton, standardStatement]
      exact eq_ok_iff_of_check
        (fun h => runStatement_oneOf (fuel + 2) (findMember_check_free hregular hlive .oneOf h))
        (fun _ h => runStatement_oneOf_hidden (fuel + 3)
          (findMember_check_taken hregular hlive .oneOf h))
  | within measure minimum maximum =>
      by_cases hlength : measure = .length
      · subst hlength
        simp only [Blueprint.Rule.operations, List.forall_mem_singleton, standardStatement]
        exact eq_ok_iff_of_check
          (fun h => runStatement_within fuel .length
            (findMember_check_free hregular hlive (.measure .length) h) (.inl rfl))
          (fun _ h => runStatement_within_hidden (fuel + 3)
            (findMember_check_taken hregular hlive (.measure .length) h))
      · have hoperations : (Rule.within measure minimum maximum).operations =
            [boundsOperation measure, numberCheckName] := by
          cases measure <;> first | rfl | exact absurd rfl hlength
        simp only [hoperations, List.forall_mem_cons, List.not_mem_nil, false_implies,
          implies_true, and_true]
        exact runStatement_number_eq_ok hregular hlive code hlength fuel

theorem bind_action_eq_ok {α β : Type} {action : Action α} {next : α → Action β} {found : β} :
    Action.bind action next store = (after, .ok found) ↔
      ∃ middle first, action store = (middle, .ok first) ∧ next first middle = (after, .ok found) := by
  rw [Action.bind_apply]
  obtain ⟨middle, answer⟩ := action store
  cases answer with
  | ok first => simp
  | error refusal => simp

theorem through_eq_ok (hregular : item.Regular) (hlive : Live library item store id)
    (code : SetterCode) (attr : String) (rules : List Rule) (fuel : Nat) :
    Action.through (runStatement library (fuel + 5) id code)
        (rules.map (standardStatement attr)) value store = (after, .ok taken) ↔
      after = store ∧ rules.foldlM (Blueprint.Rule.judge ⟨library, store⟩ (store.classOf id) code)
          value = .ok taken ∧ ∀ rule ∈ rules, item.Serves rule := by
  induction rules generalizing value with
  | nil => simp [Action.through, Pure.pure, Except.pure, eq_comm]
  | cons rule rest ih =>
      rw [List.map_cons, Action.through, bind_action_eq_ok, List.foldlM_cons, bind_eq_ok,
        List.forall_mem_cons]
      constructor
      · rintro ⟨middle, first, hfirst, hrest⟩
        obtain ⟨rfl, hjudged, hserves⟩ :=
          (runStatement_eq_ok hregular hlive code attr rule fuel).mp hfirst
        obtain ⟨rfl, hfolded, hothers⟩ := ih.mp hrest
        exact ⟨rfl, ⟨first, hjudged, hfolded⟩, hserves, hothers⟩
      · rintro ⟨rfl, ⟨first, hjudged, hfolded⟩, hserves, hothers⟩
        exact ⟨after, first,
          (runStatement_eq_ok hregular hlive code attr rule fuel).mpr ⟨rfl, hjudged, hserves⟩,
          ih.mpr ⟨rfl, hfolded, hothers⟩⟩

end Statements

/-! ## Setters -/

section Setters

variable {library : Library} {item : LoadedClass} {plan : Plan} {store after : Store} {id : Nat}
  {member : Blueprint.Member} {value reply : Value}

/-- A setter with rules succeeds where its verdict is to take the value and all of its rules find
their operations, and then stores what it took. -/
theorem assign_eq_ok (hstandard : Standard plan item) (hlive : Live library item store id)
    (hmember : member ∈ plan.members) (hrules : member.rules ≠ []) :
    Instance.assign library id member.field.attr value store = (after, .ok reply) ↔
      ∃ taken, member.verdict ⟨library, store⟩ (store.classOf id) value = .ok taken ∧
        (∀ rule ∈ member.rules, item.Serves rule) ∧
        after = store.put id member.field.attr taken ∧ reply = .instance id := by
  obtain ⟨fuel, hassign⟩ := assign_eq_runSetter hstandard hlive hmember
    (List.isEmpty_eq_false_iff.mpr hrules) value
  have hthrough : ∀ middle taken, Action.through (runStatement library (fuel + 6) id
      (standardSetter member)) (standardSetter member).statements value store =
        (middle, .ok taken) ↔ _ := fun middle taken =>
    through_eq_ok hstandard.regular hlive (standardSetter member) member.field.attr member.rules
      (fuel + 1)
  rw [hassign, runSetter_eq]
  unfold Blueprint.Member.verdict
  simp only
  split
  · simp
  · split
    · simp
    · constructor
      · intro h
        split at h
        next middle taken hrun =>
          obtain ⟨rfl, hjudged, hserves⟩ := (hthrough middle taken).mp hrun
          obtain ⟨rfl, hreply⟩ := Prod.mk.inj h
          exact ⟨taken, hjudged, hserves, rfl, (Except.ok.inj hreply).symm⟩
        · cases (Prod.mk.inj h).2
      · rintro ⟨taken, hjudged, hserves, rfl, rfl⟩
        rw [(hthrough store taken).mpr ⟨rfl, hjudged, hserves⟩]

end Setters

end ModelMint
