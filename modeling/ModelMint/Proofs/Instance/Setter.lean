import ModelMint.Proofs.Instance.Calls
import ModelMint.Proofs.Instance.Literal
import ModelMint.Proofs.Instance.Lookup

/-!
# What setters do

A setter leaves everything as it is until its checks are through, and then sets one
attribute.  So a call of a setter is a verdict on the value: what is stored for it, or
why it is refused.
-/

namespace ModelMint

open ModelMint.Emit
open ModelMint.Blueprint

/-! ## Verdicts -/

/-- The check of a measure, as the base has it. -/
def measureOperation : Measure → Operation
  | .length => .checkLength
  | .integer | .float => .checkNumberKind

/-- What a check of bounds says of a value. -/
def Scene.checkMeasure (scene : Scene) (measure : Measure) (value minimum maximum : Value) :
    Except Refusal Unit :=
  match measure with
  | .length => scene.checkLength value minimum maximum
  | .integer | .float => scene.checkBounds false value minimum maximum

/-- What a rule makes of the value of a parameter. -/
def Blueprint.Rule.judge (scene : Scene) (className : String) (code : SetterCode) (value : Value) :
    Rule → Except Refusal Value
  | .elements expected =>
    (scene.checkElements value (.type (privateName className expected))).map fun _ => value
  | .within measure minimum maximum => do
    let names := setterNames className code (.operation (measureOperation measure)) value
    let minimum ← Scene.ofFault (literalValue names (minimum.getD .null))
    let maximum ← Scene.ofFault (literalValue names (maximum.getD .null))
    (scene.checkMeasure measure value minimum maximum).map fun _ => value
  | .moment => scene.parseMoment value
  | .oneOf values => do
    let names := setterNames className code (.operation .checkOneOf) value
    let allowed ← Scene.ofFault (literalValue names (.arr values))
    (scene.checkOneOf value allowed).map fun _ => value

/-- Whether every class that the rules check against is loaded. -/
def importable (library : Library) (className : String) (rules : List Rule) : Bool :=
  rules.all fun
    | .elements expected => (library.find? (privateName className expected)).isSome
    | _ => true

/-- What a setter makes of a value: what it stores, or why it refuses. -/
def Blueprint.Member.verdict (scene : Scene) (className : String) (member : Blueprint.Member)
    (value : Value) : Except Refusal Value :=
  let code := standardSetter member
  if !importable scene.library className member.rules then .error (.fault .missingModule)
  else if code.statements.any (givesName receiverName) then .error (.fault .unsuitable)
  else member.rules.foldlM (Blueprint.Rule.judge scene className code) value

/-! ## Statements -/

section Statements

variable {library : Library} {store : Store} {id : Nat} {code : SetterCode} {value : Value}
  {operation : String} (fuel : Nat)

theorem runStatement_elements {expected : String} {renamed : Bool}
    (hfind : findMember library id (privateName (store.classOf id) operation) store =
      .ok (.operation .checkElements)) :
    runStatement library (fuel + 3) id code (.elements operation expected renamed) value store =
      (store, ((Scene.mk library store).checkElements value
        (.type (privateName (store.classOf id) expected))).map fun _ => value) := by
  unfold runStatement
  simp only [Action.bind_run, Action.look, member, hfind, call_checkElements]
  cases (Scene.mk library store).checkElements value
    (.type (privateName (store.classOf id) expected)) <;> rfl

/-- A constant can not be called as a check. -/
theorem runStatement_elements_hidden {expected : String} {renamed : Bool} {hidden : Value}
    (hfind : findMember library id (privateName (store.classOf id) operation) store =
      .ok (.value hidden)) :
    runStatement library (fuel + 2) id code (.elements operation expected renamed) value store =
      (store, .error (.fault .unsuitable)) := by
  unfold runStatement
  simp only [Action.bind_run, Action.look, member, hfind, call_value]

theorem call_measureOperation (measure : Measure) {minimum maximum : Value}
    (hnumber : measure = .length ∨
      findMember library id numberCheckName store = .ok (.operation .checkNumber)) :
    call library (fuel + 4) id (.operation (measureOperation measure)) [value, minimum, maximum]
        store =
      (store, ((Scene.mk library store).checkMeasure measure value minimum maximum).map
        fun _ => .none) := by
  cases measure with
  | length => exact call_checkLength (fuel + 2)
  | integer | float => exact call_checkNumberKind fuel (hnumber.resolve_left Measure.noConfusion)

theorem runStatement_within (measure : Measure) {minimum maximum : Json}
    (hfind : findMember library id (privateName (store.classOf id) operation) store =
      .ok (.operation (measureOperation measure)))
    (hnumber : measure = .length ∨
      findMember library id numberCheckName store = .ok (.operation .checkNumber)) :
    runStatement library (fuel + 5) id code (.within operation minimum maximum) value store =
      (store, (Rule.within measure (some minimum) (some maximum)).judge ⟨library, store⟩
        (store.classOf id) code value) := by
  unfold runStatement
  simp only [Action.bind_run, Action.look, member, hfind, Action.ofFault_run, Blueprint.Rule.judge,
    Option.getD_some]
  generalize setterNames (store.classOf id) code (.operation (measureOperation measure)) value =
    names
  cases literalValue names minimum with
  | error found => rfl
  | ok least =>
      cases literalValue names maximum with
      | error found => rfl
      | ok greatest =>
          simp only [Scene.ofFault, call_measureOperation fuel measure hnumber]
          change _ = (store,
            ((Scene.mk library store).checkMeasure measure value least greatest).map _)
          cases (Scene.mk library store).checkMeasure measure value least greatest <;> rfl

theorem runStatement_within_hidden {minimum maximum : Json} {hidden : Value}
    (hfind : findMember library id (privateName (store.classOf id) operation) store =
      .ok (.value hidden)) :
    ∃ found, runStatement library (fuel + 2) id code (.within operation minimum maximum) value
      store = (store, .error (.fault found)) := by
  unfold runStatement
  simp only [Action.bind_run, Action.look, member, hfind, Action.ofFault_run]
  generalize setterNames (store.classOf id) code (.value hidden) value = names
  cases literalValue names minimum with
  | error found => exact ⟨found, rfl⟩
  | ok least =>
      cases literalValue names maximum with
      | error found => exact ⟨found, rfl⟩
      | ok greatest => exact ⟨.unsuitable, by simp only [Scene.ofFault, call_value]⟩

/-- The checks for each kind of number fail where the one for all is none. -/
theorem runStatement_within_number_hidden {measure : Measure} (hmeasure : measure ≠ .length)
    {minimum maximum : Json} {hidden : Value}
    (hfind : findMember library id (privateName (store.classOf id) operation) store =
      .ok (.operation (measureOperation measure)))
    (hnumber : findMember library id numberCheckName store = .ok (.value hidden)) :
    ∃ found, runStatement library (fuel + 4) id code (.within operation minimum maximum) value
      store = (store, .error (.fault found)) := by
  have hkind : measureOperation measure = .checkNumberKind := by
    cases measure with
    | length => exact absurd rfl hmeasure
    | integer | float => rfl
  rw [hkind] at hfind
  unfold runStatement
  simp only [Action.bind_run, Action.look, member, hfind, Action.ofFault_run]
  generalize setterNames (store.classOf id) code (.operation .checkNumberKind) value = names
  cases literalValue names minimum with
  | error found => exact ⟨found, rfl⟩
  | ok least =>
      cases literalValue names maximum with
      | error found => exact ⟨found, rfl⟩
      | ok greatest =>
          exact ⟨.unsuitable, by simp only [Scene.ofFault, call_checkNumberKind_hidden fuel hnumber]⟩

theorem runStatement_moment
    (hfind : findMember library id (privateName (store.classOf id) operation) store =
      .ok (.operation .parseMoment)) :
    runStatement library (fuel + 3) id code (.moment operation) value store =
      (store, (Scene.mk library store).parseMoment value) := by
  unfold runStatement
  simp only [Action.bind_run, Action.look, member, hfind, call_parseMoment]

theorem runStatement_moment_hidden {hidden : Value}
    (hfind : findMember library id (privateName (store.classOf id) operation) store =
      .ok (.value hidden)) :
    runStatement library (fuel + 2) id code (.moment operation) value store =
      (store, .error (.fault .unsuitable)) := by
  unfold runStatement
  simp only [Action.bind_run, Action.look, member, hfind, call_value]

theorem runStatement_oneOf {values : List Json}
    (hfind : findMember library id (privateName (store.classOf id) operation) store =
      .ok (.operation .checkOneOf)) :
    runStatement library (fuel + 3) id code (.oneOf operation values) value store =
      (store, (Rule.oneOf values).judge ⟨library, store⟩ (store.classOf id) code value) := by
  unfold runStatement
  simp only [Action.bind_run, Action.look, member, hfind, Action.ofFault_run, Blueprint.Rule.judge]
  generalize setterNames (store.classOf id) code (.operation .checkOneOf) value = names
  cases literalValue names (.arr values) with
  | error found => rfl
  | ok allowed =>
      simp only [Scene.ofFault, call_checkOneOf]
      change _ = (store, ((Scene.mk library store).checkOneOf value allowed).map _)
      cases (Scene.mk library store).checkOneOf value allowed <;> rfl

theorem runStatement_oneOf_hidden {values : List Json} {hidden : Value}
    (hfind : findMember library id (privateName (store.classOf id) operation) store =
      .ok (.value hidden)) :
    ∃ found, runStatement library (fuel + 2) id code (.oneOf operation values) value store =
      (store, .error (.fault found)) := by
  unfold runStatement
  simp only [Action.bind_run, Action.look, member, hfind, Action.ofFault_run]
  generalize setterNames (store.classOf id) code (.value hidden) value = names
  cases literalValue names (.arr values) with
  | error found => exact ⟨found, rfl⟩
  | ok allowed => exact ⟨.unsuitable, by simp only [Scene.ofFault, call_value]⟩

end Statements

/-! ## Setters -/

/-- No constant has taken the name of a member of the base. -/
def LoadedClass.Open (item : LoadedClass) : Prop :=
  ∀ key ∈ Entries.keys item.constants, baseMember? key = none

section Setters

variable {library : Library} {item : LoadedClass} {plan : Plan} {store : Store} {id : Nat}

theorem findMember_of_free (hregular : item.Regular) (hlive : Live library item store id)
    {name : String} {operation : Operation} (hname : operation.HasName name)
    (hfree : Entries.get? name item.constants = none) :
    findMember library id name store = .ok (.operation operation) := by
  rw [hname.findMember hregular hlive, hfree]

theorem findMember_of_taken (hregular : item.Regular) (hlive : Live library item store id)
    {name : String} {operation : Operation} (hname : operation.HasName name) {hidden : Value}
    (htaken : Entries.get? name item.constants = some hidden) :
    findMember library id name store = .ok (.value hidden) := by
  rw [hname.findMember hregular hlive, htaken]

theorem findMember_open (hregular : item.Regular) (hopen : item.Open)
    (hlive : Live library item store id) {name : String} {operation : Operation}
    (hname : operation.HasName name) :
    findMember library id name store = .ok (.operation operation) := by
  refine findMember_of_free hregular hlive hname ?_
  have hknown := hname.known
  rw [Entries.get?_eq_none_iff]
  intro hmem
  rw [hopen name hmem] at hknown
  cases hknown

theorem Operation.HasName.measure (measure : Measure) :
    (measureOperation measure).HasName (boundsOperation measure) := by
  cases measure <;> exact ⟨rfl, ⟨_, _, rfl, rfl⟩, by decide⟩

theorem runStatement_standard (hregular : item.Regular) (hopen : item.Open)
    (hlive : Live library item store id) (code : SetterCode) (attr : String) (rule : Rule)
    (value : Value) (fuel : Nat) :
    runStatement library (fuel + 5) id code (standardStatement attr rule) value store =
      (store, rule.judge ⟨library, store⟩ (store.classOf id) code value) := by
  have hfind : ∀ {name : String} {operation : Operation}, operation.HasName name →
      findMember library id (privateName (store.classOf id) name) store =
        .ok (.operation operation) := by
    intro name operation hname
    rw [hname.privateName_eq]
    exact findMember_open hregular hopen hlive hname
  cases rule with
  | elements expected => exact runStatement_elements (fuel + 2) (hfind .elements)
  | within measure minimum maximum =>
      exact runStatement_within fuel measure (hfind (.measure measure))
        (.inr (findMember_open hregular hopen hlive .number))
  | moment => exact runStatement_moment (fuel + 2) (hfind .moment)
  | oneOf values => exact runStatement_oneOf (fuel + 2) (hfind .oneOf)

theorem through_standard (hregular : item.Regular) (hopen : item.Open)
    (hlive : Live library item store id) (code : SetterCode) (attr : String) (rules : List Rule)
    (value : Value) (fuel : Nat) :
    Action.through (runStatement library (fuel + 5) id code)
        (rules.map (standardStatement attr)) value store =
      (store, rules.foldlM (Blueprint.Rule.judge ⟨library, store⟩ (store.classOf id) code)
        value) := by
  induction rules generalizing value with
  | nil => rfl
  | cons rule rest ih =>
      rw [List.map_cons, Action.through, Action.bind_apply,
        runStatement_standard hregular hopen hlive, List.foldlM_cons]
      cases rule.judge ⟨library, store⟩ (store.classOf id) code value with
      | error refusal => rfl
      | ok judged => exact ih judged

theorem importAll_standard (library : Library) (owner attr : String) (rules : List Rule)
    (store : Store) :
    importAll library owner (rules.map (standardStatement attr)) store =
      (store, if importable library owner rules then .ok ()
        else .error (.fault .missingModule)) := by
  induction rules with
  | nil => rfl
  | cons rule rest ih =>
      cases rule with
      | elements expected =>
          cases hfound : (library.find? (privateName owner expected)).isSome with
          | true =>
              have hrest : importable library owner (.elements expected :: rest) =
                  importable library owner rest := by simp [importable, hfound]
              rw [hrest]
              simpa only [List.map_cons, standardStatement, importAll, hfound, if_true] using ih
          | false =>
              have hrest : importable library owner (.elements expected :: rest) = false := by
                simp [importable, hfound]
              rw [hrest]
              simp [standardStatement, importAll, hfound, Action.fault, Action.refuse]
      | _ => exact ih

/-- A setter imports, sees whether it still knows its receiver, checks and assigns. -/
theorem runSetter_eq (library : Library) (store : Store) (id : Nat) (member : Blueprint.Member)
    (value : Value) (fuel : Nat) :
    runSetter library (fuel + 1) id (standardSetter member) value store =
      if !importable library (store.classOf id) member.rules then
        (store, .error (.fault .missingModule))
      else if (standardSetter member).statements.any (givesName receiverName) then
        (store, .error (.fault .unsuitable))
      else match Action.through (runStatement library fuel id (standardSetter member))
          (standardSetter member).statements value store with
        | (after, .ok taken) => (after.put id member.field.attr taken, .ok (.instance id))
        | (after, .error refusal) => (after, .error refusal) := by
  have himport := importAll_standard library (store.classOf id) member.field.attr member.rules
    store
  change importAll library (store.classOf id) (standardSetter member).statements store = _
    at himport
  unfold runSetter
  simp only [Action.bind_run, Action.look, himport]
  cases importable library (store.classOf id) member.rules with
  | false => rfl
  | true =>
      simp only [if_true, Bool.not_true, Bool.false_eq_true, if_false]
      cases (standardSetter member).statements.any (givesName receiverName) with
      | true => rfl
      | false =>
          simp only [Bool.false_eq_true, if_false, Action.bind_run]
          generalize Action.through (runStatement library fuel id (standardSetter member))
            (standardSetter member).statements value store = result
          obtain ⟨after, answer⟩ := result
          cases answer <;> rfl

theorem runSetter_standard (hregular : item.Regular) (hopen : item.Open)
    (hlive : Live library item store id) (member : Blueprint.Member) (value : Value)
    (fuel : Nat) :
    runSetter library (fuel + 6) id (standardSetter member) value store =
      match member.verdict ⟨library, store⟩ (store.classOf id) value with
      | .ok taken => (store.put id member.field.attr taken, .ok (.instance id))
      | .error refusal => (store, .error refusal) := by
  have hthrough := through_standard hregular hopen hlive (standardSetter member)
    member.field.attr member.rules value fuel
  change Action.through _ (standardSetter member).statements value store = _ at hthrough
  rw [runSetter_eq, hthrough]
  unfold Blueprint.Member.verdict
  simp only
  split
  · rfl
  · split
    · rfl
    · cases member.rules.foldlM (Blueprint.Rule.judge ⟨library, store⟩ (store.classOf id)
        (standardSetter member)) value <;> rfl

theorem exists_callDepth (library : Library) (store : Store) :
    ∃ fuel, callDepth library store = fuel + 8 := by
  have hdepth : 8 ≤ callDepth library store := by
    unfold callDepth
    calc 8 ≤ 8 * 2 * 2 := by decide
      _ ≤ 8 * (store.size + 2) * ((library.flatMap (·.2.setters)).length + 2) :=
        Nat.mul_le_mul (Nat.mul_le_mul_left 8 (by omega)) (by omega)
  exact ⟨callDepth library store - 8, by omega⟩

theorem findMember_memberSetter (hstandard : Standard plan item)
    (hlive : Live library item store id) {member : Blueprint.Member}
    (hmember : member ∈ plan.members) :
    findMember library id (setter member.field.attr) store =
      .ok (if member.rules.isEmpty then .writer member.field.attr
        else .setter (standardSetter member)) := by
  have hfind := findMember_setter hstandard.regular hlive (hstandard.field_mem hmember)
  have hcode := hstandard.setter?_eq hmember
  simp only [fieldCode, hcode] at hfind
  rw [hfind]
  cases member.rules.isEmpty <;> rfl

theorem assign_eq_call (hstandard : Standard plan item) (hlive : Live library item store id)
    {member : Blueprint.Member} (hmember : member ∈ plan.members) (value : Value) :
    ∃ fuel, Instance.assign library id member.field.attr value store =
      call library (fuel + 8) id (if member.rules.isEmpty then .writer member.field.attr
        else .setter (standardSetter member)) [value] store := by
  obtain ⟨fuel, hfuel⟩ := exists_callDepth library store
  refine ⟨fuel, ?_⟩
  simp only [Instance.assign, invoke, Action.bind_run, Action.look, ModelMint.member,
    findMember_memberSetter hstandard hlive hmember, hfuel]

theorem assign_eq_runSetter (hstandard : Standard plan item) (hlive : Live library item store id)
    {member : Blueprint.Member} (hmember : member ∈ plan.members)
    (hrules : member.rules.isEmpty = false) (value : Value) :
    ∃ fuel, Instance.assign library id member.field.attr value store =
      runSetter library (fuel + 7) id (standardSetter member) value store := by
  obtain ⟨fuel, hassign⟩ := assign_eq_call hstandard hlive hmember value
  refine ⟨fuel, ?_⟩
  rw [hassign, hrules, if_neg Bool.false_ne_true]
  unfold call
  rfl

theorem assign_eq_writer (hstandard : Standard plan item) (hlive : Live library item store id)
    {member : Blueprint.Member} (hmember : member ∈ plan.members)
    (hrules : member.rules.isEmpty = true) (value : Value) :
    ∃ fuel, Instance.assign library id member.field.attr value store =
      call library (fuel + 8) id (.writer member.field.attr) [value] store := by
  obtain ⟨fuel, hassign⟩ := assign_eq_call hstandard hlive hmember value
  exact ⟨fuel, by rw [hassign, hrules, if_pos rfl]⟩

theorem verdict_of_no_rules {scene : Scene} {className : String} {member : Blueprint.Member}
    (hrules : member.rules = []) (value : Value) :
    member.verdict scene className value = .ok value := by
  simp [Blueprint.Member.verdict, importable, hrules, standardSetter, Pure.pure, Except.pure]

/-- A setter stores what its verdict says, or leaves the store as it is. -/
theorem assign_eq (hstandard : Standard plan item) (hopen : item.Open)
    (hlive : Live library item store id) {member : Blueprint.Member}
    (hmember : member ∈ plan.members) (value : Value) :
    Instance.assign library id member.field.attr value store =
      match member.verdict ⟨library, store⟩ (store.classOf id) value with
      | .ok taken => (store.put id member.field.attr taken, .ok (.instance id))
      | .error refusal => (store, .error refusal) := by
  cases hrules : member.rules.isEmpty with
  | true =>
      have hempty : member.rules = [] := List.isEmpty_iff.mp hrules
      obtain ⟨fuel, hassign⟩ := assign_eq_writer hstandard hlive hmember hrules value
      have hwrite : findMember library id writerName store = .ok (.operation .writeAttribute) :=
        findMember_open hstandard.regular hopen hlive .writer
      rw [hassign, call_writer (fuel + 5) hwrite, verdict_of_no_rules hempty]
  | false =>
      obtain ⟨fuel, hassign⟩ := assign_eq_runSetter hstandard hlive hmember hrules value
      rw [hassign]
      exact runSetter_standard hstandard.regular hopen hlive member value (fuel + 1)

theorem read_eq (hstandard : Standard plan item) (hopen : item.Open)
    (hlive : Live library item store id) {member : Blueprint.Member}
    (hmember : member ∈ plan.members) :
    Instance.read library id member.field.attr store =
      (store, match store.attribute? id member.field.attr with
        | some value => .ok value
        | none => .error (.fault (.unset (store.classOf id) member.field.attr))) := by
  obtain ⟨fuel, hfuel⟩ := exists_callDepth library store
  have hfind := findMember_getter hstandard.regular hlive (hstandard.field_mem hmember)
  change findMember library id (getter member.field.attr) store = _ at hfind
  have hread : findMember library id readerName store = .ok (.operation .readAttribute) :=
    findMember_open hstandard.regular hopen hlive .reader
  simp only [Instance.read, invoke, Action.bind_run, Action.look, ModelMint.member, hfind, hfuel]
  exact call_reader (fuel + 5) hread

/-! ## Setters beside any constants -/

/-- The name of a check means the check of the base, unless a constant has taken it. -/
theorem findMember_check (hregular : item.Regular) (hlive : Live library item store id)
    {name : String} {operation : Operation} (hname : operation.HasName name) :
    findMember library id (privateName (store.classOf id) name) store = .ok (.operation operation) ∨
      ∃ hidden, findMember library id (privateName (store.classOf id) name) store =
        .ok (.value hidden) := by
  rw [hname.privateName_eq]
  cases hconstant : Entries.get? name item.constants with
  | none => exact .inl (findMember_of_free hregular hlive hname hconstant)
  | some hidden => exact .inr ⟨hidden, findMember_of_taken hregular hlive hname hconstant⟩

/-- Whatever the constants are called, a statement follows its rule or fails. -/
theorem runStatement_cases (hregular : item.Regular) (hlive : Live library item store id)
    (code : SetterCode) (attr : String) (rule : Rule) (value : Value) (fuel : Nat) :
    runStatement library (fuel + 5) id code (standardStatement attr rule) value store =
        (store, rule.judge ⟨library, store⟩ (store.classOf id) code value) ∨
      ∃ found, runStatement library (fuel + 5) id code (standardStatement attr rule) value store =
        (store, .error (.fault found)) := by
  cases rule with
  | elements expected =>
      rcases findMember_check hregular hlive .elements with hfind | ⟨hidden, hfind⟩
      · exact .inl (runStatement_elements (fuel + 2) hfind)
      · exact .inr ⟨_, runStatement_elements_hidden (fuel + 3) hfind⟩
  | within measure minimum maximum =>
      rcases findMember_check hregular hlive (.measure measure) with
        hfind | ⟨hidden, hfind⟩
      -- the checks of numbers go through another member, which may be taken as well
      · by_cases hlength : measure = .length
        · exact .inl (runStatement_within fuel measure hfind (.inl hlength))
        · rcases findMember_check hregular hlive .number with hcheck | ⟨hidden, hcheck⟩ <;>
            rw [Operation.HasName.number.privateName_eq] at hcheck
          · exact .inl (runStatement_within fuel measure hfind (.inr hcheck))
          · exact .inr (runStatement_within_number_hidden (fuel + 1) hlength hfind hcheck)
      · exact .inr (runStatement_within_hidden (fuel + 3) hfind)
  | moment =>
      rcases findMember_check hregular hlive .moment with hfind | ⟨hidden, hfind⟩
      · exact .inl (runStatement_moment (fuel + 2) hfind)
      · exact .inr ⟨_, runStatement_moment_hidden (fuel + 3) hfind⟩
  | oneOf values =>
      rcases findMember_check hregular hlive .oneOf with hfind | ⟨hidden, hfind⟩
      · exact .inl (runStatement_oneOf (fuel + 2) hfind)
      · exact .inr (runStatement_oneOf_hidden (fuel + 3) hfind)

theorem through_cases (hregular : item.Regular) (hlive : Live library item store id)
    (code : SetterCode) (attr : String) (rules : List Rule) (value : Value) (fuel : Nat) :
    Action.through (runStatement library (fuel + 5) id code)
        (rules.map (standardStatement attr)) value store =
        (store, rules.foldlM (Blueprint.Rule.judge ⟨library, store⟩ (store.classOf id) code)
          value) ∨
      ∃ found, Action.through (runStatement library (fuel + 5) id code)
        (rules.map (standardStatement attr)) value store = (store, .error (.fault found)) := by
  induction rules generalizing value with
  | nil => exact .inl rfl
  | cons rule rest ih =>
      rw [List.map_cons, Action.through, Action.bind_apply, List.foldlM_cons]
      rcases runStatement_cases hregular hlive code attr rule value fuel with hrun | ⟨found, hrun⟩
      · rw [hrun]
        cases rule.judge ⟨library, store⟩ (store.classOf id) code value with
        | error refusal => exact .inl rfl
        | ok judged => exact ih judged
      · rw [hrun]
        exact .inr ⟨found, rfl⟩

/-- A setter stores nothing but what its verdict says, and otherwise leaves the store as it is. -/
theorem assign_cases (hstandard : Standard plan item) (hlive : Live library item store id)
    {member : Blueprint.Member} (hmember : member ∈ plan.members) (value : Value) :
    (∃ taken, member.verdict ⟨library, store⟩ (store.classOf id) value = .ok taken ∧
      Instance.assign library id member.field.attr value store =
        (store.put id member.field.attr taken, .ok (.instance id))) ∨
      ∃ refusal, Instance.assign library id member.field.attr value store =
        (store, .error refusal) := by
  cases hrules : member.rules.isEmpty with
  | true =>
      have hempty : member.rules = [] := List.isEmpty_iff.mp hrules
      obtain ⟨fuel, hassign⟩ := assign_eq_writer hstandard hlive hmember hrules value
      rcases findMember_check hstandard.regular hlive .writer with hwrite | ⟨hidden, hwrite⟩ <;>
        rw [Operation.HasName.writer.privateName_eq] at hwrite
      · exact .inl ⟨value, verdict_of_no_rules hempty value,
          by rw [hassign, call_writer (fuel + 5) hwrite]⟩
      · exact .inr ⟨_, by rw [hassign, call_writer_hidden (fuel + 6) hwrite]⟩
  | false =>
      obtain ⟨fuel, hassign⟩ := assign_eq_runSetter hstandard hlive hmember hrules value
      have hthrough := through_cases hstandard.regular hlive (standardSetter member)
        member.field.attr member.rules value (fuel + 1)
      change Action.through _ (standardSetter member).statements value store = _ ∨
        ∃ found, Action.through _ (standardSetter member).statements value store = _ at hthrough
      rw [hassign, runSetter_eq]
      unfold Blueprint.Member.verdict
      simp only
      split
      · exact .inr ⟨_, rfl⟩
      · split
        · exact .inr ⟨_, rfl⟩
        · rcases hthrough with hrun | ⟨found, hrun⟩
          · rw [hrun]
            cases member.rules.foldlM (Blueprint.Rule.judge ⟨library, store⟩ (store.classOf id)
              (standardSetter member)) value with
            | error refusal => exact .inr ⟨refusal, rfl⟩
            | ok taken => exact .inl ⟨taken, rfl, rfl⟩
          · rw [hrun]
            exact .inr ⟨_, rfl⟩

end Setters

end ModelMint
