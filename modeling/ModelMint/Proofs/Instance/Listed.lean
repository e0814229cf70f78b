import ModelMint.Proofs.Instance.Comparison
import ModelMint.Proofs.Instance.Elements
import ModelMint.Proofs.Instance.Limits
import ModelMint.Proofs.Instance.Success
import ModelMint.Proofs.Package.Validity

/-!
# Setters and the allowed values

Every allowed value of a property should be one that its setter takes, as long as the
other constraints of the property admit it.  A setter takes it exactly where the field
holds no moments, since a moment is none of the values that are listed, and where no
constant is in the way of a check and each bound can be written.
-/

namespace ModelMint

open ModelMint.Emit
open ModelMint.Blueprint
open ModelMint.Schema

/-! ## Bounds of numbers -/

/-- A number between the bounds of a property, as far as it has any. -/
structure NumberWithin (property : Property) (value : Value) : Prop where
  number : value.number?.isSome = true
  least : ∀ bound ∈ property.minimum, value.lessNumber (.ofJson bound) = false
  greatest : ∀ bound ∈ property.maximum, Value.lessNumber (.ofJson bound) value = false

/-- A bound that a setter can state: the words for the numbers without a literal stand for the
parameter where it has that name, and then the value is compared with itself. -/
def Statable (attr : String) (value : Value) (bound : Json) : Prop :=
  bound.isFinite = true ∨ bound = .float .nan ∧ attr = undefinedName ∨
    bound = .float (.infinite false) ∧ attr = infinityName ∨
    bound = .float (.infinite true) ∧ attr = infinityName ∧
      ∃ negative, negated value = .ok negative ∧ value.lessNumber negative = false

section Bounds

variable {scene : Scene} {className : String} {code : SetterCode} {value : Value} {bound : Json}

theorem less_eq_lessNumber {store : Store} {other : Value} (hvalue : value.number?.isSome = true)
    (hother : other.number?.isSome = true) :
    store.less value other = .ok (value.lessNumber other) := by
  cases value with
  | bool _ | int _ | float _ =>
      cases other with
      | bool _ | int _ | float _ => rfl
      | _ => cases hother
  | _ => cases hvalue

theorem lessNumber_self (value : Value) : value.lessNumber value = false := by
  unfold Value.lessNumber
  cases value.number? with
  | none => rfl
  | some p =>
      by_cases hp : p = .undefined
      · subst hp
        rfl
      · simp [Binary64.Point.compare_self hp]

theorem setterNames_self (hvalue : value.number?.isSome = true) (check : Member) :
    setterNames className code check value code.attr = some value := by
  have hown : ownBound check value = value := by
    unfold ownBound
    split
    · cases hvalue
    · rfl
  rw [setterNames, beq_self_eq_true, if_pos rfl, hown]

theorem number?_negated {negative : Value} (h : negated value = .ok negative) :
    negative.number?.isSome = true := by
  cases value <;> cases h <;> rfl

/-- A word that is not the name of the parameter stands for a class at most. -/
theorem value_setterNames {name : String} {check : Member} {found : Value}
    (hname : name ≠ code.attr) (h : (setterNames className code check value).value name = .ok found) :
    ∃ known, found = .type known :=
  setterNames_of_ne hname (Scope.value_eq_ok.mp h)

/-- What the setter states for a bound is a number where it can state it as one. -/
theorem literalValue_number {check : Member} {stated : Value}
    (hbound : (∃ number, bound = .int number) ∨ ∃ number, bound = .float number)
    (hvalue : value.number?.isSome = true)
    (h : literalValue (setterNames className code check value) bound = .ok stated)
    (hstated : ∀ known, stated ≠ .type known) :
    bound.isFinite = true ∧ stated = .ofJson bound ∨
      (bound = .float .nan ∧ code.attr = undefinedName ∨
        bound = .float (.infinite false) ∧ code.attr = infinityName) ∧ stated = value ∨
      bound = .float (.infinite true) ∧ code.attr = infinityName ∧ negated value = .ok stated := by
  by_cases hfinite : bound.isFinite = true
  · rw [literalValue_of_isFinite hfinite] at h
    exact .inl ⟨hfinite, (Except.ok.inj h).symm⟩
  · have hword : ∀ {name : String} {found : Value},
        (setterNames className code check value).value name = .ok found →
          (∀ known, found ≠ .type known) → code.attr = name ∧ found = value := by
      intro name found hfound htype
      by_cases hname : name = code.attr
      · subst hname
        rw [Scope.value_eq_ok, setterNames_self hvalue] at hfound
        exact ⟨rfl, (Option.some.inj hfound).symm⟩
      · obtain ⟨known, rfl⟩ := value_setterNames hname hfound
        exact absurd rfl (htype known)
    rcases hbound with ⟨number, rfl⟩ | ⟨number, rfl⟩
    · exact absurd rfl hfinite
    · rw [literalValue] at h
      cases number with
      | finite => exact absurd rfl hfinite
      | nan =>
          obtain ⟨hattr, rfl⟩ := hword h hstated
          exact .inr (.inl ⟨.inl ⟨rfl, hattr⟩, rfl⟩)
      | infinite negative =>
          cases negative with
          | false =>
              obtain ⟨hattr, rfl⟩ := hword h hstated
              exact .inr (.inl ⟨.inr ⟨rfl, hattr⟩, rfl⟩)
          | true =>
              obtain ⟨found, hfound, hnegated⟩ := bind_eq_ok.mp h
              have hnumber : ∀ known, found ≠ .type known := by
                rintro known rfl
                cases hnegated
              obtain ⟨hattr, rfl⟩ := hword hfound hnumber
              exact .inr (.inr ⟨rfl, hattr, hnegated⟩)

/-- What is stated for a bound where it can be stated, and the value is on the right side of it. -/
theorem literalValue_statable {check : Member} (hvalue : value.number?.isSome = true)
    (h : Statable code.attr value bound) :
    ∃ stated, literalValue (setterNames className code check value) bound = .ok stated ∧
      (stated = .ofJson bound ∨ stated = value ∨
        bound = .float (.infinite true) ∧ stated.number?.isSome = true ∧
          value.lessNumber stated = false) := by
  have hself : (setterNames className code check value).value code.attr = .ok value :=
    Scope.value_eq_ok.mpr (setterNames_self hvalue check)
  rcases h with hfinite | ⟨rfl, hattr⟩ | ⟨rfl, hattr⟩ | ⟨rfl, hattr, negative, hnegative, hless⟩
  · exact ⟨_, literalValue_of_isFinite hfinite, .inl rfl⟩
  · refine ⟨value, ?_, .inr (.inl rfl)⟩
    rw [literalValue, floatValue, ← hattr, hself]
  · refine ⟨value, ?_, .inr (.inl rfl)⟩
    rw [literalValue, floatValue, ← hattr, hself]
  · refine ⟨negative, ?_, .inr (.inr ⟨rfl, number?_negated hnegative, hless⟩)⟩
    rw [literalValue, floatValue, ← hattr, hself]
    exact hnegative

theorem below_of_number {least : Value} (hleast : least.number?.isSome = true) :
    scene.below value least = scene.store.less value least := by
  cases least <;> first
    | rfl
    | cases hleast

theorem above_of_number {greatest : Value} (hgreatest : greatest.number?.isSome = true) :
    scene.above value greatest = scene.store.less greatest value := by
  cases greatest <;> first
    | rfl
    | cases hgreatest

theorem number?_ofJson (hbound : (∃ number, bound = .int number) ∨ ∃ number, bound = .float number) :
    (Value.ofJson bound).number?.isSome = true := by
  rcases hbound with ⟨number, rfl⟩ | ⟨number, rfl⟩ <;> rfl

/-- A least value that a number is not below keeps it out only where it can not be stated. -/
theorem below_iff_statable {check : Member} {minimum : Option Json} (hminimum : Numeric minimum)
    (hvalue : value.number?.isSome = true)
    (hwithin : ∀ bound ∈ minimum, value.lessNumber (.ofJson bound) = false) :
    (∃ least, literalValue (setterNames className code check value) (minimum.getD .null) =
        .ok least ∧ scene.below value least = .ok false) ↔
      ∀ bound ∈ minimum, Statable code.attr value bound := by
  cases minimum with
  | none => simp [literalValue, Value.ofJson, Scene.below]
  | some bound =>
      have hnumber := hminimum bound rfl
      simp only [Option.getD_some, Option.mem_some_iff, forall_eq'] at hwithin ⊢
      constructor
      · rintro ⟨least, hliteral, hbelow⟩
        have htype : ∀ known, least ≠ .type known := by
          rintro known rfl
          exact absurd ((less_type scene.store value known).1.symm.trans hbelow) (by simp)
        rcases literalValue_number hnumber hvalue hliteral htype with
          ⟨hfinite, -⟩ | ⟨hword | hword, -⟩ | ⟨hword, hattr, hnegated⟩
        · exact .inl hfinite
        · exact .inr (.inl hword)
        · exact .inr (.inr (.inl hword))
        · have hleast := number?_negated hnegated
          rw [below_of_number hleast, less_eq_lessNumber hvalue hleast] at hbelow
          exact .inr (.inr (.inr ⟨hword, hattr, least, hnegated, Except.ok.inj hbelow⟩))
      · intro hstatable
        obtain ⟨least, hliteral, hcases⟩ : ∃ least,
            literalValue (setterNames className code check value) bound = .ok least ∧ _ :=
          literalValue_statable hvalue hstatable
        have hleast : least.number?.isSome = true ∧ value.lessNumber least = false := by
          rcases hcases with rfl | rfl | ⟨-, hleast, hless⟩
          · exact ⟨number?_ofJson hnumber, hwithin⟩
          · exact ⟨hvalue, lessNumber_self _⟩
          · exact ⟨hleast, hless⟩
        refine ⟨least, hliteral, ?_⟩
        rw [below_of_number hleast.1, less_eq_lessNumber hvalue hleast.1, hleast.2]

/-- A greatest value that a number is not above keeps it out only where it can not be stated. -/
theorem above_iff_statable {check : Member} {maximum : Option Json} (hmaximum : Numeric maximum)
    (hvalue : value.number?.isSome = true)
    (hwithin : ∀ bound ∈ maximum, Value.lessNumber (.ofJson bound) value = false)
    (hleast : Value.lessNumber (.float (.infinite true)) value = true) :
    (∃ greatest, literalValue (setterNames className code check value) (maximum.getD .null) =
        .ok greatest ∧ scene.above value greatest = .ok false) ↔
      ∀ bound ∈ maximum, Statable code.attr value bound := by
  cases maximum with
  | none => simp [literalValue, Value.ofJson, Scene.above]
  | some bound =>
      have hnumber := hmaximum bound rfl
      simp only [Option.getD_some, Option.mem_some_iff, forall_eq'] at hwithin ⊢
      have hfloor : bound ≠ .float (.infinite true) := by
        rintro rfl
        exact absurd (hleast.symm.trans hwithin) (by simp)
      constructor
      · rintro ⟨greatest, hliteral, habove⟩
        have htype : ∀ known, greatest ≠ .type known := by
          rintro known rfl
          exact absurd ((less_type scene.store value known).2.symm.trans habove) (by simp)
        rcases literalValue_number hnumber hvalue hliteral htype with
          ⟨hfinite, -⟩ | ⟨hword | hword, -⟩ | ⟨hword, -⟩
        · exact .inl hfinite
        · exact .inr (.inl hword)
        · exact .inr (.inr (.inl hword))
        · exact absurd hword hfloor
      · intro hstatable
        obtain ⟨greatest, hliteral, hcases⟩ : ∃ greatest,
            literalValue (setterNames className code check value) bound = .ok greatest ∧ _ :=
          literalValue_statable hvalue hstatable
        have hgreatest : greatest.number?.isSome = true ∧ greatest.lessNumber value = false := by
          rcases hcases with rfl | rfl | ⟨hword, -⟩
          · exact ⟨number?_ofJson hnumber, hwithin⟩
          · exact ⟨hvalue, lessNumber_self _⟩
          · exact absurd hword hfloor
        refine ⟨greatest, hliteral, ?_⟩
        rw [above_of_number hgreatest.1, less_eq_lessNumber hgreatest.1 hvalue, hgreatest.2]

theorem lessNumber_floor {listed : Json} (hnumber : (Value.ofJson listed).number?.isSome = true)
    (hfinite : listed.isFinite = true) :
    Value.lessNumber (.float (.infinite true)) (.ofJson listed) = true := by
  cases listed with
  | bool _ | int _ => rfl
  | float number =>
      cases number with
      | finite => rfl
      | _ => cases hfinite
  | _ => cases hnumber

/-- A number within its bounds is let through where both can be stated. -/
theorem judge_number_eq_ok {property : Property} {measure : Measure} (hmeasure : measure ≠ .length)
    (hminimum : Numeric property.minimum) (hmaximum : Numeric property.maximum) {listed : Json}
    (hfinite : listed.isFinite = true) (hwithin : NumberWithin property (.ofJson listed))
    {taken : Value} :
    (Rule.within measure property.minimum property.maximum).judge scene className code
        (.ofJson listed) = .ok taken ↔
      taken = .ofJson listed ∧
        (∀ bound ∈ property.minimum, Statable code.attr (.ofJson listed) bound) ∧
          ∀ bound ∈ property.maximum, Statable code.attr (.ofJson listed) bound := by
  have hmeasured : measured measure (.ofJson listed) = .ok (.ofJson listed) := by
    cases measure <;> first | rfl | exact absurd rfl hmeasure
  have hleast : (∃ least, literalValue (setterNames className code
        (.operation (measureOperation measure)) (.ofJson listed)) (property.minimum.getD .null) =
          .ok least ∧ scene.below (.ofJson listed) least = .ok false) ↔ _ :=
    below_iff_statable hminimum hwithin.number hwithin.least
  have hgreatest : (∃ greatest, literalValue (setterNames className code
        (.operation (measureOperation measure)) (.ofJson listed)) (property.maximum.getD .null) =
          .ok greatest ∧ scene.above (.ofJson listed) greatest = .ok false) ↔ _ :=
    above_iff_statable hmaximum hwithin.number hwithin.greatest
      (lessNumber_floor hwithin.number hfinite)
  rw [judge_within_eq_ok, ← hleast, ← hgreatest]
  refine and_congr_right fun _ => ?_
  constructor
  · rintro ⟨least, greatest, quantity, hleast, hgreatest, hquantity, houtside⟩
    obtain rfl := Except.ok.inj (hmeasured.symm.trans hquantity)
    obtain ⟨hbelow, habove⟩ := isOutside_eq_false.mp houtside
    exact ⟨⟨least, hleast, hbelow⟩, ⟨greatest, hgreatest, habove⟩⟩
  · rintro ⟨⟨least, hleast, hbelow⟩, ⟨greatest, hgreatest, habove⟩⟩
    exact ⟨least, greatest, _, hleast, hgreatest, hmeasured,
      isOutside_eq_false.mpr ⟨hbelow, habove⟩⟩

end Bounds

/-! ## Allowed values -/

section Allowed

variable {scene : Scene} {className : String} {code : SetterCode} {values : List Json}
  {listed : Json} {taken : Value}

theorem isFinite_of_mem (hfinite : Json.itemsFinite values = true) (hlisted : listed ∈ values) :
    listed.isFinite = true := itemsFinite_iff.mp hfinite listed hlisted

theorem contains_of_mem (store : Store) (hlisted : listed ∈ values)
    (hself : listed.alike listed = true) :
    store.contains (.ofJson listed) (.list (Value.ofItems values)) = .ok true := by
  unfold Store.contains
  simp only
  induction values with
  | nil => cases hlisted
  | cons first rest ih =>
      rw [Value.ofItems, Store.anySame, same_ofJson]
      cases hfirst : listed.alike first with
      | true => rfl
      | false =>
          rcases List.mem_cons.mp hlisted with rfl | hlater
          · rw [hself] at hfirst
            cases hfirst
          · exact ih hlater

theorem judge_oneOf_of_mem (hfinite : Json.itemsFinite values = true) (hlisted : listed ∈ values)
    (hkeyed : listed.isKeyed = true) :
    (Rule.oneOf values).judge scene className code (.ofJson listed) = .ok (.ofJson listed) := by
  refine judge_oneOf_eq_ok.mpr ⟨rfl, .list (Value.ofItems values), ?_, ?_⟩
  · rw [literalValue_of_isFinite (by rw [Json.isFinite]; exact hfinite), Value.ofJson]
  · exact contains_of_mem scene.store hlisted
      (Json.alike_self hkeyed (isFinite_of_mem hfinite hlisted))

theorem moment_not_listed (hfinite : Json.itemsFinite values = true) (moment : Moment) :
    (Rule.oneOf values).judge scene className code (.moment moment) ≠ .ok taken := by
  intro h
  obtain rfl := (judge_oneOf_eq_ok.mp h).1
  obtain ⟨allowed, -, hsame⟩ := exists_same_of_judge hfinite h
  have hstore := hsame {}
  cases allowed <;> cases hstore

/-- Rules that hand a value on let it through where each of them does. -/
theorem foldlM_judge_eq_ok {rules : List Rule} (hrules : ∀ rule ∈ rules, rule ≠ .moment)
    {value : Value} :
    rules.foldlM (Blueprint.Rule.judge scene className code) value = .ok taken ↔
      taken = value ∧ ∀ rule ∈ rules, rule.judge scene className code value = .ok value := by
  constructor
  · intro h
    obtain rfl := foldlM_judge_eq_self hrules h
    exact ⟨rfl, judge_of_foldlM hrules h⟩
  · rintro ⟨rfl, hall⟩
    clear hrules
    induction rules with
    | nil => rfl
    | cons rule rest ih =>
        obtain ⟨hrule, hrest⟩ := List.forall_mem_cons.mp hall
        rw [List.foldlM_cons, hrule]
        exact ih hrest

end Allowed

/-! ## Admitted values -/

/-- A value that the constraints of a property other than its list admit.  An array of instances
admits only what has no elements, since no decoded value has an instance in it. -/
structure Admitted (property : Property) (field : Field) (value : Value) : Prop where
  elements : property.isReference = true → field.isArray = true → value.elements = .ok []
  length : field.isArray = true → property.hasItemBounds = true →
    ∃ length, value.length = .ok length ∧ LengthWithin property length
  number : field.isNumber = true → property.hasNumericBounds = true → NumberWithin property value
  moment : property.isDateTime = true → value.moment?.isSome = true

/-- No constant of the class has the name. -/
def Blueprint.Plan.Leaves (plan : Plan) (name : String) : Prop :=
  ∀ constant ∈ plan.constants, constant.name ≠ name

/-- The check of a field of numbers. -/
def Blueprint.Field.numberCheck (field : Field) : String :=
  boundsOperation (if field.storage == some TypeName.int then .integer else .float)

/-- Whether the setter of a property lets an allowed value through. -/
structure ListedClear (library : Library) (root : Json) (plan : Plan) (property : Property)
    (field : Field) (value : Value) : Prop where
  moment : field.isMoment = false
  choice : plan.Leaves "_check_enum_bounds"
  elements : property.isReference = true → field.isArray = true →
    ∀ resolved, resolveProperty root property = .ok resolved →
      plan.Leaves "_check_if_pure_array" ∧ TypeName.ofSchema resolved.name ≠ receiverName ∧
        (library.find? (privateName plan.name (TypeName.ofSchema resolved.name))).isSome = true
  length : field.isArray = true → property.hasItemBounds = true →
    FiniteItemBounds property ∧ plan.Leaves "_check_array_bounds"
  number : field.isNumber = true → property.hasNumericBounds = true →
    ((∀ bound ∈ property.minimum, Statable field.attr value bound) ∧
      ∀ bound ∈ property.maximum, Statable field.attr value bound) ∧
    plan.Leaves field.numberCheck ∧ plan.Leaves numberCheckName

/-! ## Rules of a member -/

/-- A rule that hands the value on and finds the operations that it goes by. -/
def LoadedClass.Lets (item : LoadedClass) (scene : Scene) (className : String) (code : SetterCode)
    (value : Value) (rule : Rule) : Prop :=
  rule.judge scene className code value = .ok value ∧ item.Serves rule

section Members

variable {library : Library} {item : LoadedClass} {plan : Plan} {document : Document}
  {required : List String} {property : Property} {member : Blueprint.Member} {scene : Scene}
  {className key : String} {values : List Json} {listed : Json}

/-- A setter does without its receiver's name exactly where its elements are not of that name. -/
theorem givesName_receiver_iff (hattr : member.field.attr ≠ receiverName) :
    (standardSetter member).statements.any (givesName receiverName) = true ↔
      Rule.elements receiverName ∈ member.rules := by
  rw [standardSetter, List.any_map, List.any_eq_true]
  constructor
  · rintro ⟨rule, hrule, hgives⟩
    cases rule with
    | elements expected =>
        simp only [Function.comp_apply, standardStatement, givesName, Bool.and_eq_true,
          beq_iff_eq] at hgives
        rw [hgives.1] at hrule
        exact hrule
    | _ => cases hgives
  · intro hrule
    refine ⟨_, hrule, ?_⟩
    simp [standardStatement, givesName, hattr.symm]

theorem importable_iff {rules : List Rule} :
    importable library className rules = true ↔ ∀ expected, Rule.elements expected ∈ rules →
      (library.find? (privateName className expected)).isSome = true := by
  unfold importable
  rw [List.all_eq_true]
  constructor
  · exact fun h expected hrule => h _ hrule
  · intro h rule hrule
    cases rule with
    | elements expected => exact h expected hrule
    | _ => rfl

theorem verdict_eq_ok_iff {value taken : Value} :
    member.verdict scene className value = .ok taken ↔
      importable scene.library className member.rules = true ∧
        (standardSetter member).statements.any (givesName receiverName) = false ∧
        member.rules.foldlM (Blueprint.Rule.judge scene className (standardSetter member)) value =
          .ok taken := by
  unfold Blueprint.Member.verdict
  simp only
  cases importable scene.library className member.rules <;>
    cases (standardSetter member).statements.any (givesName receiverName) <;> simp

/-- The elements are checked of an array whose items refer to a definition. -/
theorem mem_elementRules_iff {root : Json} {storage : Option String} {elements : List Rule}
    (hstorage : storageType root property = .ok storage)
    (helements : elementRules root property = .ok elements) {expected : String} :
    Rule.elements expected ∈ elements ↔ property.isReference = true ∧
      storage = some TypeName.list ∧ ∃ resolved,
        resolveProperty root property = .ok resolved ∧ expected = TypeName.ofSchema resolved.name := by
  constructor
  · intro hmem
    rcases elementRules_eq_ok helements with rfl | ⟨href, hlist, resolved, hresolved, rfl⟩
    · cases hmem
    · refine ⟨href, Except.ok.inj (hstorage.symm.trans hlist), resolved, hresolved, ?_⟩
      simpa using hmem
  · rintro ⟨href, rfl, resolved, hresolved, rfl⟩
    obtain ⟨found, hfound, rfl⟩ := elementRules_of_list href hstorage helements
    obtain rfl := Except.ok.inj (hresolved.symm.trans hfound)
    exact List.mem_singleton_self _

section Groups

variable {module : ClassModule} (hload : LoadedClass.load module = .ok item)
  (hconstants : module.constants = plan.constants)
include hload hconstants

theorem serves_iff {rule : Rule} : item.Serves rule ↔ ∀ name ∈ rule.operations, plan.Leaves name := by
  have hnames : ∀ name ∈ rule.operations, name ≠ LoadedClass.tableName ∧
      ¬ ['_', '_'] <+: name.toList ∧ (baseMember? name).isSome = true := by
    cases rule with
    | within measure minimum maximum =>
        cases measure <;> simp only [Blueprint.Rule.operations, boundsOperation] <;> decide
    | _ => simp only [Blueprint.Rule.operations]; decide
  unfold LoadedClass.Serves Blueprint.Plan.Leaves
  rw [← hconstants]
  refine forall₂_congr fun name hname => ?_
  obtain ⟨htable, hprivate, hbase⟩ := hnames name hname
  exact constant_eq_none_iff hload htable hprivate hbase

theorem lets_elements_iff {root : Json} {storage : Option String} {elements : List Rule}
    {code : SetterCode} (hstorage : storageType root property = .ok storage)
    (helements : elementRules root property = .ok elements)
    (hempty : property.isReference = true → (storage == some TypeName.list) = true →
      (Value.ofJson listed).elements = .ok []) :
    (∀ rule ∈ elements, item.Lets scene className code (.ofJson listed) rule) ↔
      ∀ expected, Rule.elements expected ∈ elements → plan.Leaves "_check_if_pure_array" := by
  have hone : ∀ expected, Rule.elements expected ∈ elements →
      (item.Lets scene className code (.ofJson listed) (.elements expected) ↔
        plan.Leaves "_check_if_pure_array") := by
    intro expected hrule
    obtain ⟨href, rfl, -⟩ := (mem_elementRules_iff hstorage helements).mp hrule
    unfold LoadedClass.Lets
    rw [judge_elements_eq_ok, serves_iff hload hconstants, Blueprint.Rule.operations,
      List.forall_mem_singleton]
    exact and_iff_right ⟨rfl, [], hempty href rfl, by simp⟩
  constructor
  · exact fun h expected hrule => (hone expected hrule).mp (h _ hrule)
  · intro h rule hrule
    obtain ⟨expected, rfl⟩ := elements_of_mem_elementRules helements hrule
    exact (hone expected hrule).mpr (h expected hrule)

theorem lets_choice_iff {code : SetterCode} (hfinite : Json.itemsFinite values = true)
    (hlisted : listed ∈ values) (hkeyed : listed.isKeyed = true) :
    item.Lets scene className code (.ofJson listed) (.oneOf values) ↔
      plan.Leaves "_check_enum_bounds" := by
  unfold LoadedClass.Lets
  rw [judge_oneOf_of_mem hfinite hlisted hkeyed, serves_iff hload hconstants,
    Blueprint.Rule.operations, List.forall_mem_singleton]
  exact and_iff_right rfl

variable (hread : PropertyRead key property) {field : Field}
  (hadmitted : Admitted property field (.ofJson listed))
include hread hadmitted

theorem lets_length_iff {code : SetterCode} :
    (∀ rule ∈ lengthRules field.storage property,
        item.Lets scene className code (.ofJson listed) rule) ↔
      (field.isArray = true → property.hasItemBounds = true →
        FiniteItemBounds property ∧ plan.Leaves "_check_array_bounds") := by
  unfold lengthRules
  split
  next h =>
    obtain ⟨harray, hbounds⟩ := Bool.and_eq_true_iff.mp h
    obtain ⟨length, hlength, hwithin⟩ := hadmitted.length harray hbounds
    rw [List.forall_mem_singleton, LoadedClass.Lets, serves_iff hload hconstants,
      judge_length_eq_ok hlength hread.minItems hread.maxItems, Blueprint.Rule.operations,
      List.forall_mem_singleton]
    constructor
    · rintro ⟨⟨-, hfinite, -⟩, hleaves⟩ - -
      exact ⟨hfinite, hleaves⟩
    · intro hclear
      obtain ⟨hfinite, hleaves⟩ := hclear harray hbounds
      exact ⟨⟨rfl, hfinite, hwithin⟩, hleaves⟩
  next h =>
    refine iff_of_true (by simp) fun harray hbounds => absurd ?_ h
    rw [hbounds, Bool.and_true]
    exact harray

theorem lets_bounds_iff {code : SetterCode} (hfinite : listed.isFinite = true)
    (hattr : code.attr = field.attr) :
    (∀ rule ∈ boundRules field.storage property,
        item.Lets scene className code (.ofJson listed) rule) ↔
      (field.isNumber = true → property.hasNumericBounds = true →
        ((∀ bound ∈ property.minimum, Statable field.attr (.ofJson listed) bound) ∧
          ∀ bound ∈ property.maximum, Statable field.attr (.ofJson listed) bound) ∧
        plan.Leaves field.numberCheck ∧ plan.Leaves numberCheckName) := by
  have hone : ∀ measure, measure ≠ .length → boundsOperation measure = field.numberCheck →
      field.isNumber = true → property.hasNumericBounds = true →
      (item.Lets scene className code (.ofJson listed)
          (.within measure property.minimum property.maximum) ↔
        ((∀ bound ∈ property.minimum, Statable field.attr (.ofJson listed) bound) ∧
          ∀ bound ∈ property.maximum, Statable field.attr (.ofJson listed) bound) ∧
        plan.Leaves field.numberCheck ∧ plan.Leaves numberCheckName) := by
    intro measure hmeasure hcheck hnumber hbounds
    have hoperations : (Rule.within measure property.minimum property.maximum).operations =
        [field.numberCheck, numberCheckName] := by
      rw [← hcheck]
      cases measure <;> first | rfl | exact absurd rfl hmeasure
    rw [LoadedClass.Lets, serves_iff hload hconstants, hoperations,
      judge_number_eq_ok hmeasure hread.minimum hread.maximum hfinite
        (hadmitted.number hnumber hbounds), hattr]
    simp
  unfold boundRules
  unfold Blueprint.Field.numberCheck Blueprint.Field.isNumber at *
  split
  next h => exact iff_of_true (by simp) fun _ hbounds => by simp [hbounds] at h
  next h =>
    have hbounds : property.hasNumericBounds = true := by simpa using h
    split
    next hint =>
      rw [List.forall_mem_singleton, hone .integer Measure.noConfusion (by simp [hint])
        (by simp [hint]) hbounds]
      simp [hint, hbounds]
    next hint =>
      split
      next hfloat =>
        rw [List.forall_mem_singleton, hone .float Measure.noConfusion (by simp [hint])
          (by simp [hfloat]) hbounds]
        simp [hint, hfloat, hbounds]
      next hfloat => exact iff_of_true (by simp) fun hnumber => by simp [hint, hfloat] at hnumber

end Groups

/-! ## Setters of allowed values -/

/-- Where a field holds moments, its setter takes none of the allowed values, nor any other. -/
theorem verdict_of_isMoment (hplanned : MemberPlanned document required property member)
    (henum : property.enum = some values) (hfinite : Json.itemsFinite values = true)
    (hmoment : member.field.isMoment = true) {value taken : Value} :
    member.verdict scene className value ≠ .ok taken := by
  intro hverdict
  obtain ⟨rfl, hparsed⟩ := verdict_eq_stored hplanned hverdict
  obtain ⟨moment, hfound⟩ := Option.isSome_iff_exists.mp (hparsed hmoment)
  have hstored : member.field.stored value = .moment moment := by
    simp [Blueprint.Field.stored, hmoment, hfound]
  have hjudged := judge_oneOf_of_foldlM hplanned henum (foldlM_of_verdict hverdict)
  rw [hstored] at hjudged
  exact moment_not_listed hfinite moment hjudged

theorem no_moment_rule (hplanned : MemberPlanned document required property member)
    (hmoment : member.field.isMoment = false) : ∀ rule ∈ member.rules, rule ≠ .moment := by
  obtain ⟨before, after, hrules, hbefore, hafter⟩ := rules_eq hplanned
  have hnone : momentRules member.field.storage = [] := by
    unfold momentRules
    exact if_neg (by simpa [Blueprint.Field.isMoment] using hmoment)
  rw [hrules, hnone, List.append_nil]
  exact fun rule hrule => (List.mem_append.mp hrule).elim (hbefore rule) (hafter rule)

/-- Apart from moments, a setter stores what it is given, if every rule lets it through. -/
theorem assign_eq_ok_of_no_moment {store after : Store} {id : Nat} {value reply : Value}
    (hstandard : Standard plan item) (hlive : Live library item store id)
    (hmember : member ∈ plan.members) (hrules : member.rules ≠ [])
    (hmoment : ∀ rule ∈ member.rules, rule ≠ .moment) (hattr : member.field.attr ≠ receiverName) :
    Instance.assign library id member.field.attr value store = (after, .ok reply) ↔
      (∀ expected, Rule.elements expected ∈ member.rules → expected ≠ receiverName ∧
        (library.find? (privateName (store.classOf id) expected)).isSome = true) ∧
      (∀ rule ∈ member.rules,
        item.Lets ⟨library, store⟩ (store.classOf id) (standardSetter member) value rule) ∧
      after = store.put id member.field.attr value ∧ reply = .instance id := by
  rw [assign_eq_ok hstandard hlive hmember hrules]
  simp only [verdict_eq_ok_iff, foldlM_judge_eq_ok hmoment, importable_iff, ← Bool.not_eq_true,
    givesName_receiver_iff hattr]
  constructor
  · rintro ⟨taken, ⟨himport, hself, rfl, hjudged⟩, hserves, hafter, hreply⟩
    refine ⟨fun expected hrule => ⟨?_, himport expected hrule⟩,
      fun rule hrule => ⟨hjudged rule hrule, hserves rule hrule⟩, hafter, hreply⟩
    rintro rfl
    exact hself hrule
  · rintro ⟨hclasses, hlets, hafter, hreply⟩
    exact ⟨value, ⟨fun expected hrule => (hclasses expected hrule).2,
      fun hself => (hclasses _ hself).1 rfl, rfl, fun rule hrule => (hlets rule hrule).1⟩,
      fun rule hrule => (hlets rule hrule).2, hafter, hreply⟩

end Members

/-- An allowed value that the other constraints admit is taken exactly where nothing is in the
way, and then it is stored as it is. -/
theorem assign_listed {library : Library} {item : LoadedClass} {plan : Plan} {document : Document}
    {required : List String} {property : Property} {member : Blueprint.Member} {module : ClassModule}
    {key : String} {values : List Json} {listed : Json} {store : Store} {id : Nat}
    (hload : LoadedClass.load module = .ok item) (hconstants : module.constants = plan.constants)
    (hstandard : Standard plan item) (hlive : Live library item store id)
    (hname : store.classOf id = plan.name) (hmember : member ∈ plan.members)
    (hplanned : MemberPlanned document required property member)
    (hread : PropertyRead key property) (henum : property.enum = some values)
    (hfinite : Json.itemsFinite values = true) (hlisted : listed ∈ values)
    (hkeyed : listed.isKeyed = true)
    (hadmitted : Admitted property member.field (.ofJson listed)) {after : Store} {reply : Value} :
    Instance.assign library id member.field.attr (.ofJson listed) store = (after, .ok reply) ↔
      ListedClear library document.raw plan property member.field (.ofJson listed) ∧
        after = store.put id member.field.attr (.ofJson listed) ∧ reply = .instance id := by
  obtain ⟨storage, elements, hstorage, helements, hrules⟩ := rulesOf_eq_ok hplanned.rules
  obtain rfl : member.field.storage = storage :=
    Except.ok.inj (hplanned.field.storage.symm.trans hstorage)
  have hlast : Rule.oneOf values ∈ member.rules := by
    rw [hrules]
    simp [otherRules, valueRules, henum]
  cases hmoment : member.field.isMoment with
  | true =>
      rw [assign_eq_ok hstandard hlive hmember (List.ne_nil_of_mem hlast)]
      constructor
      · rintro ⟨taken, hverdict, -⟩
        exact absurd hverdict (verdict_of_isMoment hplanned henum hfinite hmoment)
      · rintro ⟨hclear, -⟩
        rw [hclear.moment] at hmoment
        cases hmoment
  | false =>
      have hnone : momentRules member.field.storage = [] := by
        unfold momentRules
        exact if_neg (by simpa [Blueprint.Field.isMoment] using hmoment)
      have hall : ∀ P : Rule → Prop, (∀ rule ∈ member.rules, P rule) ↔
          (∀ rule ∈ elements, P rule) ∧ (∀ rule ∈ lengthRules member.field.storage property, P rule) ∧
            (∀ rule ∈ boundRules member.field.storage property, P rule) ∧ P (.oneOf values) := by
        intro P
        rw [hrules, otherRules, hnone, List.append_nil]
        simp only [List.forall_mem_append, valueRules, henum, Option.map_some, Option.toList_some,
          List.forall_mem_singleton, and_assoc]
      have hchecked : ∀ expected, Rule.elements expected ∈ member.rules ↔
          Rule.elements expected ∈ elements := by
        intro expected
        rw [hrules, List.mem_append]
        exact or_iff_left not_elements_mem_otherRules
      rw [assign_eq_ok_of_no_moment hstandard hlive hmember (List.ne_nil_of_mem hlast)
        (no_moment_rule hplanned hmoment) (attr_ne_receiver hplanned), hall,
        lets_elements_iff hload hconstants hstorage helements hadmitted.elements,
        lets_length_iff hload hconstants hread hadmitted,
        lets_bounds_iff hload hconstants hread hadmitted (isFinite_of_mem hfinite hlisted) rfl,
        lets_choice_iff hload hconstants hfinite hlisted hkeyed, hname]
      simp only [hchecked, mem_elementRules_iff hstorage helements]
      constructor
      · rintro ⟨hclasses, ⟨hleaves, hlength, hbounds, hchoice⟩, hstored⟩
        refine ⟨⟨hmoment, hchoice, ?_, hlength, hbounds⟩, hstored⟩
        intro href harray resolved hresolved
        have hrule : property.isReference = true ∧ member.field.storage = some TypeName.list ∧
            ∃ found, resolveProperty document.raw property = .ok found ∧
              TypeName.ofSchema resolved.name = TypeName.ofSchema found.name :=
          ⟨href, by simpa [Blueprint.Field.isArray] using harray, resolved, hresolved, rfl⟩
        exact ⟨hleaves _ hrule, hclasses _ hrule⟩
      · rintro ⟨hclear, hstored⟩
        have helement : ∀ expected, (property.isReference = true ∧
            member.field.storage = some TypeName.list ∧ ∃ resolved,
              resolveProperty document.raw property = .ok resolved ∧
                expected = TypeName.ofSchema resolved.name) →
            plan.Leaves "_check_if_pure_array" ∧ expected ≠ receiverName ∧
              (library.find? (privateName plan.name expected)).isSome = true := by
          rintro expected ⟨href, hlist, resolved, hresolved, rfl⟩
          exact hclear.elements href (by simp [Blueprint.Field.isArray, hlist]) resolved hresolved
        exact ⟨fun expected hrule => (helement expected hrule).2,
          ⟨fun expected hrule => (helement expected hrule).1, hclear.length, hclear.number,
            hclear.choice⟩, hstored⟩

/-- The setter of a property takes an allowed value that its other constraints admit exactly where
the field holds no moments and nothing gets in the way of its checks, and then stores it as it is. -/
theorem listed_values_taken_iff {settings : Settings} {comment schema : Json} {run : Package.Run}
    {document : Document} {definition : Definition} {plan : Plan} {module : ClassModule}
    (h : Package.Faithful settings comment schema run document definition plan module)
    (hbase : settings.base = {}) {item : LoadedClass} (hload : LoadedClass.load module = .ok item)
    {library : Library} (hfind : library.find? module.name = some item) {key : String}
    {property : Property} {member : Blueprint.Member}
    (hpair : ((key, property), member) ∈ definition.properties.zip plan.members)
    {values : List Json} (henum : property.enum = some values) {listed : Json}
    (hlisted : listed ∈ values) (hkeyed : listed.isKeyed = true)
    (hadmitted : Admitted property member.field (.ofJson listed)) {store : Store} {id : Nat}
    (hlive : Live library item store id) (hname : store.classOf id = module.name) :
    ((∃ after reply, Instance.assign library id member.field.attr (.ofJson listed) store =
        (after, .ok reply)) ↔
      ListedClear library document.raw plan property member.field (.ofJson listed)) ∧
    (ListedClear library document.raw plan property member.field (.ofJson listed) →
      Instance.assign library id member.field.attr (.ofJson listed) store =
        (store.put id member.field.attr (.ofJson listed), .ok (.instance id))) := by
  have hplanned : MemberPlanned document definition.required property member :=
    Blueprint.Member.ofProperty_eq_ok (List.forall₂_zip h.origin.planned_members.members hpair)
  obtain ⟨hentry, hmember⟩ := List.of_mem_zip hpair
  have hstandard := h.origin.standard_class hbase hload
  have hfinite := itemsFinite_of_origin h.origin hbase hload hmember hplanned values henum
  obtain ⟨lines, rfl⟩ := h.origin.standard hbase
  have hassign : ∀ after reply, Instance.assign library id member.field.attr (.ofJson listed) store =
      (after, .ok reply) ↔ _ := fun after reply =>
    assign_listed hload rfl hstandard hlive hname hmember hplanned (h.origin.property_read hentry)
      henum hfinite hlisted hkeyed hadmitted
  refine ⟨⟨?_, fun hclear => ⟨_, _, (hassign _ _).mpr ⟨hclear, rfl, rfl⟩⟩⟩,
    fun hclear => (hassign _ _).mpr ⟨hclear, rfl, rfl⟩⟩
  rintro ⟨after, reply, htaken⟩
  exact ((hassign after reply).mp htaken).1

/-! ## Stays of one property -/

/-- Stays that have the one property with allowed values. -/
def choiceSchema (name : String) (keywords : List (String × Json)) : Json :=
  .obj [("definitions", .obj [("Stay", .obj [("properties", .obj [(name, .obj keywords)])])])]

def choiceRun (name : String) (keywords : List (String × Json)) : Package.Run :=
  Package.runOf Package.uncheckedSettings .null (choiceSchema name keywords)

def choiceDefinition (property : Property) : Definition where
  name := "Stay"
  properties := [(property.name, property)]
  path := "#/definitions/Stay"

def choicePlan (member : Blueprint.Member) : Plan where
  name := "Stay"
  path := "#/definitions/Stay"
  members := [member]

def choiceClass (member : Blueprint.Member) : LoadedClass :=
  match LoadedClass.load (standardModule [] (choicePlan member)) with
  | .ok item => item
  | .error _ => { name := "Stay" }

/-- One stay. -/
def choiceStore : Store where
  instances := [{ className := "Stay" }]

theorem choice_live (member : Blueprint.Member) :
    Live [("Stay", choiceClass member)] (choiceClass member) choiceStore 0 := by
  refine ⟨by decide, rfl, fun attr hattr => ?_⟩
  cases hattr

def nightsKeywords : List (String × Json) :=
  [("type", .str "integer"), ("minimum", .int 1), ("enum", .arr [.int 1, .int 2, .int 3])]

def nightsProperty : Property where
  name := "nights"
  type := some "integer"
  minimum := some (.int 1)
  enum := some [.int 1, .int 2, .int 3]
  path := "#/definitions/Stay/properties/nights"

def nightsMember : Blueprint.Member where
  field := {
    name := "nights", attr := "nights", storage := some TypeName.int,
    documented := some TypeName.int, initial := .absent }
  rules := [.within .integer (some (.int 1)) none, .oneOf [.int 1, .int 2, .int 3]]
  constants := constantsOf "nights" [.int 1, .int 2, .int 3]

theorem nights_faithful : Package.Faithful Package.uncheckedSettings .null
    (choiceSchema "nights" nightsKeywords) (choiceRun "nights" nightsKeywords)
    ⟨choiceSchema "nights" nightsKeywords, [("Stay", .ok (choiceDefinition nightsProperty))]⟩
    (choiceDefinition nightsProperty) (choicePlan nightsMember)
    (standardModule [] (choicePlan nightsMember)) where
  generated := rfl
  made := List.mem_cons_self
  origin := ⟨rfl, rfl, rfl, ⟨[], rfl, rfl⟩, rfl⟩
  base := ⟨by decide, by decide, by decide⟩
  comment := by
    rintro lines ⟨⟩
    nofun
  types := by
    rintro entry hentry
    obtain rfl := List.mem_singleton.mp hentry
    refine ⟨?_, fun resolved hresolved => by cases hresolved⟩
    rintro name ⟨⟩
    exact Emit.typeExpression_name (by decide)

theorem listed_values_taken_iff_nights :
    Instance.assign [("Stay", choiceClass nightsMember)] 0 "nights" (.int 2) choiceStore =
      (choiceStore.put 0 "nights" (.int 2), .ok (.instance 0)) := by
  have hadmitted : Admitted nightsProperty nightsMember.field (.ofJson (.int 2)) := by
    refine ⟨nofun, nofun, fun _ _ => ⟨rfl, ?_, nofun⟩, nofun⟩
    rintro bound ⟨⟩
    rfl
  have hclear : ListedClear [("Stay", choiceClass nightsMember)]
      (choiceSchema "nights" nightsKeywords) (choicePlan nightsMember) nightsProperty
      nightsMember.field (.ofJson (.int 2)) := by
    refine ⟨rfl, by unfold Plan.Leaves; decide, nofun, nofun, fun _ _ => ⟨⟨?_, nofun⟩, ?_, ?_⟩⟩
    · rintro bound ⟨⟩
      exact .inl rfl
    · unfold Plan.Leaves
      decide
    · unfold Plan.Leaves
      decide
  exact (listed_values_taken_iff nights_faithful rfl rfl rfl (List.mem_cons_self ..) rfl
    (List.mem_cons_of_mem _ List.mem_cons_self : Json.int 2 ∈ [.int 1, .int 2, .int 3]) rfl hadmitted
    (choice_live nightsMember) rfl).2 hclear

/-- The moment of an arrival, of which one is allowed. -/
def sinceText : String := "2024-05-01T00:00:00"

def sinceKeywords : List (String × Json) :=
  [("type", .str "string"), ("format", .str "date-time"), ("enum", .arr [.str sinceText])]

def sinceProperty : Property where
  name := "since"
  type := some "string"
  format := .str "date-time"
  enum := some [.str sinceText]
  path := "#/definitions/Stay/properties/since"

def sinceMember : Blueprint.Member where
  field := {
    name := "since", attr := "since", storage := some TypeName.moment,
    documented := some TypeName.moment, initial := .absent }
  rules := [.moment, .oneOf [.str sinceText]]
  constants := constantsOf "since" [.str sinceText]

/-- The one allowed value of a date-time is refused: it is compared as a moment with its text. -/
theorem listed_moment_not_taken :
    Package.generate Package.uncheckedSettings .null (choiceSchema "since" sinceKeywords) =
        .ok (choiceRun "since" sinceKeywords) ∧
      (choiceRun "since" sinceKeywords).package.failures = [] ∧
      standardModule [] (choicePlan sinceMember) ∈
        (choiceRun "since" sinceKeywords).package.modules ∧
      LoadedClass.load (standardModule [] (choicePlan sinceMember)) =
        .ok (choiceClass sinceMember) ∧
      Live [("Stay", choiceClass sinceMember)] (choiceClass sinceMember) choiceStore 0 ∧
      sinceProperty.enum = some [.str sinceText] ∧
      Admitted sinceProperty sinceMember.field (.text sinceText) ∧
      ¬ ∃ after reply, Instance.assign [("Stay", choiceClass sinceMember)] 0 "since"
        (.text sinceText) choiceStore = (after, .ok reply) := by
  have hload : LoadedClass.load (standardModule [] (choicePlan sinceMember)) =
      .ok (choiceClass sinceMember) := rfl
  have horigin : Package.Origin Package.uncheckedSettings .null
      (choiceSchema "since" sinceKeywords)
      ⟨choiceSchema "since" sinceKeywords, [("Stay", .ok (choiceDefinition sinceProperty))]⟩
      (choiceDefinition sinceProperty) (choicePlan sinceMember)
      (standardModule [] (choicePlan sinceMember)) := ⟨rfl, rfl, rfl, ⟨[], rfl, rfl⟩, rfl⟩
  have hread : (Moment.read? sinceText.toList).isSome = true := by decide
  have hadmitted : Admitted sinceProperty sinceMember.field (.text sinceText) :=
    ⟨nofun, nofun, nofun, fun _ => hread⟩
  have hplanned : MemberPlanned _ _ sinceProperty sinceMember :=
    Blueprint.Member.ofProperty_eq_ok (List.forall₂_zip horigin.planned_members.members
      (List.mem_cons_self ..))
  refine ⟨rfl, rfl, List.mem_cons_self, hload, choice_live sinceMember, rfl, hadmitted, ?_⟩
  rintro ⟨after, reply, htaken⟩
  have hstandard := horigin.standard_class rfl hload
  obtain ⟨taken, hverdict, -⟩ :=
    (assign_eq_ok hstandard (choice_live sinceMember) List.mem_cons_self (by decide)).mp htaken
  exact verdict_of_isMoment hplanned rfl rfl rfl hverdict

end ModelMint
