import ModelMint.Proofs.Instance.Acceptance
import ModelMint.Proofs.Instance.Loading
import ModelMint.Proofs.Instance.Success

/-!
# Lists of instances

The setter of an array whose items refer to a definition takes the lists of instances of
its class that are neither too short nor too long, and names the first element that is
none.  It does so exactly where the class keeps its name on the way into the setter, and
where no constant has taken the name of a check.
-/

namespace ModelMint

open ModelMint.Emit
open ModelMint.Blueprint
open ModelMint.Schema

/-! ## Lengths -/

/-- Whether both values are numbers, and the first is less. -/
def Value.lessNumber (value other : Value) : Bool :=
  match value.number?, other.number? with
  | some a, some b => a.compare b == some .lt
  | _, _ => false

/-- A length between the bounds of a property, as far as it has any. -/
structure LengthWithin (property : Property) (length : Nat) : Prop where
  least : ∀ bound ∈ property.minItems, Value.lessNumber (.int length) (.ofJson bound) = false
  greatest : ∀ bound ∈ property.maxItems, Value.lessNumber (.ofJson bound) (.int length) = false

/-- The bounds of a length can be written as numbers. -/
def FiniteItemBounds (property : Property) : Prop :=
  (∀ bound ∈ property.minItems, bound.isFinite = true) ∧
    ∀ bound ∈ property.maxItems, bound.isFinite = true

section Lengths

variable {scene : Scene} {className : String} {code : SetterCode} {items : List Value}
  {property : Property} {bound : Option Json} {value taken : Value} {length : Nat}

theorem below_ofJson (hbound : Numeric bound) :
    scene.below (.int length) (.ofJson (bound.getD .null)) =
      .ok (bound.any fun least => Value.lessNumber (.int length) (.ofJson least)) := by
  cases bound with
  | none => rfl
  | some least => rcases hbound least rfl with ⟨number, rfl⟩ | ⟨number, rfl⟩ <;> rfl

theorem above_ofJson (hbound : Numeric bound) :
    scene.above (.int length) (.ofJson (bound.getD .null)) =
      .ok (bound.any fun greatest => Value.lessNumber (.ofJson greatest) (.int length)) := by
  cases bound with
  | none => rfl
  | some greatest => rcases hbound greatest rfl with ⟨number, rfl⟩ | ⟨number, rfl⟩ <;> rfl

theorem isOutside_eq_false_iff (hleast : Numeric property.minItems)
    (hgreatest : Numeric property.maxItems) :
    scene.isOutside (.int length) (.ofJson (property.minItems.getD .null))
        (.ofJson (property.maxItems.getD .null)) = .ok false ↔ LengthWithin property length := by
  rw [isOutside_eq_false, below_ofJson hleast, above_ofJson hgreatest]
  constructor
  · rintro ⟨hbelow, habove⟩
    refine ⟨fun least hmem => ?_, fun greatest hmem => ?_⟩
    · simpa [Option.mem_def.mp hmem] using hbelow
    · simpa [Option.mem_def.mp hmem] using habove
  · rintro ⟨hmin, hmax⟩
    have hbelow : property.minItems.any
        (fun least => Value.lessNumber (.int length) (.ofJson least)) = false := by
      cases hcase : property.minItems with
      | none => rfl
      | some least => exact hmin least hcase
    have habove : property.maxItems.any
        (fun greatest => Value.lessNumber (.ofJson greatest) (.int length)) = false := by
      cases hcase : property.maxItems with
      | none => rfl
      | some greatest => exact hmax greatest hcase
    exact ⟨by rw [hbelow], by rw [habove]⟩

theorem less_of_no_number (store : Store) (length : Nat) (h : value.number? = none) :
    store.less (.int length) value = .error .unsuitable ∧
      store.less value (.int length) = .error .unsuitable := by
  cases value <;> first
    | exact ⟨rfl, rfl⟩
    | cases h

theorem no_number_of_length {given : Value} (h : given.length = .ok length) :
    given.number? = none ∧ given ≠ .none := by
  cases given <;> first
    | exact ⟨rfl, Value.noConfusion⟩
    | cases h

/-- The words for numbers without a literal stand for no number where a length is checked. -/
theorem setterNames_no_number {given : Value} (hlength : given.length = .ok length) {name : String}
    {check : Member} (h : setterNames className code check given name = some value) :
    value.number? = none ∧ value ≠ .none ∨ comparesNumbers check = true := by
  by_cases hcheck : comparesNumbers check = true
  · exact .inr hcheck
  · have hown : ownBound check given = given := by
      unfold ownBound
      rw [Bool.eq_false_iff.mpr hcheck]
    refine .inl ?_
    unfold setterNames classNames at h
    rw [hown] at h
    split at h
    · cases h
      exact no_number_of_length hlength
    · split at h
      · cases h
        exact ⟨rfl, Value.noConfusion⟩
      · split at h
        · cases h
          exact ⟨rfl, Value.noConfusion⟩
        · cases h

/-- A bound of a length is stated as it is, or as something that is no number. -/
theorem literalValue_bound {given : Value} (hlength : given.length = .ok length)
    (hbound : Numeric bound)
    (h : literalValue (setterNames className code (.operation .checkLength) given)
      (bound.getD .null) = .ok value) :
    (∀ written ∈ bound, written.isFinite = true) ∧ value = .ofJson (bound.getD .null) ∨
      value.number? = none ∧ value ≠ .none := by
  have hnamed : ∀ name found, setterNames className code (.operation .checkLength) given name =
      some found → found.number? = none ∧ found ≠ .none :=
    fun name found hfound => (setterNames_no_number hlength hfound).resolve_right (by decide)
  cases bound with
  | none =>
      refine .inl ⟨by simp, ?_⟩
      simpa [literalValue, eq_comm] using h
  | some written =>
      by_cases hfinite : written.isFinite = true
      · rw [Option.getD_some, literalValue_of_isFinite hfinite] at h
        refine .inl ⟨?_, (Except.ok.inj h).symm⟩
        rintro other hother
        rwa [← Option.some.inj hother]
      · rcases hbound written rfl with ⟨number, rfl⟩ | ⟨number, rfl⟩
        · exact absurd rfl hfinite
        · refine .inr ?_
          rw [Option.getD_some, literalValue] at h
          rcases floatValue_eq_ok h with ⟨hfound, -⟩ | ⟨-, name, found, -, hfound, hstated⟩
          · exact absurd hfound hfinite
          · have hnumber := hnamed name found hfound
            rcases hstated with rfl | hnegated
            · exact hnumber
            · cases found <;> simp [Value.number?, negated] at hnumber hnegated

/-- A length is accepted where it lies within bounds that can be written. -/
theorem judge_length_eq_ok {given : Value} (hlength : given.length = .ok length)
    (hleast : Numeric property.minItems) (hgreatest : Numeric property.maxItems) :
    (Rule.within .length property.minItems property.maxItems).judge scene className code given =
        .ok taken ↔
      taken = given ∧ FiniteItemBounds property ∧ LengthWithin property length := by
  have hmeasured : measured .length given = .ok (.int length) := by
    rw [measured, hlength]
    rfl
  rw [judge_within_eq_ok]
  refine and_congr_right fun _ => ?_
  constructor
  · rintro ⟨least, greatest, quantity, hmin, hmax, hquantity, houtside⟩
    obtain rfl : Value.int length = quantity := Except.ok.inj (hmeasured.symm.trans hquantity)
    obtain ⟨hbelow, habove⟩ := isOutside_eq_false.mp houtside
    have hstrange : ∀ value : Value, value.number? = none → value ≠ .none →
        scene.below (.int length) value ≠ .ok false ∧
          scene.above (.int length) value ≠ .ok false := by
      intro value hnumber hnone
      obtain ⟨hless, hmore⟩ := less_of_no_number scene.store length hnumber
      unfold Scene.below Scene.above
      constructor
      · split
        · exact absurd rfl hnone
        · simp [hless]
      · split
        · exact absurd rfl hnone
        · simp [hmore]
    rcases literalValue_bound hlength hleast hmin with ⟨hminFinite, rfl⟩ | ⟨hnumber, hnone⟩
    · rcases literalValue_bound hlength hgreatest hmax with ⟨hmaxFinite, rfl⟩ | ⟨hnumber, hnone⟩
      · exact ⟨⟨hminFinite, hmaxFinite⟩, (isOutside_eq_false_iff hleast hgreatest).mp houtside⟩
      · exact absurd habove (hstrange greatest hnumber hnone).2
    · exact absurd hbelow (hstrange least hnumber hnone).1
  · rintro ⟨⟨hminFinite, hmaxFinite⟩, hwithin⟩
    have hstated : ∀ bound : Option Json, (∀ written ∈ bound, written.isFinite = true) →
        (bound.getD .null).isFinite = true := by
      intro bound hfinite
      cases bound with
      | none => rfl
      | some written => exact hfinite written rfl
    exact ⟨_, _, .int length, literalValue_of_isFinite (hstated _ hminFinite),
      literalValue_of_isFinite (hstated _ hmaxFinite), hmeasured,
      (isOutside_eq_false_iff hleast hgreatest).mpr hwithin⟩

end Lengths

/-! ## Elements -/

/-- The first element that is no instance of the class is the one that is named. -/
theorem checkElementsFrom_first {scene : Scene} {className : String} {before : List Value}
    (hbefore : ∀ other ∈ before, scene.isInstanceOf other className = true) {item : Value}
    (hitem : scene.isInstanceOf item className = false) (after : List Value) (index : Nat) :
    scene.checkElementsFrom className index (before ++ item :: after) = .error (.violation
      (.wrongElement (index + before.length) className (scene.store.typeName item))) := by
  induction before generalizing index with
  | nil => simp [Scene.checkElementsFrom, hitem]
  | cons first rest ih =>
      obtain ⟨hfirst, hrest⟩ := List.forall_mem_cons.mp hbefore
      rw [List.cons_append, Scene.checkElementsFrom, if_pos hfirst, ih hrest]
      simp only [List.length_cons]
      congr 3
      omega

/-- An instance of the class with this name. -/
def IsInstance (store : Store) (className : String) (value : Value) : Prop :=
  ∃ id, value = .instance id ∧ store.classOf id = className

/-- A setter takes the lists of instances of a class that are neither too short nor too long, and
refuses every list with another element under the place of the first one. -/
structure ChecksElements (library : Library) (store : Store) (id : Nat) (attr element : String)
    (property : Property) : Prop where
  accepts : ∀ items : List Value, (∀ value ∈ items, IsInstance store element value) →
    LengthWithin property items.length →
    Instance.assign library id attr (.list items) store =
      (store.put id attr (.list items), .ok (.instance id))
  rejects : ∀ (before : List Value) (value : Value) (after : List Value),
    (∀ other ∈ before, IsInstance store element other) → ¬ IsInstance store element value →
    ∃ expected found, Instance.assign library id attr (.list (before ++ value :: after)) store =
      (store, .error (.violation (.wrongElement before.length expected found)))

theorem isInstanceOf_iff {scene : Scene} {value : Value} {className : String} :
    scene.isInstanceOf value className = true ↔ IsInstance scene.store className value := by
  unfold Scene.isInstanceOf IsInstance
  cases value <;> simp

/-- What a setter says of the elements of a list, before it looks at the length. -/
def elementsVerdict (scene : Scene) (item : LoadedClass) (owner expected : String)
    (items : List Value) : Except Refusal Unit :=
  if (scene.library.find? (privateName owner expected)).isNone then
    .error (.fault .missingModule)
  else if expected == receiverName then .error (.fault .unsuitable)
  else if (Entries.get? "_check_if_pure_array" item.constants).isSome then
    .error (.fault .unsuitable)
  else scene.checkElementsFrom (privateName owner expected) 0 items

/-- The verdict comes down to the elements where the class and the check are found. -/
theorem elementsVerdict_eq {scene : Scene} {item : LoadedClass} {owner expected : String}
    (hclass : (scene.library.find? (privateName owner expected)).isSome = true)
    (hself : expected ≠ receiverName)
    (hcheck : Entries.get? "_check_if_pure_array" item.constants = none) (items : List Value) :
    elementsVerdict scene item owner expected items =
      scene.checkElementsFrom (privateName owner expected) 0 items := by
  have hfound : (scene.library.find? (privateName owner expected)).isNone = false := by
    simpa using hclass
  unfold elementsVerdict
  rw [hfound, hcheck]
  simp [hself]

/-- Only the elements themselves are named as wrong or let through. -/
theorem clear_of_elementsVerdict {scene : Scene} {item : LoadedClass} {owner expected : String}
    {items : List Value} (h : ∀ found, elementsVerdict scene item owner expected items ≠
      .error (.fault found)) :
    expected ≠ receiverName ∧ Entries.get? "_check_if_pure_array" item.constants = none ∧
      elementsVerdict scene item owner expected items =
        scene.checkElementsFrom (privateName owner expected) 0 items := by
  unfold elementsVerdict at h ⊢
  split at h
  · exact absurd rfl (h _)
  next hclass =>
    rw [if_neg hclass]
    split at h
    · exact absurd rfl (h _)
    next hself =>
      rw [if_neg hself]
      split at h
      · exact absurd rfl (h _)
      next hcheck =>
        rw [if_neg hcheck]
        exact ⟨by simpa using hself, by simpa using hcheck, rfl⟩

/-! ## The rule for elements -/

section Rules

variable {attr expected : String} {others : List Rule}
  (hothers : ∀ rule ∈ others, ∀ className, rule ≠ .elements className)
include hothers

theorem importable_elements (library : Library) (owner : String) :
    importable library owner (.elements expected :: others) =
      (library.find? (privateName owner expected)).isSome := by
  have hrest : importable library owner others = true := by
    unfold importable
    rw [List.all_eq_true]
    intro rule hrule
    cases rule with
    | elements className => exact absurd rfl (hothers _ hrule className)
    | _ => rfl
  simpa [importable] using fun _ => hrest

/-- Only the import of a class can hide the receiver. -/
theorem any_givesName_elements (hreceiver : attr ≠ receiverName) :
    ((Rule.elements expected :: others).map (standardStatement attr)).any
      (givesName receiverName) = (expected == receiverName) := by
  have hrest : (others.map (standardStatement attr)).any (givesName receiverName) = false := by
    rw [List.any_eq_false]
    intro statement hstatement
    obtain ⟨rule, hrule, rfl⟩ := List.mem_map.mp hstatement
    cases rule with
    | elements className => exact absurd rfl (hothers _ hrule className)
    | _ => simp [standardStatement, givesName]
  rw [List.map_cons, List.any_cons, hrest, Bool.or_false, standardStatement, givesName]
  by_cases hname : expected = receiverName
  · simp [hname, Ne.symm hreceiver]
  · simp [hname]

end Rules

section Setting

variable {library : Library} {item : LoadedClass} {plan : Plan} {store : Store} {id : Nat}
  {member : Blueprint.Member} {property : Property} {expected : String} {items : List Value}

theorem runStatement_elements_list (hregular : item.Regular)
    (hlive : Live library item store id) (code : SetterCode) (attr : String) (items : List Value)
    (fuel : Nat) :
    runStatement library (fuel + 4) id code (standardStatement attr (.elements expected))
        (.list items) store =
      (store, match Entries.get? "_check_if_pure_array" item.constants with
        | some _ => .error (.fault .unsuitable)
        | none => ((Scene.mk library store).checkElementsFrom
            (privateName (store.classOf id) expected) 0 items).map fun _ => .list items) := by
  cases hconstant : Entries.get? "_check_if_pure_array" item.constants with
  | some hidden =>
      exact runStatement_elements_hidden (fuel + 2)
        (findMember_check_taken hregular hlive .elements hconstant)
  | none =>
      exact runStatement_elements (fuel + 1)
        (findMember_check_free hregular hlive .elements hconstant)

/-- What a setter makes of a list, where its first rule is the one for elements. -/
theorem assign_list (hstandard : Standard plan item) (hlive : Live library item store id)
    (hmember : member ∈ plan.members) {others : List Rule}
    (hrules : member.rules = .elements expected :: others)
    (hothers : ∀ rule ∈ others, ∀ className, rule ≠ .elements className)
    (hreceiver : member.field.attr ≠ receiverName) (items : List Value) :
    ∃ fuel, Instance.assign library id member.field.attr (.list items) store =
      match elementsVerdict ⟨library, store⟩ item (store.classOf id) expected items with
      | .error refusal => (store, .error refusal)
      | .ok () =>
        match Action.through (runStatement library (fuel + 6) id (standardSetter member))
          (others.map (standardStatement member.field.attr)) (.list items) store with
        | (after, .ok taken) => (after.put id member.field.attr taken, .ok (.instance id))
        | (after, .error refusal) => (after, .error refusal) := by
  obtain ⟨fuel, hassign⟩ := assign_eq_runSetter hstandard hlive hmember (by simp [hrules])
    (.list items)
  refine ⟨fuel, ?_⟩
  have hstatements : (standardSetter member).statements =
      (Rule.elements expected :: others).map (standardStatement member.field.attr) := by
    rw [standardSetter, hrules]
  rw [hassign, runSetter_eq, hstatements, hrules, importable_elements hothers,
    any_givesName_elements hothers hreceiver, List.map_cons, Action.through, Action.bind_apply,
    runStatement_elements_list hstandard.regular hlive]
  unfold elementsVerdict
  -- the class has to be found, then the receiver and the check, and then the elements decide
  cases library.find? (privateName (store.classOf id) expected) with
  | none => rfl
  | some found =>
      cases hself : expected == receiverName with
      | true => rfl
      | false =>
          cases Entries.get? "_check_if_pure_array" item.constants with
          | some hidden => rfl
          | none =>
              simp only [Option.isSome_some, Option.isNone_some, Option.isSome_none, Bool.not_true,
                Bool.false_eq_true, if_false]
              cases Scene.checkElementsFrom ⟨library, store⟩
                (privateName (store.classOf id) expected) 0 items <;> rfl

/-! ## Lists -/

/-- Whether a setter can state the bounds of a length and reach the check of it. -/
def LengthClear (item : LoadedClass) (property : Property) : Prop :=
  property.hasItemBounds = true →
    FiniteItemBounds property ∧ Entries.get? "_check_array_bounds" item.constants = none

theorem through_lengthRules (hstandard : Standard plan item)
    (hlive : Live library item store id) (hleast : Numeric property.minItems)
    (hgreatest : Numeric property.maxItems) (code : SetterCode) (attr : String)
    (items : List Value) (fuel : Nat) :
    (LengthClear item property → LengthWithin property items.length →
      Action.through (runStatement library (fuel + 6) id code)
        ((lengthRules (some TypeName.list) property).map (standardStatement attr)) (.list items)
        store = (store, .ok (.list items))) ∧
      ∀ after taken, Action.through (runStatement library (fuel + 6) id code)
        ((lengthRules (some TypeName.list) property).map (standardStatement attr)) (.list items)
        store = (after, .ok taken) → LengthClear item property := by
  unfold LengthClear lengthRules
  cases hbounds : property.hasItemBounds with
  | false => simp [Action.through]
  | true =>
      simp only [beq_self_eq_true, Bool.and_self, if_true, List.map_cons, List.map_nil,
        Action.through, Action.bind_apply, standardStatement, boundsOperation]
      cases hconstant : Entries.get? "_check_array_bounds" item.constants with
      | some hidden =>
          have hfind := findMember_check_taken hstandard.regular hlive (.measure .length) hconstant
          have hhidden : ∃ found, runStatement library (fuel + 4 + 2) id code
              (.within "_check_array_bounds" (property.minItems.getD .null)
                (property.maxItems.getD .null)) (.list items) store =
              (store, .error (.fault found)) := runStatement_within_hidden (fuel + 4) hfind
          obtain ⟨found, hrefused⟩ := hhidden
          rw [hrefused]
          simp
      | none =>
          have hfind : findMember library id (privateName (store.classOf id) "_check_array_bounds")
              store = _ := findMember_check_free hstandard.regular hlive (.measure .length) hconstant
          have hjudge : (Rule.within .length (some (property.minItems.getD .null))
              (some (property.maxItems.getD .null))).judge ⟨library, store⟩ (store.classOf id) code
                (.list items) =
              (Rule.within .length property.minItems property.maxItems).judge ⟨library, store⟩
                (store.classOf id) code (.list items) := rfl
          rw [runStatement_within (fuel + 1) .length hfind (.inl rfl), hjudge]
          cases hverdict : (Rule.within .length property.minItems property.maxItems).judge
              ⟨library, store⟩ (store.classOf id) code (.list items) with
          | ok taken =>
              obtain ⟨rfl, hfinite, -⟩ := (judge_length_eq_ok rfl hleast hgreatest).mp hverdict
              simp [hfinite]
          | error refusal =>
              refine ⟨fun hclear hwithin => ?_, by simp⟩
              rw [(judge_length_eq_ok rfl hleast hgreatest).mpr
                ⟨rfl, (hclear trivial).1, hwithin⟩] at hverdict
              cases hverdict

/-- A member whose setter checks the elements of a list and then its length. -/
structure ArraySetter (item : LoadedClass) (plan : Plan) (member : Blueprint.Member)
    (property : Property) (expected : String) : Prop where
  standard : Standard plan item
  mem : member ∈ plan.members
  rules : member.rules = .elements expected :: lengthRules (some TypeName.list) property
  receiver : member.field.attr ≠ receiverName
  least : Numeric property.minItems
  greatest : Numeric property.maxItems

theorem ArraySetter.assign_list (h : ArraySetter item plan member property expected)
    (hlive : Live library item store id) (items : List Value) :
    ∃ fuel, Instance.assign library id member.field.attr (.list items) store =
      match elementsVerdict ⟨library, store⟩ item (store.classOf id) expected items with
      | .error refusal => (store, .error refusal)
      | .ok () =>
        match Action.through (runStatement library (fuel + 6) id (standardSetter member))
          ((lengthRules (some TypeName.list) property).map
            (standardStatement member.field.attr)) (.list items) store with
        | (after, .ok taken) => (after.put id member.field.attr taken, .ok (.instance id))
        | (after, .error refusal) => (after, .error refusal) := by
  refine ModelMint.assign_list h.standard hlive h.mem h.rules ?_ h.receiver items
  intro rule hrule className
  rw [eq_of_mem_lengthRules hrule]
  exact Rule.noConfusion

theorem ArraySetter.checks (h : ArraySetter item plan member property expected)
    (hlive : Live library item store id)
    (hclass : (library.find? (privateName (store.classOf id) expected)).isSome = true)
    (hself : expected ≠ receiverName)
    (hcheck : Entries.get? "_check_if_pure_array" item.constants = none)
    (hbounds : ∀ length, LengthWithin property length → LengthClear item property) :
    ChecksElements library store id member.field.attr
      (privateName (store.classOf id) expected) property := by
  refine ⟨fun items hitems hwithin => ?_, fun before value after hbefore hvalue => ?_⟩
  · have hverdict : elementsVerdict ⟨library, store⟩ item (store.classOf id) expected items =
        .ok () := by
      rw [elementsVerdict_eq hclass hself hcheck, checkElementsFrom_eq_ok]
      exact fun value hvalue => isInstanceOf_iff.mpr (hitems value hvalue)
    obtain ⟨fuel, hassign⟩ := h.assign_list hlive items
    have hlength := (through_lengthRules h.standard hlive h.least h.greatest
      (standardSetter member) member.field.attr items fuel).1 (hbounds _ hwithin) hwithin
    rw [hassign, hverdict]
    simp only [hlength]
  · have hwrong : (Scene.mk library store).isInstanceOf value
        (privateName (store.classOf id) expected) = false := by
      rw [← Bool.not_eq_true, isInstanceOf_iff]
      exact hvalue
    have hverdict := checkElementsFrom_first (fun other hother =>
      isInstanceOf_iff.mpr (hbefore other hother)) hwrong after 0
    rw [← elementsVerdict_eq hclass hself hcheck, Nat.zero_add] at hverdict
    obtain ⟨fuel, hassign⟩ := h.assign_list hlive (before ++ value :: after)
    exact ⟨_, _, by rw [hassign, hverdict]⟩

/-- A violation that is named is one that the verdict on the elements found: nothing is let
through with an element that is no instance at all. -/
theorem ArraySetter.elementsVerdict_of_refused
    (h : ArraySetter item plan member property expected) (hlive : Live library item store id)
    {items : List Value} (hnone : .none ∈ items) {violation : Violation}
    (hrefused : Instance.assign library id member.field.attr (.list items) store =
      (store, .error (.violation violation))) :
    elementsVerdict ⟨library, store⟩ item (store.classOf id) expected items =
      .error (.violation violation) := by
  obtain ⟨fuel, hassign⟩ := h.assign_list hlive items
  rw [hassign] at hrefused
  cases hverdict : elementsVerdict ⟨library, store⟩ item (store.classOf id) expected items with
  | error refusal =>
      rw [hverdict] at hrefused
      exact congrArg Except.error (Except.error.inj (Prod.mk.inj hrefused).2)
  | ok _ =>
      obtain ⟨-, -, hitems⟩ := clear_of_elementsVerdict (fun found => by
        rw [hverdict]
        exact nofun)
      rw [hverdict, eq_comm, checkElementsFrom_eq_ok] at hitems
      cases hitems .none hnone

/-- Elements are named from the first that is no instance of the class that the setter knows. -/
theorem privateName_of_wrongElement {owner element : String} {other : Nat}
    (hother : store.classOf other = element) {wanted found : String}
    (hplace : (Scene.mk library store).checkElementsFrom (privateName owner expected) 0
      [.instance other, .none] = .error (.violation (.wrongElement 1 wanted found))) :
    privateName owner expected = element := by
  by_contra hne
  have hwrong : (Scene.mk library store).isInstanceOf (.instance other)
      (privateName owner expected) = false := by
    rw [← Bool.not_eq_true, isInstanceOf_iff]
    rintro ⟨same, hsame, hclass⟩
    cases hsame
    exact hne (hclass.symm.trans hother)
  have hfirst : (Scene.mk library store).checkElementsFrom (privateName owner expected) 0
      ([] ++ [.instance other, .none]) = _ := checkElementsFrom_first (by simp) hwrong [.none] 0
  rw [List.nil_append, hplace] at hfirst
  cases hfirst

/-- A list that is let through has passed the check of its length. -/
theorem ArraySetter.lengthClear_of_accepted
    (h : ArraySetter item plan member property expected) (hlive : Live library item store id)
    {items : List Value} {after : Store} {answer : Value}
    (haccepted : Instance.assign library id member.field.attr (.list items) store =
      (after, .ok answer)) : LengthClear item property := by
  obtain ⟨fuel, hassign⟩ := h.assign_list hlive items
  rw [hassign] at haccepted
  split at haccepted
  · cases (Prod.mk.inj haccepted).2
  · split at haccepted
    next middle taken htaken =>
      exact (through_lengthRules h.standard hlive h.least h.greatest _ _ _ fuel).2 _ _ htaken
    · cases haccepted

/-- Whoever sees an instance let through and the element behind it named, sees checks in their
place. -/
theorem ArraySetter.clear (h : ArraySetter item plan member property expected)
    (hlive : Live library item store id) {element : String} {other : Nat}
    (hother : store.classOf other = element)
    (hchecks : ChecksElements library store id member.field.attr element property) :
    privateName (store.classOf id) expected = element ∧ expected ≠ receiverName ∧
      Entries.get? "_check_if_pure_array" item.constants = none ∧
      ∀ length, LengthWithin property length → LengthClear item property := by
  have hfirst : ∀ value ∈ [Value.instance other], IsInstance store element value := by
    simp [IsInstance, hother]
  have hnone : ¬ IsInstance store element .none := by simp [IsInstance]
  obtain ⟨wanted, found, hrefused⟩ := hchecks.rejects [.instance other] .none [] hfirst hnone
  have hverdict : elementsVerdict ⟨library, store⟩ item (store.classOf id) expected
      [.instance other, .none] = .error (.violation (.wrongElement 1 wanted found)) :=
    h.elementsVerdict_of_refused hlive (by simp) hrefused
  obtain ⟨hself, hcheck, hitems⟩ := clear_of_elementsVerdict (fun fault => by
    rw [hverdict]
    exact nofun)
  refine ⟨privateName_of_wrongElement hother (hitems.symm.trans hverdict), hself, hcheck,
    fun length hwithin => ?_⟩
  refine h.lengthClear_of_accepted hlive
    (hchecks.accepts (List.replicate length (.instance other)) ?_ ?_)
  · intro value hvalue
    rw [(List.mem_replicate.mp hvalue).2]
    exact ⟨other, rfl, hother⟩
  · rw [List.length_replicate]
    exact hwithin

end Setting

/-! ## Arrays of instances -/

/-- An array of a class whose items refer to a definition of the document. -/
structure ArrayOf (document : Document) (property : Property) (field : Field)
    (element : String) : Prop where
  array : field.isArray = true
  items : ∃ pointer resolved, property.itemsRef = some pointer ∧
    resolve document.raw pointer = .ok resolved ∧ resolved.name = element
  defined : document.defines element = true
  free : property.enum = none

/-- Whether the name of a class arrives in the setter as it is, and the checks are those of the
base. -/
structure ElementsClear (root : Json) (plan : Plan) (property : Property) (element : String) :
    Prop where
  named : ∀ resolved, resolveProperty root property = .ok resolved →
    privateName plan.name (TypeName.ofSchema resolved.name) = element
  receiver : element ≠ receiverName
  check : ∀ constant ∈ plan.constants, constant.name ≠ "_check_if_pure_array"
  bounds : property.hasItemBounds = true → (∃ length, LengthWithin property length) →
    FiniteItemBounds property ∧
      ∀ constant ∈ plan.constants, constant.name ≠ "_check_array_bounds"

theorem rules_of_array {document : Document} {required : List String} {property : Property}
    {member : Blueprint.Member} {element : String}
    (hplanned : MemberPlanned document required property member)
    (harray : ArrayOf document property member.field element) :
    ∃ resolved, resolveProperty document.raw property = .ok resolved ∧
      member.rules = .elements (TypeName.ofSchema resolved.name) ::
        lengthRules (some TypeName.list) property := by
  obtain ⟨storage, elements, hstorage, helements, hrules⟩ := rulesOf_eq_ok hplanned.rules
  have hlist : storage = some TypeName.list := by
    have hfield := hplanned.field.storage
    rw [hstorage] at hfield
    rw [Except.ok.inj hfield]
    simpa [Blueprint.Field.isArray] using harray.array
  subst hlist
  have href : property.isReference = true := by
    obtain ⟨pointer, -, hpointer, -⟩ := harray.items
    simp [Property.isReference, hpointer]
  obtain ⟨resolved, hresolved, rfl⟩ := elementRules_of_list href hstorage helements
  exact ⟨resolved, hresolved, by rw [hrules, otherRules_list harray.free]; rfl⟩

section Arrays

variable {settings : Settings} {comment schema : Json} {run : Package.Run}
  {document : Document} {definition : Definition} {plan : Plan} {module : ClassModule}
  {library : Library} {property : Property} {key element : String}
  {member : Blueprint.Member}

theorem attr_ne_receiver {required : List String}
    (hplanned : MemberPlanned document required property member) :
    member.field.attr ≠ receiverName := by
  intro hattr
  have hreserved : receiverName ∈ Text.reservedAttributes := by decide
  apply Text.attributeName_ne_reserved property.name.toList hreserved
  rw [← hattr, hplanned.field.attr, String.toList_ofList]

theorem privateName_eq_receiver {className name : String} :
    privateName className name = receiverName ↔ name = receiverName := by
  constructor
  · intro hname
    rcases privateName_cases className name with hself | ⟨c, owner, rest, -, hlist⟩
    · rw [← hself, hname]
    · rw [hname] at hlist
      cases hlist
  · rintro rfl
    exact privateName_eq_self (by decide)

end Arrays

/-! ## Guests and their rooms -/

/-- Guests have rooms, whose definition has the given name. -/
def hotelSchema (room : String) : Json := .obj [("definitions", .obj [
  (room, .obj []),
  ("Guest", .obj [("properties", .obj [
    ("rooms", .obj [("type", .str "array"),
      ("items", .obj [("$ref", .str ("#/definitions/" ++ room))])])])])])]

def hotelProperty (room : String) : Property where
  name := "rooms"
  type := some "array"
  itemsRef := some ("#/definitions/" ++ room)
  path := "#/definitions/Guest/properties/rooms"

def hotelDefinition (room : String) : Definition where
  name := "Guest"
  properties := [("rooms", hotelProperty room)]
  path := "#/definitions/Guest"

def hotelDocument (room : String) : Document where
  raw := hotelSchema room
  entries := [(room, .ok { name := room, path := "#/definitions/" ++ room }),
    ("Guest", .ok (hotelDefinition room))]

def hotelField (element : String) : Field where
  name := "rooms"
  attr := "rooms"
  storage := some TypeName.list
  element := some element
  documented := some ("list[" ++ element ++ "]")
  initial := .emptyList

def hotelMember (room : String) : Blueprint.Member where
  field := hotelField (TypeName.ofSchema room)
  rules := [.elements (TypeName.ofSchema room)]
  target := some room

def hotelPlan (room : String) : Plan where
  name := "Guest"
  path := "#/definitions/Guest"
  members := [hotelMember room]

def hotelClass (room : String) : LoadedClass where
  name := "Guest"
  fields := (standardModule [] (hotelPlan room)).fields
  setters := (standardModule [] (hotelPlan room)).setters

def hotelLibrary (room : String) : Library :=
  [(room, { name := room }), ("Guest", hotelClass room)]

/-- A guest and a room. -/
def hotelStore (room : String) : Store where
  instances := [{ className := "Guest" }, { className := room }]

def hotelRun (room : String) : Package.Run :=
  Package.runOf Package.uncheckedSettings .null (hotelSchema room)

theorem hotel_flawless {room : String}
    (hread : Document.read (hotelSchema room) = .ok (hotelDocument room))
    (hrun : Package.generate Package.uncheckedSettings .null (hotelSchema room) =
      .ok (hotelRun room)) (hfailures : (hotelRun room).package.failures = []) :
    Package.Flawless Package.uncheckedSettings .null (hotelSchema room) (hotelRun room) := by
  refine ⟨hrun, hfailures, rfl, ?_, ?_⟩
  · intro document hdocument name definition hentry
    obtain rfl : hotelDocument room = document := Except.ok.inj (hread.symm.trans hdocument)
    simp only [hotelDocument, Entries.get?] at hentry
    split at hentry
    · cases hentry
      simp
    · split at hentry
      · cases hentry
        have hword : Package.TypeWord "array" := by decide
        simpa [hotelDefinition, hotelProperty] using hword
      · cases hentry
  · rintro lines hlines line hline
    cases hlines
    cases hline

theorem hotel_live (room : String) (hroom : room ≠ "Guest") :
    Live (hotelLibrary room) (hotelClass room) (hotelStore room) 0 := by
  refine ⟨by simp [hotelStore, Store.size], ?_, fun attr hattr => ?_⟩
  · change Entries.get? "Guest" (hotelLibrary room) = some (hotelClass room)
    simp [hotelLibrary, Entries.get?, hroom]
  · cases hattr

end ModelMint
