import ModelMint.Proofs.Instance.Elements
import ModelMint.Proofs.Instance.Listed

/-!
# What rules ask of a value

The rules of a property, tried in order, ask for up to five conditions.  A value that meets
all of them is let through, one of a moment as the moment, and any other is refused for the
first condition that it does not meet.
-/

namespace ModelMint

open ModelMint.Blueprint
open ModelMint.Schema

/-- What a rule makes of a value with the operations of the base. -/
def Blueprint.Rule.apply (scene : Scene) (value : Value) : Rule → Except Refusal Value
  | .elements className => (scene.checkElements value (.type className)).map fun _ => value
  | .within measure minimum maximum =>
    (scene.checkMeasure measure value (.ofJson (minimum.getD .null))
      (.ofJson (maximum.getD .null))).map fun _ => value
  | .moment => scene.parseMoment value
  | .oneOf values => (scene.checkOneOf value (.list (Value.ofItems values))).map fun _ => value

/-- A rule with nothing that means something else in the code of a class: numbers have literals, and
no name is private to the class. -/
def Blueprint.Rule.Plain : Rule → Prop
  | .elements className => ¬ ['_', '_'] <+: className.toList
  | .within _ minimum maximum =>
    (minimum.getD .null).isFinite = true ∧ (maximum.getD .null).isFinite = true
  | .moment => True
  | .oneOf values => Json.itemsFinite values = true

/-- A setter does with a plain rule what the base does with it. -/
theorem judge_eq_apply {scene : Scene} {className : String} {code : Emit.SetterCode} {value : Value}
    {rule : Rule} (hplain : rule.Plain) :
    rule.judge scene className code value = rule.apply scene value := by
  cases rule with
  | elements expected => rw [Rule.judge, privateName_eq_self hplain, Rule.apply]
  | within measure minimum maximum =>
      rw [Rule.judge, literalValue_of_isFinite hplain.1, literalValue_of_isFinite hplain.2]
      rfl
  | moment => rfl
  | oneOf values =>
      rw [Rule.judge, literalValue_of_isFinite (by rw [Json.isFinite]; exact hplain), Value.ofJson]
      rfl

/-! ## Conditions -/

/-- What a property can ask of a value. -/
inductive Condition where
  | elements
  | length
  | bounds
  | moment
  | listed

/-- The keywords of a property, with the types that its rules go by: what is stored for it, and what
its reference leads to. -/
structure Terms where
  property : Property
  storage : Option String
  element : Option String

namespace Condition

/-- In the order in which they are asked for. -/
def all : List Condition := [elements, length, bounds, moment, listed]

theorem mem_all (condition : Condition) : condition ∈ all := by
  cases condition <;> simp [all]

/-- The value that is assigned if all goes well. -/
def assigned (storage : Option String) (value : Value) : Value :=
  if storage = some TypeName.moment then (value.moment?.map Value.moment).getD value else value

/-- A value meets a condition. -/
def Holds (store : Store) (terms : Terms) (value : Value) : Condition → Prop
  | elements => terms.storage = some TypeName.list → terms.property.isReference = true →
      ∃ className items, terms.element = some className ∧ value.elements = .ok items ∧
        ∀ item ∈ items, IsInstance store className item
  | length => terms.storage = some TypeName.list → terms.property.hasItemBounds = true →
      ∃ length, value.length = .ok length ∧ LengthWithin terms.property length
  | bounds => terms.storage = some TypeName.int ∨ terms.storage = some TypeName.float →
      (∀ least ∈ terms.property.minimum, store.less value (.ofJson least) = .ok false) ∧
        ∀ greatest ∈ terms.property.maximum, store.less (.ofJson greatest) value = .ok false
  | moment => terms.storage = some TypeName.moment → value.moment?.isSome = true
  | listed => ∀ values ∈ terms.property.enum,
      ∃ choice ∈ values, store.same (assigned terms.storage value) (.ofJson choice) = .ok true

/-- A violation, or why it cannot be told. -/
def told : Except Refusal Violation → Refusal
  | .ok violation => .violation violation
  | .error refusal => refusal

def outOfBounds (scene : Scene) (isLength : Bool) (quantity minimum maximum : Value) : Refusal :=
  told do
    let quantity ← scene.shown quantity
    let minimum ← scene.boundText minimum
    let maximum ← scene.boundText maximum
    .ok (.outOfBounds isLength quantity minimum maximum)

def notADate (scene : Scene) (value : Value) : Refusal :=
  told do
    let value ← scene.shown value
    .ok (.notADate value)

def notListed (scene : Scene) (value : Value) (choices : List Json) : Refusal :=
  told do
    let value ← scene.shown value
    let choices ← (Value.ofItems choices).mapM scene.shown
    .ok (.notListed value choices)

/-- Why a value that does not meet a condition is refused. -/
inductive Refuses (scene : Scene) (terms : Terms) (value : Value) : Condition → Refusal → Prop where
  | notIterable (helements : value.elements = .error .unsuitable) :
      Refuses scene terms value elements (.fault .unsuitable)
  | wrongElement {className : String} {before after : List Value} {item : Value}
      (helement : terms.element = some className)
      (helements : value.elements = .ok (before ++ item :: after))
      (hbefore : ∀ other ∈ before, IsInstance scene.store className other)
      (hitem : ¬ IsInstance scene.store className item) :
      Refuses scene terms value elements
        (.violation (.wrongElement before.length className (scene.store.typeName item)))
  | noLength (hlength : value.length = .error .unsuitable) :
      Refuses scene terms value length (.fault .unsuitable)
  | outOfLength {size : Nat} (hlength : value.length = .ok size) :
      Refuses scene terms value length
        (outOfBounds scene true (.int size) (.ofJson (terms.property.minItems.getD .null))
          (.ofJson (terms.property.maxItems.getD .null)))
  | incomparable (hnumber : value.number? = none) :
      Refuses scene terms value bounds (.fault .unsuitable)
  | outOfBounds (hnumber : value.number?.isSome = true) :
      Refuses scene terms value bounds
        (outOfBounds scene false value (.ofJson (terms.property.minimum.getD .null))
          (.ofJson (terms.property.maximum.getD .null)))
  | notADate : Refuses scene terms value moment (notADate scene value)
  | notListed {choices : List Json} (henum : terms.property.enum = some choices) :
      Refuses scene terms value listed
        (notListed scene (assigned terms.storage value) choices)

/-- A refusal for the first of the conditions that the value does not meet. -/
inductive RefusesFirst (scene : Scene) (terms : Terms) (value : Value) :
    List Condition → Refusal → Prop where
  | here {condition : Condition} {rest : List Condition} {refusal : Refusal}
      (hnot : ¬ condition.Holds scene.store terms value)
      (hrefuses : condition.Refuses scene terms value refusal) :
      RefusesFirst scene terms value (condition :: rest) refusal
  | later {condition : Condition} {rest : List Condition} {refusal : Refusal}
      (hholds : condition.Holds scene.store terms value)
      (hrest : RefusesFirst scene terms value rest refusal) :
      RefusesFirst scene terms value (condition :: rest) refusal

end Condition

/-! ## Results that a condition decides -/

/-- A result that is a value exactly where something holds, and a refusal exactly where not. -/
structure Decides (result : Except Refusal Value) (holds : Prop) (taken : Value)
    (refuses : Refusal → Prop) : Prop where
  ok : ∀ other, result = .ok other ↔ holds ∧ other = taken
  error : ∀ refusal, result = .error refusal ↔ ¬ holds ∧ refuses refusal

variable {result : Except Refusal Value} {holds : Prop} {taken final : Value}
  {refuses : Refusal → Prop}

theorem decides_of_holds (hholds : holds) (hresult : result = .ok taken) :
    Decides result holds taken refuses := by
  subst hresult
  refine ⟨fun other => ?_, fun refusal => ?_⟩
  · simp [hholds, eq_comm]
  · simp [hholds]

theorem decides_of_not (hholds : ¬ holds) (hrefuses : ∃ refusal, refuses refusal)
    (hresult : ∀ refusal, refuses refusal → result = .error refusal) :
    Decides result holds taken refuses := by
  obtain ⟨refusal, hrefusal⟩ := hrefuses
  have herror := hresult refusal hrefusal
  refine ⟨fun other => ?_, fun other => ⟨fun hother => ⟨hholds, ?_⟩, fun h => hresult other h.2⟩⟩
  · simp [herror, hholds]
  · obtain rfl : refusal = other := by simpa [herror] using hother
    exact hrefusal

/-- A result that several conditions decide, one after the other. -/
structure DecidesInOrder (scene : Scene) (terms : Terms) (value : Value)
    (result : Except Refusal Value) (conditions : List Condition) (taken : Value) : Prop where
  ok : ∀ other, result = .ok other ↔
    (∀ condition ∈ conditions, condition.Holds scene.store terms value) ∧ other = taken
  error : ∀ refusal, result = .error refusal ↔
    Condition.RefusesFirst scene terms value conditions refusal

section Order

variable {scene : Scene} {terms : Terms} {value : Value} {condition : Condition}
  {rest : List Condition}

theorem decidesInOrder_nil : DecidesInOrder scene terms value (.ok taken) [] taken := by
  refine ⟨fun other => by simp [eq_comm], fun refusal => ⟨fun h => ?_, fun h => ?_⟩⟩
  · cases h
  · cases h

/-- The later conditions are asked for only where the first one holds. -/
theorem Decides.before {rules others : List Rule} {given : Value}
    (h : Decides (rules.foldlM (Rule.apply scene) given) (condition.Holds scene.store terms value)
      taken (condition.Refuses scene terms value))
    (hnext : DecidesInOrder scene terms value (others.foldlM (Rule.apply scene) taken) rest final) :
    DecidesInOrder scene terms value ((rules ++ others).foldlM (Rule.apply scene) given)
      (condition :: rest) final := by
  rw [List.foldlM_append]
  refine ⟨fun other => ?_, fun refusal => ?_⟩
  · rw [bind_eq_ok, List.forall_mem_cons]
    constructor
    · rintro ⟨first, hfirst, hlater⟩
      obtain ⟨hholds, rfl⟩ := (h.ok first).mp hfirst
      obtain ⟨hrest, rfl⟩ := (hnext.ok other).mp hlater
      exact ⟨⟨hholds, hrest⟩, rfl⟩
    · rintro ⟨⟨hholds, hrest⟩, rfl⟩
      exact ⟨taken, (h.ok taken).mpr ⟨hholds, rfl⟩, (hnext.ok _).mpr ⟨hrest, rfl⟩⟩
  · rw [bind_eq_error]
    constructor
    · rintro (hrefused | ⟨first, hfirst, hlater⟩)
      · obtain ⟨hnot, hrefuses⟩ := (h.error refusal).mp hrefused
        exact .here hnot hrefuses
      · obtain ⟨hholds, rfl⟩ := (h.ok first).mp hfirst
        exact .later hholds ((hnext.error refusal).mp hlater)
    · intro hfirst
      cases hfirst with
      | here hnot hrefuses => exact .inl ((h.error refusal).mpr ⟨hnot, hrefuses⟩)
      | later hholds hrest =>
          exact .inr ⟨taken, (h.ok taken).mpr ⟨hholds, rfl⟩, (hnext.error refusal).mpr hrest⟩

end Order

/-! ## Checks -/

section Checks

variable {scene : Scene} {terms : Terms} {name : String} {value : Value}

theorem elements_eq_error {fault : Fault} (h : value.elements = .error fault) :
    fault = .unsuitable := by
  cases value <;> cases h <;> rfl

theorem length_eq_error {fault : Fault} (h : value.length = .error fault) :
    fault = .unsuitable := by
  cases value <;> cases h <;> rfl

/-- Either all elements are instances of the class, or there is a first one that is none. -/
theorem exists_first_stranger {className : String} {items : List Value}
    (h : ¬ ∀ item ∈ items, IsInstance scene.store className item) :
    ∃ before item after, items = before ++ item :: after ∧
      (∀ other ∈ before, IsInstance scene.store className other) ∧
      ¬ IsInstance scene.store className item := by
  induction items with
  | nil => simp at h
  | cons first rest ih =>
      by_cases hfirst : IsInstance scene.store className first
      · rw [List.forall_mem_cons, and_iff_right hfirst] at h
        obtain ⟨before, item, after, rfl, hbefore, hitem⟩ := ih h
        exact ⟨first :: before, item, after, rfl, List.forall_mem_cons.mpr ⟨hfirst, hbefore⟩, hitem⟩
      · exact ⟨[], first, rest, rfl, by simp, hfirst⟩

theorem decides_elements {className : String} (helement : terms.element = some className) :
    Decides ((Rule.elements className).apply scene value)
      (∃ items, value.elements = .ok items ∧ ∀ item ∈ items, IsInstance scene.store className item)
      value (Condition.Refuses scene terms value .elements) := by
  by_cases hholds : ∃ items, value.elements = .ok items ∧
      ∀ item ∈ items, IsInstance scene.store className item
  · refine decides_of_holds hholds ?_
    obtain ⟨items, hitems, hinstances⟩ := hholds
    have hchecked : scene.checkElements value (.type className) = .ok () :=
      checkElements_eq_ok.mpr
        ⟨items, hitems, fun item hitem => isInstanceOf_iff.mpr (hinstances item hitem)⟩
    rw [Rule.apply, hchecked]
    rfl
  · refine decides_of_not hholds ?_ fun refusal hrefusal => ?_
    · cases hitems : value.elements with
      | error fault =>
          obtain rfl := elements_eq_error hitems
          exact ⟨_, .notIterable hitems⟩
      | ok items =>
          obtain ⟨before, item, after, rfl, hbefore, hitem⟩ :=
            exists_first_stranger fun hall => hholds ⟨items, hitems, hall⟩
          exact ⟨_, .wrongElement helement hitems hbefore hitem⟩
    · rw [Rule.apply, Scene.checkElements]
      cases hrefusal with
      | notIterable hitems =>
          rw [hitems]
          rfl
      | @wrongElement _ before after item hother hitems hbefore hitem =>
          obtain rfl := Option.some.inj (helement.symm.trans hother)
          have hfirst := checkElementsFrom_first
            (fun other hother => isInstanceOf_iff.mpr (hbefore other hother))
            (Bool.eq_false_iff.mpr fun hinstance => hitem (isInstanceOf_iff.mp hinstance)) after 0
          rw [hitems]
          change (scene.checkElementsFrom className 0 (before ++ item :: after)).map _ = _
          rw [hfirst, Nat.zero_add]
          rfl

/-! ## Bounds -/

theorem checkBounds_of_outside {isLength : Bool} {minimum maximum : Value}
    (h : scene.isOutside value minimum maximum = .ok true) :
    scene.checkBounds isLength value minimum maximum =
      .error (Condition.outOfBounds scene isLength value minimum maximum) := by
  unfold Scene.checkBounds Condition.outOfBounds
  rw [h]
  cases scene.shown value with
  | error refusal => rfl
  | ok shown =>
      cases scene.boundText minimum with
      | error refusal => rfl
      | ok least =>
          cases scene.boundText maximum with
          | error refusal => rfl
          | ok greatest => rfl

theorem checkBounds_of_fault {isLength : Bool} {minimum maximum : Value} {fault : Fault}
    (h : scene.isOutside value minimum maximum = .error fault) :
    scene.checkBounds isLength value minimum maximum = .error (.fault fault) := by
  unfold Scene.checkBounds
  rw [h]
  rfl

theorem exists_isOutside {minimum maximum : Option Json} (hminimum : Numeric minimum)
    (hmaximum : Numeric maximum) (hnumber : value.number?.isSome = true) :
    ∃ outside, scene.isOutside value (.ofJson (minimum.getD .null)) (.ofJson (maximum.getD .null)) =
      .ok outside := by
  have hbelow : ∃ found, scene.below value (.ofJson (minimum.getD .null)) = .ok found := by
    cases minimum with
    | none => exact ⟨false, rfl⟩
    | some least =>
        have hleast := number?_ofJson (hminimum least rfl)
        exact ⟨_, (below_of_number hleast).trans (less_eq_lessNumber hnumber hleast)⟩
  have habove : ∃ found, scene.above value (.ofJson (maximum.getD .null)) = .ok found := by
    cases maximum with
    | none => exact ⟨false, rfl⟩
    | some greatest =>
        have hgreatest := number?_ofJson (hmaximum greatest rfl)
        exact ⟨_, (above_of_number hgreatest).trans (less_eq_lessNumber hgreatest hnumber)⟩
  obtain ⟨below, hbelow⟩ := hbelow
  unfold Scene.isOutside
  rw [hbelow]
  cases below with
  | true => exact ⟨true, rfl⟩
  | false => exact habove

theorem less_of_not_number {store : Store} {bound : Value} (hvalue : value.number? = none)
    (hbound : bound.number?.isSome = true) :
    store.less value bound = .error .unsuitable ∧ store.less bound value = .error .unsuitable := by
  cases bound with
  | bool _ | int _ | float _ =>
      cases value with
      | bool _ | int _ | float _ => cases hvalue
      | _ => exact ⟨rfl, rfl⟩
  | _ => cases hbound

theorem isOutside_of_not_number {minimum maximum : Option Json} (hminimum : Numeric minimum)
    (hmaximum : Numeric maximum) (hgiven : minimum.isSome || maximum.isSome)
    (hnumber : value.number? = none) :
    scene.isOutside value (.ofJson (minimum.getD .null)) (.ofJson (maximum.getD .null)) =
      .error .unsuitable := by
  unfold Scene.isOutside
  cases minimum with
  | some least =>
      have hleast := number?_ofJson (hminimum least rfl)
      rw [Option.getD_some, below_of_number hleast, (less_of_not_number hnumber hleast).1]
  | none =>
      cases maximum with
      | none => cases hgiven
      | some greatest =>
          have hgreatest := number?_ofJson (hmaximum greatest rfl)
          rw [Option.getD_some, above_of_number hgreatest, (less_of_not_number hnumber hgreatest).2]
          rfl

theorem isOutside_eq_false_iff_less {minimum maximum : Option Json} (hminimum : Numeric minimum)
    (hmaximum : Numeric maximum) :
    scene.isOutside value (.ofJson (minimum.getD .null)) (.ofJson (maximum.getD .null)) =
        .ok false ↔
      (∀ least ∈ minimum, scene.store.less value (.ofJson least) = .ok false) ∧
        ∀ greatest ∈ maximum, scene.store.less (.ofJson greatest) value = .ok false := by
  rw [isOutside_eq_false]
  refine and_congr ?_ ?_
  · cases minimum with
    | none => simp [Scene.below, Value.ofJson]
    | some least => simp [below_of_number (number?_ofJson (hminimum least rfl))]
  · cases maximum with
    | none => simp [Scene.above, Value.ofJson]
    | some greatest => simp [above_of_number (number?_ofJson (hmaximum greatest rfl))]

/-- Where every comparison has an answer, a quantity is let through or is out of bounds. -/
theorem decides_checkBounds {isLength : Bool} {quantity minimum maximum : Value}
    (houtside : ∃ outside, scene.isOutside quantity minimum maximum = .ok outside)
    (hrefuses : ∀ refusal,
      refuses refusal ↔ refusal = Condition.outOfBounds scene isLength quantity minimum maximum) :
    Decides ((scene.checkBounds isLength quantity minimum maximum).map fun _ => value)
      (scene.isOutside quantity minimum maximum = .ok false) value refuses := by
  obtain ⟨outside, houtside⟩ := houtside
  cases outside with
  | false =>
      refine decides_of_holds houtside ?_
      rw [checkBounds_eq_ok.mpr houtside]
      rfl
  | true =>
      refine decides_of_not (by simp [houtside]) ⟨_, (hrefuses _).mpr rfl⟩
        fun refusal hrefusal => ?_
      obtain rfl := (hrefuses refusal).mp hrefusal
      rw [checkBounds_of_outside houtside]
      rfl

theorem decides_length (hread : PropertyRead name terms.property) :
    Decides
      ((Rule.within .length terms.property.minItems terms.property.maxItems).apply scene value)
      (∃ length, value.length = .ok length ∧ LengthWithin terms.property length)
      value (Condition.Refuses scene terms value .length) := by
  rw [Rule.apply, Scene.checkMeasure, Scene.checkLength]
  cases hlength : value.length with
  | error fault =>
      obtain rfl := length_eq_error hlength
      refine decides_of_not (by simp) ⟨_, .noLength hlength⟩ fun refusal hrefusal => ?_
      cases hrefusal with
      | noLength => rfl
      | outOfLength hother =>
          rw [hlength] at hother
          cases hother
  | ok size =>
      have hwithin : (∃ length, (Except.ok size : Except Fault Nat) = .ok length ∧
          LengthWithin terms.property length) ↔ LengthWithin terms.property size := by simp
      have hiff : scene.isOutside (.int size) _ _ = .ok false ↔ LengthWithin terms.property size :=
        isOutside_eq_false_iff hread.minItems hread.maxItems
      rw [hwithin, ← hiff]
      refine decides_checkBounds (exists_isOutside hread.minItems hread.maxItems rfl)
        fun refusal => ⟨fun hrefusal => ?_, fun h => h ▸ .outOfLength hlength⟩
      cases hrefusal with
      | noLength hother =>
          rw [hlength] at hother
          cases hother
      | outOfLength hother =>
          obtain rfl := Except.ok.inj (hlength.symm.trans hother)
          rfl

theorem decides_bounds (hread : PropertyRead name terms.property) {measure : Measure}
    (hmeasure : measure ≠ .length) (hgiven : terms.property.hasNumericBounds = true) :
    Decides ((Rule.within measure terms.property.minimum terms.property.maximum).apply scene value)
      ((∀ least ∈ terms.property.minimum, scene.store.less value (.ofJson least) = .ok false) ∧
        ∀ greatest ∈ terms.property.maximum, scene.store.less (.ofJson greatest) value = .ok false)
      value (Condition.Refuses scene terms value .bounds) := by
  have hmeasured : ∀ minimum maximum,
      scene.checkMeasure measure value minimum maximum =
        scene.checkBounds false value minimum maximum := by
    cases measure with
    | length => exact absurd rfl hmeasure
    | integer | float => exact fun _ _ => rfl
  rw [← isOutside_eq_false_iff_less hread.minimum hread.maximum, Rule.apply, hmeasured]
  cases hnumber : value.number? with
  | none =>
      have houtside : scene.isOutside value _ _ = .error .unsuitable :=
        isOutside_of_not_number hread.minimum hread.maximum hgiven hnumber
      refine decides_of_not (by simp [houtside]) ⟨_, .incomparable hnumber⟩
        fun refusal hrefusal => ?_
      cases hrefusal with
      | incomparable =>
          rw [checkBounds_of_fault houtside]
          rfl
      | outOfBounds hother => simp [hnumber] at hother
  | some number =>
      have hsome : value.number?.isSome = true := by rw [hnumber]; rfl
      refine decides_checkBounds (exists_isOutside hread.minimum hread.maximum hsome)
        fun refusal => ⟨fun hrefusal => ?_, fun h => h ▸ .outOfBounds hsome⟩
      cases hrefusal with
      | incomparable hother => simp [hnumber] at hother
      | outOfBounds => rfl

/-! ## Moments and lists of values -/

theorem decides_moment (hstorage : terms.storage = some TypeName.moment) :
    Decides (Rule.moment.apply scene value) (value.moment?.isSome = true)
      (Condition.assigned terms.storage value)
      (Condition.Refuses scene terms value .moment) := by
  rw [Rule.apply, Condition.assigned, if_pos hstorage]
  cases hmoment : value.moment? with
  | some moment =>
      exact decides_of_holds rfl (parseMoment_eq_ok.mpr (by rw [hmoment]; rfl))
  | none =>
      refine decides_of_not (by simp) ⟨_, .notADate⟩ fun refusal hrefusal => ?_
      cases hrefusal
      have hrefused : scene.parseMoment value = (do
          let value ← scene.shown value
          .error (.violation (.notADate value))) := by
        unfold Scene.parseMoment
        unfold Value.moment? at hmoment
        cases value with
        | moment moment => cases hmoment
        | text text =>
            simp only at hmoment
            simp only [hmoment]
        | _ => rfl
      rw [hrefused, Condition.notADate]
      cases scene.shown value <;> rfl

theorem contains_ofItems_eq (store : Store) (value : Value) (choices : List Json) :
    ∃ found, store.contains value (.list (Value.ofItems choices)) = .ok found ∧
      (found = true ↔ ∃ choice ∈ choices, store.same value (.ofJson choice) = .ok true) := by
  unfold Store.contains
  simp only
  induction choices with
  | nil => exact ⟨false, rfl, by simp⟩
  | cons first rest ih =>
      obtain ⟨same, hsame⟩ : ∃ same, store.same value (.ofJson first) = .ok same :=
        Json.exists_sameWith_ofJson value first
      rw [Value.ofItems, Store.anySame, hsame]
      cases same with
      | true => exact ⟨true, rfl, by simp [hsame]⟩
      | false =>
          obtain ⟨found, hfound, hiff⟩ := ih
          exact ⟨found, hfound, by simp [hiff, hsame]⟩

theorem decides_listed {choices : List Json} (henum : terms.property.enum = some choices) :
    Decides ((Rule.oneOf choices).apply scene (Condition.assigned terms.storage value))
      (∃ choice ∈ choices,
        scene.store.same (Condition.assigned terms.storage value) (.ofJson choice) = .ok true)
      (Condition.assigned terms.storage value)
      (Condition.Refuses scene terms value .listed) := by
  obtain ⟨found, hfound, hiff⟩ :=
    contains_ofItems_eq scene.store (Condition.assigned terms.storage value) choices
  rw [← hiff]
  cases found with
  | true =>
      refine decides_of_holds rfl ?_
      rw [Rule.apply, checkOneOf_eq_ok.mpr hfound]
      rfl
  | false =>
      refine decides_of_not (by simp) ⟨_, .notListed henum⟩ fun refusal hrefusal => ?_
      cases hrefusal with
      | notListed hother =>
          obtain rfl := Option.some.inj (henum.symm.trans hother)
          have hrefused : scene.checkOneOf (Condition.assigned terms.storage value)
              (.list (Value.ofItems choices)) = (do
                let value ← scene.shown (Condition.assigned terms.storage value)
                let choices ← (Value.ofItems choices).mapM scene.shown
                .error (.violation (.notListed value choices))) := by
            unfold Scene.checkOneOf
            rw [hfound]
            rfl
          rw [Rule.apply, hrefused, Condition.notListed]
          cases scene.shown (Condition.assigned terms.storage value) with
          | error refusal => rfl
          | ok shown => cases (Value.ofItems choices).mapM scene.shown <;> rfl

/-! ## Rules -/

/-- The rule for the elements, if they are asked for. -/
def Terms.elementRules (terms : Terms) : List Rule :=
  if terms.storage = some TypeName.list ∧ terms.property.isReference = true then
    (terms.element.map Rule.elements).toList
  else []

/-- Each condition has a rule of its own, or none where it is not asked for. -/
def Terms.rules (terms : Terms) : List Rule :=
  terms.elementRules ++ lengthRules terms.storage terms.property ++
    boundRules terms.storage terms.property ++ momentRules terms.storage ++
    valueRules terms.property

theorem foldlM_singleton (rule : Rule) :
    [rule].foldlM (Rule.apply scene) value = rule.apply scene value := by
  rw [List.foldlM_cons]
  cases rule.apply scene value <;> rfl

theorem decides_elementRules
    (helement : terms.property.isReference = true → terms.element.isSome = true) :
    Decides (terms.elementRules.foldlM (Rule.apply scene) value)
      (Condition.elements.Holds scene.store terms value) value
      (Condition.elements.Refuses scene terms value) := by
  unfold Terms.elementRules
  split
  next hasked =>
    obtain ⟨className, hclass⟩ := Option.isSome_iff_exists.mp (helement hasked.2)
    have hholds : Condition.elements.Holds scene.store terms value ↔
        ∃ items, value.elements = .ok items ∧
          ∀ item ∈ items, IsInstance scene.store className item := by
      simp [Condition.Holds, hasked, hclass]
    have hrules : (terms.element.map Rule.elements).toList = [.elements className] := by
      rw [hclass]
      rfl
    rw [hholds, hrules, foldlM_singleton]
    exact decides_elements hclass
  next hasked =>
    exact decides_of_holds (fun hlist href => absurd ⟨hlist, href⟩ hasked) rfl

theorem decides_lengthRules (hread : PropertyRead name terms.property) :
    Decides ((lengthRules terms.storage terms.property).foldlM (Rule.apply scene) value)
      (Condition.length.Holds scene.store terms value) value
      (Condition.length.Refuses scene terms value) := by
  unfold lengthRules
  split
  next hasked =>
    obtain ⟨hlist, hbounds⟩ : terms.storage = some TypeName.list ∧
        terms.property.hasItemBounds = true := by
      simpa using hasked
    have hholds : Condition.length.Holds scene.store terms value ↔
        ∃ length, value.length = .ok length ∧ LengthWithin terms.property length := by
      simp [Condition.Holds, hlist, hbounds]
    rw [hholds, foldlM_singleton]
    exact decides_length hread
  next hasked =>
    exact decides_of_holds (fun hlist hbounds => absurd (by simp [hlist, hbounds]) hasked) rfl

theorem decides_boundRules (hread : PropertyRead name terms.property) :
    Decides ((boundRules terms.storage terms.property).foldlM (Rule.apply scene) value)
      (Condition.bounds.Holds scene.store terms value) value
      (Condition.bounds.Refuses scene terms value) := by
  unfold boundRules
  split
  next hnone =>
    refine decides_of_holds (fun _ => ?_) rfl
    obtain ⟨hminimum, hmaximum⟩ : terms.property.minimum = none ∧
        terms.property.maximum = none := by
      simpa [Property.hasNumericBounds] using hnone
    simp [hminimum, hmaximum]
  next hgiven =>
    have hgiven : terms.property.hasNumericBounds = true := by simpa using hgiven
    have hholds : terms.storage = some TypeName.int ∨ terms.storage = some TypeName.float →
        (Condition.bounds.Holds scene.store terms value ↔
          (∀ least ∈ terms.property.minimum, scene.store.less value (.ofJson least) = .ok false) ∧
            ∀ greatest ∈ terms.property.maximum,
              scene.store.less (.ofJson greatest) value = .ok false) :=
      fun hnumber => by simp [Condition.Holds, hnumber]
    split
    next hint =>
      rw [hholds (.inl (by simpa using hint)), foldlM_singleton]
      exact decides_bounds hread (by decide) hgiven
    next hint =>
      split
      next hfloat =>
        rw [hholds (.inr (by simpa using hfloat)), foldlM_singleton]
        exact decides_bounds hread (by decide) hgiven
      next hfloat =>
        refine decides_of_holds (fun hnumber => ?_) rfl
        rcases hnumber with hstorage | hstorage
        · exact absurd (by simp [hstorage]) hint
        · exact absurd (by simp [hstorage]) hfloat

theorem decides_momentRules :
    Decides ((momentRules terms.storage).foldlM (Rule.apply scene) value)
      (Condition.moment.Holds scene.store terms value)
      (Condition.assigned terms.storage value)
      (Condition.moment.Refuses scene terms value) := by
  unfold momentRules
  split
  next hasked =>
    have hmoment : terms.storage = some TypeName.moment := by simpa using hasked
    have hholds : Condition.moment.Holds scene.store terms value ↔
        value.moment?.isSome = true := by simp [Condition.Holds, hmoment]
    rw [hholds, foldlM_singleton]
    exact decides_moment hmoment
  next hasked =>
    have hother : terms.storage ≠ some TypeName.moment := by simpa using hasked
    refine decides_of_holds (fun hmoment => absurd hmoment hother) ?_
    rw [Condition.assigned, if_neg hother]
    rfl

theorem decides_valueRules :
    Decides ((valueRules terms.property).foldlM (Rule.apply scene)
        (Condition.assigned terms.storage value))
      (Condition.listed.Holds scene.store terms value)
      (Condition.assigned terms.storage value)
      (Condition.listed.Refuses scene terms value) := by
  unfold valueRules
  cases henum : terms.property.enum with
  | none => exact decides_of_holds (by simp [Condition.Holds, henum]) rfl
  | some choices =>
      have hholds : Condition.listed.Holds scene.store terms value ↔
          ∃ choice ∈ choices,
            scene.store.same (Condition.assigned terms.storage value) (.ofJson choice) =
              .ok true := by
        simp [Condition.Holds, henum]
      rw [hholds]
      exact (foldlM_singleton (.oneOf choices)).symm ▸ decides_listed henum

/-- All conditions together decide over a value. -/
theorem decides_rules (hread : PropertyRead name terms.property)
    (helement : terms.property.isReference = true → terms.element.isSome = true) :
    DecidesInOrder scene terms value (terms.rules.foldlM (Rule.apply scene) value) Condition.all
      (Condition.assigned terms.storage value) := by
  have hrules : terms.rules = terms.elementRules ++
      (lengthRules terms.storage terms.property ++ (boundRules terms.storage terms.property ++
        (momentRules terms.storage ++ (valueRules terms.property ++ [])))) := by
    simp [Terms.rules]
  rw [hrules]
  exact (decides_elementRules helement).before <| (decides_lengthRules hread).before <|
    (decides_boundRules hread).before <| decides_momentRules.before <|
      decides_valueRules.before decidesInOrder_nil

end Checks

/-! ## Properties -/

section Properties

variable {root : Json} {property : Property} {name place : String} {schema : Json}

/-- The types of the terms are those of the property. -/
structure Terms.Of (terms : Terms) (root : Json) (given : Property) : Prop where
  property : terms.property = given
  storage : storageType root given = .ok terms.storage
  element : elementType root given = .ok terms.element

theorem exists_referencedType
    (hresolves : ∀ pointer ∈ property.reference?, ∃ resolved, resolve root pointer = .ok resolved) :
    ∃ type, referencedType root property = .ok type ∧
      (property.isReference = true → type.isSome = true) := by
  unfold referencedType
  split
  next href =>
    obtain ⟨pointer, hpointer⟩ := reference?_of_isReference href
    obtain ⟨resolved, hresolved⟩ := hresolves pointer hpointer
    have hfound := resolveProperty_eq_ok.mpr ⟨pointer, hpointer, hresolved⟩
    exact ⟨_, map_eq_ok.mpr ⟨resolved, hfound, rfl⟩, fun _ => rfl⟩
  next href => exact ⟨none, rfl, fun h => absurd h href⟩

/-- A property whose reference leads somewhere has terms, and its rules are theirs. -/
theorem exists_terms
    (hresolves : ∀ pointer ∈ property.reference?, ∃ resolved, resolve root pointer = .ok resolved) :
    ∃ terms : Terms, terms.Of root property ∧
      (property.isReference = true → terms.element.isSome = true) ∧
      rulesOf root property = .ok terms.rules := by
  obtain ⟨type, htype, hsome⟩ := exists_referencedType hresolves
  obtain ⟨storage, hstorage⟩ : ∃ storage, storageType root property = .ok storage := by
    unfold storageType
    split
    · exact ⟨_, rfl⟩
    · split
      · exact ⟨_, rfl⟩
      · exact ⟨type, htype⟩
  obtain ⟨element, helement, hgiven⟩ : ∃ element, elementType root property = .ok element ∧
      (property.isReference = true → element.isSome = true) := by
    unfold elementType
    split
    · exact ⟨_, rfl, fun _ => rfl⟩
    · exact ⟨type, htype, hsome⟩
  refine ⟨⟨property, storage, element⟩, ⟨rfl, hstorage, helement⟩, hgiven, ?_⟩
  have helements : Blueprint.elementRules root property =
      .ok (Terms.elementRules ⟨property, storage, element⟩) := by
    unfold Blueprint.elementRules isPureArray isArray Terms.elementRules
    rw [hstorage, helement]
    by_cases href : property.isReference = true
    · by_cases hlist : storage = some TypeName.list
      · simp [href, hlist, Except.map, bind, Except.bind]
      · simp [href, hlist, Except.map, bind, Except.bind]
    · simp [href, bind, Except.bind]
  unfold rulesOf
  rw [hstorage, helements]
  rfl

/-- The rules of a property let a value through where it meets every condition of the property, and
then as it is or as the moment that it stands for.  Otherwise they refuse it for the first condition
that it does not meet. -/
theorem rules_let_through_iff (hread : Property.read name schema place = .ok property)
    (hresolves : ∀ pointer ∈ property.reference?, ∃ resolved, resolve root pointer = .ok resolved) :
    ∃ (terms : Terms) (rules : List Rule), terms.Of root property ∧
      rulesOf root property = .ok rules ∧
      ∀ (scene : Scene) (value : Value),
        (∀ taken, rules.foldlM (Rule.apply scene) value = .ok taken ↔
          (∀ condition : Condition, condition.Holds scene.store terms value) ∧
            taken = Condition.assigned terms.storage value) ∧
        ∀ refusal, rules.foldlM (Rule.apply scene) value = .error refusal ↔
          Condition.RefusesFirst scene terms value Condition.all refusal := by
  obtain ⟨terms, hterms, helement, hrules⟩ := exists_terms hresolves
  refine ⟨terms, terms.rules, hterms, hrules, fun scene value => ?_⟩
  obtain rfl := hterms.property
  have hdecides : DecidesInOrder scene terms value _ _ _ :=
    decides_rules (read_property_eq_ok hread) helement
  refine ⟨fun taken => (hdecides.ok taken).trans (and_congr_left fun _ => ?_), hdecides.error⟩
  exact ⟨fun h condition => h condition (Condition.mem_all condition),
    fun h condition _ => h condition⟩

end Properties

/-! ## The guests of a stay -/

def guestsSchema : Json := .obj [("type", .str "array"),
  ("items", .obj [("$ref", .str "#/definitions/Guest")]), ("minItems", .int 1)]

def guestsRoot : Json := .obj [("definitions", .obj [("Guest", .obj [])])]

def guestsProperty : Property where
  name := "guests"
  type := some "array"
  itemsRef := some "#/definitions/Guest"
  minItems := some (.int 1)

def guestsScene : Scene where
  library := []
  store := { instances := [{ className := "Guest" }, { className := "Room" }] }

theorem rules_let_through_iff_guests : ∃ rules,
    rulesOf guestsRoot guestsProperty = .ok rules ∧
    rules.foldlM (Rule.apply guestsScene) (.list [.instance 0]) = .ok (.list [.instance 0]) ∧
    rules.foldlM (Rule.apply guestsScene) (.list [.instance 0, .instance 1]) =
      .error (.violation (.wrongElement 1 "Guest" "Room")) := by
  have hread : Property.read "guests" guestsSchema "" = .ok guestsProperty := rfl
  have hresolves : ∀ pointer ∈ guestsProperty.reference?,
      ∃ resolved, resolve guestsRoot pointer = .ok resolved := by
    rintro pointer ⟨⟩
    exact ⟨⟨"Guest", .obj []⟩, rfl⟩
  obtain ⟨⟨property, storage, element⟩, rules, ⟨rfl, hstorage, helement⟩, hrules, hthrough⟩ :=
    rules_let_through_iff hread hresolves
  obtain rfl : some TypeName.list = storage := Except.ok.inj hstorage
  obtain rfl : some "Guest" = element := Except.ok.inj helement
  have hguest : IsInstance guestsScene.store "Guest" (.instance 0) := ⟨0, rfl, rfl⟩
  have hroom : ¬ IsInstance guestsScene.store "Guest" (.instance 1) := by
    rintro ⟨id, ⟨⟩, hclass⟩
    exact absurd hclass (by decide)
  refine ⟨rules, hrules, ((hthrough _ _).1 _).mpr ⟨fun condition => ?_, rfl⟩,
    ((hthrough _ _).2 _).mpr (.here (fun hall => ?_) ?_)⟩
  · cases condition with
    | elements => exact fun _ _ => ⟨_, _, rfl, rfl, List.forall_mem_singleton.mpr hguest⟩
    | length => exact fun _ _ => ⟨1, rfl, by rintro bound ⟨⟩; rfl, nofun⟩
    | bounds => exact fun hnumber => absurd hnumber (by decide)
    | moment => exact fun hmoment => absurd hmoment (by decide)
    | listed => nofun
  · obtain ⟨className, items, ⟨⟩, ⟨⟩, hinstances⟩ := hall rfl rfl
    exact hroom (hinstances _ (by simp))
  · have hitems : (Value.list [.instance 0, .instance 1]).elements =
        .ok ([.instance 0] ++ .instance 1 :: []) := rfl
    exact .wrongElement rfl hitems (List.forall_mem_singleton.mpr hguest) hroom

end ModelMint
