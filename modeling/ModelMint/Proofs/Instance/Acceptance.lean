import ModelMint.Proofs.Instance.Comparison
import ModelMint.Proofs.Instance.Setter

/-!
# Which values a rule accepts

A rule accepts a value or refuses it; what it accepts it hands on, the rule for moments
as the moment.  Acceptance looks at the classes of instances and never at what they hold.
-/

namespace ModelMint

open ModelMint.Emit
open ModelMint.Blueprint
open ModelMint.Schema

theorem Scene.ofFault_eq_ok {α : Type} {result : Except Fault α} {value : α} :
    Scene.ofFault result = .ok value ↔ result = .ok value := by
  cases result <;> simp [Scene.ofFault]

/-! ## Checks -/

section Checks

variable {scene : Scene} {value minimum maximum : Value}

theorem checkElementsFrom_eq_ok {className : String} {index : Nat} {items : List Value} :
    scene.checkElementsFrom className index items = .ok () ↔
      ∀ item ∈ items, scene.isInstanceOf item className = true := by
  induction items generalizing index with
  | nil => simp [Scene.checkElementsFrom]
  | cons item rest ih =>
      rw [Scene.checkElementsFrom]
      split
      next h => rw [ih, List.forall_mem_cons, and_iff_right h]
      next h =>
        rw [List.forall_mem_cons]
        constructor
        · intro hrefused
          cases hrefused
        · rintro ⟨hinstance, -⟩
          exact absurd hinstance h

theorem checkElements_eq_ok {className : String} :
    scene.checkElements value (.type className) = .ok () ↔
      ∃ items, value.elements = .ok items ∧
        ∀ item ∈ items, scene.isInstanceOf item className = true := by
  unfold Scene.checkElements
  rw [bind_eq_ok]
  constructor
  · rintro ⟨items, hitems, hchecked⟩
    exact ⟨items, Scene.ofFault_eq_ok.mp hitems, checkElementsFrom_eq_ok.mp hchecked⟩
  · rintro ⟨items, hitems, hchecked⟩
    exact ⟨items, Scene.ofFault_eq_ok.mpr hitems, checkElementsFrom_eq_ok.mpr hchecked⟩

theorem checkBounds_eq_ok {isLength : Bool} :
    scene.checkBounds isLength value minimum maximum = .ok () ↔
      scene.isOutside value minimum maximum = .ok false := by
  unfold Scene.checkBounds
  rw [bind_eq_ok]
  constructor
  · rintro ⟨outside, houtside, hchecked⟩
    cases outside with
    | false => exact Scene.ofFault_eq_ok.mp houtside
    | true => exact absurd hchecked (bind_ne_ok fun _ => bind_ne_ok fun _ => bind_ne_ok nofun)
  · intro h
    exact ⟨false, Scene.ofFault_eq_ok.mpr h, rfl⟩

theorem isOutside_eq_false :
    scene.isOutside value minimum maximum = .ok false ↔
      scene.below value minimum = .ok false ∧ scene.above value maximum = .ok false := by
  unfold Scene.isOutside
  split
  next hbelow => exact (and_iff_right hbelow).symm
  next hbelow => exact iff_of_false hbelow fun h => hbelow h.1

/-- What a check of bounds measures. -/
def measured (measure : Measure) (value : Value) : Except Fault Value :=
  match measure with
  | .length => value.length.map fun length : Nat => .int length
  | .integer | .float => .ok value

theorem checkMeasure_eq_ok {measure : Measure} :
    scene.checkMeasure measure value minimum maximum = .ok () ↔
      ∃ quantity, measured measure value = .ok quantity ∧
        scene.isOutside quantity minimum maximum = .ok false := by
  cases measure with
  | length =>
      simp only [Scene.checkMeasure, Scene.checkLength, measured]
      rw [bind_eq_ok]
      constructor
      · rintro ⟨length, hlength, hchecked⟩
        exact ⟨.int length, map_eq_ok.mpr ⟨length, Scene.ofFault_eq_ok.mp hlength, rfl⟩,
          checkBounds_eq_ok.mp hchecked⟩
      · rintro ⟨quantity, hquantity, houtside⟩
        obtain ⟨length, hlength, rfl⟩ := map_eq_ok.mp hquantity
        exact ⟨length, Scene.ofFault_eq_ok.mpr hlength, checkBounds_eq_ok.mpr houtside⟩
  | integer | float =>
      simp [Scene.checkMeasure, measured, checkBounds_eq_ok]

theorem checkOneOf_eq_ok {allowed : Value} :
    scene.checkOneOf value allowed = .ok () ↔ scene.store.contains value allowed = .ok true := by
  unfold Scene.checkOneOf
  rw [bind_eq_ok]
  constructor
  · rintro ⟨found, hfound, hchecked⟩
    cases found with
    | true => exact Scene.ofFault_eq_ok.mp hfound
    | false => exact absurd hchecked (bind_ne_ok fun _ => bind_ne_ok fun _ => bind_ne_ok nofun)
  · intro h
    exact ⟨true, Scene.ofFault_eq_ok.mpr h, rfl⟩

/-- The moment that a value is, or is the text of. -/
def Value.moment? : Value → Option Moment
  | .moment given => some given
  | .text given => Moment.read? given.toList
  | _ => .none

theorem parseMoment_eq_ok {parsed : Value} :
    scene.parseMoment value = .ok parsed ↔ value.moment?.map Value.moment = some parsed := by
  have hrefuse : ∀ shown : Except Refusal String,
      (do let text ← shown; .error (.violation (.notADate text)) : Except Refusal Value) ≠
        .ok parsed := fun shown => bind_ne_ok nofun
  unfold Scene.parseMoment Value.moment?
  cases value with
  | moment moment => simp
  | text text =>
      cases hread : Moment.read? text.toList with
      | some moment => simp [hread]
      | none =>
          simp only [hread, Option.map_none, reduceCtorEq, iff_false]
          exact hrefuse _
  | _ =>
      simp only [Option.map_none, reduceCtorEq, iff_false]
      exact hrefuse _

end Checks

/-! ## Rules -/

section Rules

variable {scene : Scene} {className : String} {code : SetterCode} {value taken : Value}

theorem judge_elements_eq_ok {expected : String} :
    (Rule.elements expected).judge scene className code value = .ok taken ↔
      taken = value ∧ ∃ items, value.elements = .ok items ∧
        ∀ item ∈ items, scene.isInstanceOf item (privateName className expected) = true := by
  rw [Blueprint.Rule.judge, map_eq_ok]
  constructor
  · rintro ⟨_, hchecked, rfl⟩
    exact ⟨rfl, checkElements_eq_ok.mp hchecked⟩
  · rintro ⟨rfl, hitems⟩
    exact ⟨(), checkElements_eq_ok.mpr hitems, rfl⟩

theorem judge_within_eq_ok {measure : Measure} {minimum maximum : Option Json} :
    (Rule.within measure minimum maximum).judge scene className code value = .ok taken ↔
      taken = value ∧ ∃ least greatest quantity,
        literalValue (setterNames className code (.operation (measureOperation measure)) value)
          (minimum.getD .null) = .ok least ∧
        literalValue (setterNames className code (.operation (measureOperation measure)) value)
          (maximum.getD .null) = .ok greatest ∧
        measured measure value = .ok quantity ∧
        scene.isOutside quantity least greatest = .ok false := by
  rw [Blueprint.Rule.judge, bind_eq_ok]
  constructor
  · rintro ⟨least, hleast, h⟩
    obtain ⟨greatest, hgreatest, h⟩ := bind_eq_ok.mp h
    obtain ⟨_, hchecked, rfl⟩ := map_eq_ok.mp h
    obtain ⟨quantity, hquantity, houtside⟩ := checkMeasure_eq_ok.mp hchecked
    exact ⟨rfl, least, greatest, quantity, Scene.ofFault_eq_ok.mp hleast,
      Scene.ofFault_eq_ok.mp hgreatest, hquantity, houtside⟩
  · rintro ⟨rfl, least, greatest, quantity, hleast, hgreatest, hquantity, houtside⟩
    exact ⟨least, Scene.ofFault_eq_ok.mpr hleast, bind_eq_ok.mpr ⟨greatest,
      Scene.ofFault_eq_ok.mpr hgreatest, map_eq_ok.mpr ⟨(),
        checkMeasure_eq_ok.mpr ⟨quantity, hquantity, houtside⟩, rfl⟩⟩⟩

theorem judge_oneOf_eq_ok {values : List Json} :
    (Rule.oneOf values).judge scene className code value = .ok taken ↔
      taken = value ∧ ∃ allowed,
        literalValue (setterNames className code (.operation .checkOneOf) value) (.arr values) =
          .ok allowed ∧
        scene.store.contains value allowed = .ok true := by
  rw [Blueprint.Rule.judge, bind_eq_ok]
  constructor
  · rintro ⟨allowed, hallowed, h⟩
    obtain ⟨_, hchecked, rfl⟩ := map_eq_ok.mp h
    exact ⟨rfl, allowed, Scene.ofFault_eq_ok.mp hallowed, checkOneOf_eq_ok.mp hchecked⟩
  · rintro ⟨rfl, allowed, hallowed, hfound⟩
    exact ⟨allowed, Scene.ofFault_eq_ok.mpr hallowed,
      map_eq_ok.mpr ⟨(), checkOneOf_eq_ok.mpr hfound, rfl⟩⟩

theorem judge_eq_self {rule : Rule} (hrule : rule ≠ .moment)
    (h : rule.judge scene className code value = .ok taken) : taken = value := by
  cases rule with
  | elements expected => exact (judge_elements_eq_ok.mp h).1
  | within measure minimum maximum => exact (judge_within_eq_ok.mp h).1
  | moment => exact absurd rfl hrule
  | oneOf values => exact (judge_oneOf_eq_ok.mp h).1

end Rules

/-! ## Other stores -/

section Stores

variable {store other : Store}

/-- Two stores with instances of the same classes. -/
def SameClasses (store other : Store) : Prop := ∀ id, store.classOf id = other.classOf id

theorem isInstanceOf_congr {library : Library} (h : SameClasses store other) (value : Value)
    (className : String) :
    (Scene.mk library store).isInstanceOf value className =
      (Scene.mk library other).isInstanceOf value className := by
  unfold Scene.isInstanceOf
  split
  next id => rw [h id]
  · rfl

/-- Only lists are compared by what they hold. -/
theorem less_congr {value bound : Value} (h : ∀ items, bound ≠ .list items) :
    store.less value bound = other.less value bound ∧
      store.less bound value = other.less bound value := by
  unfold Store.less
  cases bound with
  | list items => exact absurd rfl (h items)
  | _ => cases value <;> exact ⟨rfl, rfl⟩

theorem isOutside_congr {library : Library} {value minimum maximum : Value}
    (h : (∀ items, value ≠ .list items) ∨
      (∀ items, minimum ≠ .list items) ∧ (∀ items, maximum ≠ .list items)) :
    (Scene.mk library store).isOutside value minimum maximum =
      (Scene.mk library other).isOutside value minimum maximum := by
  have hbelow : (Scene.mk library store).below value minimum =
      (Scene.mk library other).below value minimum := by
    unfold Scene.below
    split
    · rfl
    · rcases h with hvalue | ⟨hminimum, -⟩
      · exact (less_congr hvalue).2
      · exact (less_congr hminimum).1
  have habove : (Scene.mk library store).above value maximum =
      (Scene.mk library other).above value maximum := by
    unfold Scene.above
    split
    · rfl
    · rcases h with hvalue | ⟨-, hmaximum⟩
      · exact (less_congr hvalue).1
      · exact (less_congr hmaximum).2
  unfold Scene.isOutside
  rw [hbelow, habove]

theorem contains_ofItems (value : Value) (items : List Json) :
    store.contains value (.list (Value.ofItems items)) =
      other.contains value (.list (Value.ofItems items)) := by
  unfold Store.contains
  simp only
  induction items with
  | nil => rfl
  | cons item rest ih =>
      rw [Value.ofItems, Store.anySame, Store.anySame, Store.same, Store.same,
        Json.sameWith_ofJson value item, ih]

/-! ## Sound rules -/

/-- A rule with numbers for bounds and with values that have literals. -/
def Blueprint.Rule.Sound : Rule → Prop
  | .within _ minimum maximum => Numeric minimum ∧ Numeric maximum
  | .oneOf values => Json.itemsFinite values = true
  | _ => True

/-- A bound is a list only where a name stands for one. -/
theorem literalValue_ne_list {scope : Scope} (hscope : ∀ name items, scope name ≠ some (.list items))
    {bound : Option Json} (hbound : Numeric bound) {value : Value}
    (h : literalValue scope (bound.getD .null) = .ok value) (items : List Value) :
    value ≠ .list items := by
  rintro rfl
  cases bound with
  | none => simp [literalValue, Value.ofJson] at h
  | some written =>
      rcases hbound written rfl with ⟨number, rfl⟩ | ⟨number, rfl⟩
      · simp [literalValue, Value.ofJson] at h
      · rw [Option.getD_some, literalValue] at h
        rcases floatValue_eq_ok h with ⟨-, hstated⟩ | ⟨-, name, found, -, hfound, hstated⟩
        · cases hstated
        · rcases hstated with rfl | hnegated
          · exact hscope name items hfound
          · cases found <;> simp [negated] at hnegated

theorem setterNames_ne_list {className : String} {code : SetterCode} {value : Value}
    (name : String) (items : List Value) :
    setterNames className code (.operation .checkNumberKind) value name ≠ some (.list items) := by
  unfold setterNames classNames ownBound
  split
  · cases value <;> simp [comparesNumbers]
  · split
    · simp
    · split <;> simp

/-- What a sound rule accepts does not depend on what instances hold. -/
theorem judge_congr {library : Library} {className : String} {code : SetterCode}
    {value taken : Value} (hsame : SameClasses store other) {rule : Rule} (hsound : rule.Sound)
    (h : rule.judge ⟨library, store⟩ className code value = .ok taken) :
    rule.judge ⟨library, other⟩ className code value = .ok taken := by
  cases rule with
  | elements expected =>
      obtain ⟨rfl, items, hitems, hinstances⟩ := judge_elements_eq_ok.mp h
      refine judge_elements_eq_ok.mpr ⟨rfl, items, hitems, fun item hitem => ?_⟩
      rw [← isInstanceOf_congr hsame]
      exact hinstances item hitem
  | within measure minimum maximum =>
      obtain ⟨rfl, least, greatest, quantity, hleast, hgreatest, hquantity, houtside⟩ :=
        judge_within_eq_ok.mp h
      refine judge_within_eq_ok.mpr
        ⟨rfl, least, greatest, quantity, hleast, hgreatest, hquantity, ?_⟩
      rw [← houtside]
      apply isOutside_congr
      cases measure with
      | length =>
          obtain ⟨length, -, rfl⟩ := map_eq_ok.mp hquantity
          exact .inl fun items heq => by cases heq
      | integer | float =>
          exact .inr ⟨literalValue_ne_list setterNames_ne_list hsound.1 hleast,
            literalValue_ne_list setterNames_ne_list hsound.2 hgreatest⟩
  | moment => exact parseMoment_eq_ok.mpr (parseMoment_eq_ok.mp h)
  | oneOf values =>
      obtain ⟨rfl, allowed, hallowed, hfound⟩ := judge_oneOf_eq_ok.mp h
      refine judge_oneOf_eq_ok.mpr ⟨rfl, allowed, hallowed, ?_⟩
      rw [literalValue_of_isFinite (by rw [Json.isFinite]; exact hsound)] at hallowed
      cases hallowed
      rw [Value.ofJson] at hfound ⊢
      exact (contains_ofItems _ values).symm.trans hfound

theorem verdict_congr {library : Library} {className : String} {member : Blueprint.Member}
    {value taken : Value} (hsame : SameClasses store other)
    (hsound : ∀ rule ∈ member.rules, rule.Sound)
    (h : member.verdict ⟨library, store⟩ className value = .ok taken) :
    member.verdict ⟨library, other⟩ className value = .ok taken := by
  -- a rule hands its value on, so the claim is for every value that the rest starts with
  have hfold : ∀ (rules : List Rule) (value : Value), (∀ rule ∈ rules, rule.Sound) →
      rules.foldlM (Blueprint.Rule.judge ⟨library, store⟩ className (standardSetter member)) value =
        .ok taken →
      rules.foldlM (Blueprint.Rule.judge ⟨library, other⟩ className (standardSetter member)) value =
        .ok taken := by
    intro rules
    induction rules with
    | nil => exact fun _ _ h => h
    | cons rule rest ih =>
        intro value hrules h
        rw [List.foldlM_cons] at h ⊢
        obtain ⟨first, hfirst, hrest⟩ := bind_eq_ok.mp h
        obtain ⟨hrule, hothers⟩ := List.forall_mem_cons.mp hrules
        exact bind_eq_ok.mpr ⟨first, judge_congr hsame hrule hfirst, ih first hothers hrest⟩
  unfold Blueprint.Member.verdict at h ⊢
  simp only at h ⊢
  split at h
  · cases h
  next himport =>
    rw [if_neg himport]
    split at h
    · cases h
    next hself =>
      rw [if_neg hself]
      exact hfold member.rules value hsound h

end Stores

end ModelMint
