import ModelMint.Proofs.Instance.Beginning
import ModelMint.Proofs.Instance.FieldMap
import ModelMint.Proofs.Instance.Numbers

/-!
# Fields keep their limits

Values come into an instance when it is made and through its setters.  A setter lets a
number through only within the bounds of its property, and any value only if it is one of
the allowed ones.  What a field begins with is not checked: so in every state a field
holds nothing, what it began with, or a value within its limits.
-/

namespace ModelMint

open ModelMint.Emit
open ModelMint.Blueprint
open ModelMint.Schema

/-! ## Order -/

/-- Whether both values are numbers, and the first is not above the second. -/
def Value.atMost (value other : Value) : Bool :=
  match value.number?, other.number? with
  | some a, some b => (a.compare b).any Ordering.isLE
  | _, _ => false

/-- Whether the value is a float that is no number. -/
def Value.isUndefined (value : Value) : Bool :=
  match value.number? with
  | some .undefined => true
  | _ => false

theorem less_eq_ok {store : Store} {value other : Value} {found : Bool}
    (hnumber : value.number?.isSome = true ∨ other.number?.isSome = true)
    (h : store.less value other = .ok found) :
    ∃ p q, value.number? = some p ∧ other.number? = some q ∧
      found = (p.compare q == some .lt) := by
  unfold Store.less at h
  split at h
  · simp [Value.number?] at hnumber
  · simp [Value.number?] at hnumber
  · simp [Value.number?] at hnumber
  · split at h
    next p q hvalue hother =>
      cases h
      exact ⟨p, q, hvalue, hother, rfl⟩
    · cases h

theorem atMost_of_not_less {store : Store} {value other : Value}
    (hnumber : value.number?.isSome = true ∨ other.number?.isSome = true)
    (hvalue : value.isUndefined = false) (hother : other.isUndefined = false)
    (h : store.less value other = .ok false) : other.atMost value = true := by
  obtain ⟨p, q, hp, hq, hless⟩ := less_eq_ok hnumber h
  have hdefined : ∀ {given : Value} {point : Binary64.Point}, given.number? = some point →
      given.isUndefined = false → point ≠ .undefined := by
    rintro given point hpoint hgiven rfl
    simp [Value.isUndefined, hpoint] at hgiven
  obtain ⟨order, horder⟩ := Option.isSome_iff_exists.mp
    (Binary64.Point.compare_isSome (hdefined hp hvalue) (hdefined hq hother))
  have hback : q.compare p = some order.swap := by
    rw [Binary64.Point.compare_eq_swap p q, horder]
    rfl
  have hnot : order ≠ .lt := by
    rintro rfl
    simp [horder] at hless
  simp only [Value.atMost, hp, hq, hback, Option.any_some]
  cases order with
  | lt => exact absurd rfl hnot
  | eq | gt => rfl

/-! ## Limits -/

/-- Whether a field holds numbers. -/
def Blueprint.Field.isNumber (field : Field) : Bool :=
  field.storage == some TypeName.int || field.storage == some TypeName.float

/-- A literal in which nothing else is known by the name: the words for the numbers without a
literal are names like any other. -/
def Unshadowed (name : String) (value : Json) : Prop :=
  value.isFinite = true ∨ name ≠ infinityName ∧ name ≠ undefinedName

/-- Between the bounds that are given, where the name shadows none of them. -/
structure Between (name : String) (minimum maximum : Option Json) (value : Value) : Prop where
  least : ∀ bound ∈ minimum, Unshadowed name bound → Value.atMost (.ofJson bound) value = true
  greatest : ∀ bound ∈ maximum, Unshadowed name bound → Value.atMost value (.ofJson bound) = true

/-- A value that the bounds and the allowed values of a property admit.  A float that is no number
has no place between bounds. -/
structure WithinLimits (property : Property) (field : Field) (value : Value) : Prop where
  between : field.isNumber = true → value.isUndefined = false →
    Between field.attr property.minimum property.maximum value
  listed : ∀ values ∈ property.enum, ∃ allowed ∈ values,
    ∀ store : Store, store.same value (.ofJson allowed) = .ok true

section Judging

variable {scene : Scene} {className : String} {code : SetterCode} {value taken : Value}

theorem setterNames_of_ne {name : String} {check : Member} {found : Value}
    (hname : name ≠ code.attr) (h : setterNames className code check value name = some found) :
    ∃ known, found = .type known := by
  unfold setterNames classNames at h
  split at h
  next hparameter => exact absurd (by simpa using hparameter) hname
  · split at h
    · exact ⟨_, (Option.some.inj h).symm⟩
    · split at h
      · exact ⟨_, (Option.some.inj h).symm⟩
      · cases h

/-- A bound is stated as it is, or as a class. -/
theorem literalValue_unshadowed {check : Member} {bound : Json} {stated : Value}
    (hbound : (∃ number, bound = .int number) ∨ ∃ number, bound = .float number)
    (hclear : Unshadowed code.attr bound)
    (h : literalValue (setterNames className code check value) bound = .ok stated) :
    stated = .ofJson bound ∧ bound.isFinite = true ∨ ∃ known, stated = .type known := by
  by_cases hfinite : bound.isFinite = true
  · rw [literalValue_of_isFinite hfinite] at h
    exact .inl ⟨(Except.ok.inj h).symm, hfinite⟩
  · obtain ⟨hinfinity, hundefined⟩ := hclear.resolve_left hfinite
    rcases hbound with ⟨number, rfl⟩ | ⟨number, rfl⟩
    · exact absurd rfl hfinite
    · rw [literalValue] at h
      rcases floatValue_eq_ok h with ⟨hnumber, -⟩ | ⟨-, name, found, hname, hfound, hstated⟩
      · exact absurd hnumber hfinite
      -- the word is not the parameter, so what it stands for is a class, which has no negative
      · have hother : name ≠ code.attr := by
          rcases hname with rfl | rfl
          · exact hinfinity.symm
          · exact hundefined.symm
        obtain ⟨known, rfl⟩ := setterNames_of_ne hother hfound
        rcases hstated with rfl | hnegated
        · exact .inr ⟨known, rfl⟩
        · cases hnegated

theorem number?_of_isFinite {bound : Json}
    (hbound : (∃ number, bound = .int number) ∨ ∃ number, bound = .float number)
    (hfinite : bound.isFinite = true) :
    (Value.ofJson bound).number?.isSome = true ∧ (Value.ofJson bound).isUndefined = false := by
  rcases hbound with ⟨number, rfl⟩ | ⟨number, rfl⟩
  · exact ⟨rfl, rfl⟩
  · cases number with
    | finite negative mantissa exponent => exact ⟨rfl, rfl⟩
    | _ => cases hfinite

theorem less_type (store : Store) (value : Value) (known : String) :
    store.less value (.type known) = .error .unsuitable ∧
      store.less (.type known) value = .error .unsuitable := by
  unfold Store.less
  cases value <;> exact ⟨rfl, rfl⟩

/-- What a rule for numbers lets through lies between its bounds. -/
theorem between_of_judge {measure : Measure} (hmeasure : measure ≠ .length)
    {minimum maximum : Option Json} (hminimum : Numeric minimum) (hmaximum : Numeric maximum)
    (h : (Rule.within measure minimum maximum).judge scene className code value = .ok taken)
    (htaken : taken.isUndefined = false) : Between code.attr minimum maximum taken := by
  obtain ⟨rfl, least, greatest, quantity, hleast, hgreatest, hquantity, houtside⟩ :=
    judge_within_eq_ok.mp h
  obtain rfl : taken = quantity := by
    cases measure with
    | length => exact absurd rfl hmeasure
    | integer | float => exact Except.ok.inj hquantity
  obtain ⟨hbelow, habove⟩ := isOutside_eq_false.mp houtside
  constructor
  · rintro bound hbound hclear
    have hnumeric := hminimum bound hbound
    obtain rfl := Option.mem_def.mp hbound
    rcases literalValue_unshadowed hnumeric hclear hleast with ⟨rfl, hfinite⟩ | ⟨known, rfl⟩
    · obtain ⟨hnumber, hdefined⟩ := number?_of_isFinite hnumeric hfinite
      have hless : scene.store.less taken (.ofJson bound) = .ok false := by
        rcases hnumeric with ⟨number, rfl⟩ | ⟨number, rfl⟩ <;> exact hbelow
      exact atMost_of_not_less (.inr hnumber) htaken hdefined hless
    · exact absurd ((less_type scene.store taken known).1.symm.trans hbelow) (by simp)
  · rintro bound hbound hclear
    have hnumeric := hmaximum bound hbound
    obtain rfl := Option.mem_def.mp hbound
    rcases literalValue_unshadowed hnumeric hclear hgreatest with ⟨rfl, hfinite⟩ | ⟨known, rfl⟩
    · obtain ⟨hnumber, hdefined⟩ := number?_of_isFinite hnumeric hfinite
      have hless : scene.store.less (.ofJson bound) taken = .ok false := by
        rcases hnumeric with ⟨number, rfl⟩ | ⟨number, rfl⟩ <;> exact habove
      exact atMost_of_not_less (.inl hnumber) hdefined htaken hless
    · exact absurd ((less_type scene.store taken known).2.symm.trans habove) (by simp)

/-- One of the allowed values is the same as the value, whatever instances hold. -/
theorem exists_same_of_contains {store : Store} {values : List Json}
    (h : store.contains value (.list (Value.ofItems values)) = .ok true) :
    ∃ allowed ∈ values, ∀ other : Store, other.same value (.ofJson allowed) = .ok true := by
  unfold Store.contains at h
  simp only at h
  induction values with
  | nil => cases h
  | cons first rest ih =>
      rw [Value.ofItems, Store.anySame] at h
      split at h
      · obtain ⟨allowed, hallowed, hsame⟩ := ih h
        exact ⟨allowed, List.mem_cons_of_mem _ hallowed, hsame⟩
      · refine ⟨first, List.mem_cons_self, fun other => ?_⟩
        rw [← h, Store.same, Store.same, Json.sameWith_ofJson value first]

theorem exists_same_of_judge {values : List Json} (hfinite : Json.itemsFinite values = true)
    (h : (Rule.oneOf values).judge scene className code value = .ok taken) :
    ∃ allowed ∈ values, ∀ store : Store, store.same taken (.ofJson allowed) = .ok true := by
  obtain ⟨rfl, allowed, hallowed, hfound⟩ := judge_oneOf_eq_ok.mp h
  rw [literalValue_of_isFinite (by rw [Json.isFinite]; exact hfinite)] at hallowed
  cases hallowed
  rw [Value.ofJson] at hfound
  exact exists_same_of_contains hfound

/-- Without a rule for moments every rule lets the value through as it is. -/
theorem judge_of_foldlM {rules : List Rule} (hrules : ∀ rule ∈ rules, rule ≠ .moment)
    (h : rules.foldlM (Blueprint.Rule.judge scene className code) value = .ok taken) :
    ∀ rule ∈ rules, rule.judge scene className code taken = .ok taken := by
  induction rules generalizing value with
  | nil => simp
  | cons rule rest ih =>
      rw [List.foldlM_cons] at h
      obtain ⟨first, hfirst, hrest⟩ := bind_eq_ok.mp h
      obtain ⟨hrule, hothers⟩ := List.forall_mem_cons.mp hrules
      obtain rfl := judge_eq_self hrule hfirst
      obtain rfl := foldlM_judge_eq_self hothers hrest
      exact List.forall_mem_cons.mpr ⟨hfirst, ih hothers hrest⟩

end Judging

/-! ## Verdicts -/

section Verdicts

variable {document : Document} {required : List String} {property : Property}
  {member : Blueprint.Member} {scene : Scene} {className : String} {value taken : Value}

theorem rules_of_isNumber (hplanned : MemberPlanned document required property member)
    (hnumber : member.field.isNumber = true) :
    (∀ rule ∈ member.rules, rule ≠ .moment) ∧
      (property.hasNumericBounds = true → ∃ measure, measure ≠ .length ∧
        Rule.within measure property.minimum property.maximum ∈ member.rules) := by
  have hstorage : member.field.storage = some TypeName.int ∨
      member.field.storage = some TypeName.float := by
    simpa [Blueprint.Field.isNumber] using hnumber
  have hmoment : momentRules member.field.storage = [] := by
    rcases hstorage with hstorage | hstorage <;> rw [hstorage] <;> rfl
  constructor
  · obtain ⟨before, after, hrules, hbefore, hafter⟩ := rules_eq hplanned
    rw [hrules, hmoment, List.append_nil]
    intro rule hrule
    rcases List.mem_append.mp hrule with hrule | hrule
    · exact hbefore rule hrule
    · exact hafter rule hrule
  · intro hbounds
    obtain ⟨storage, elements, hstored, -, hrules⟩ := rulesOf_eq_ok hplanned.rules
    obtain rfl : member.field.storage = storage :=
      Except.ok.inj (hplanned.field.storage.symm.trans hstored)
    have hbound : ∃ measure, measure ≠ Measure.length ∧
        boundRules member.field.storage property =
          [.within measure property.minimum property.maximum] := by
      rcases hstorage with hstorage | hstorage
      · exact ⟨.integer, Measure.noConfusion, by simp [boundRules, hbounds, hstorage]⟩
      · have hfloat : TypeName.float ≠ TypeName.int := by decide
        exact ⟨.float, Measure.noConfusion, by simp [boundRules, hbounds, hstorage, hfloat]⟩
    obtain ⟨measure, hmeasure, hrule⟩ := hbound
    refine ⟨measure, hmeasure, ?_⟩
    rw [hrules, otherRules, hrule]
    simp

/-- The rule for the allowed values comes last. -/
theorem judge_oneOf_of_foldlM (hplanned : MemberPlanned document required property member)
    {code : SetterCode} {values : List Json} (henum : property.enum = some values)
    (h : member.rules.foldlM (Blueprint.Rule.judge scene className code) value = .ok taken) :
    (Rule.oneOf values).judge scene className code taken = .ok taken := by
  obtain ⟨storage, elements, -, -, hrules⟩ := rulesOf_eq_ok hplanned.rules
  have hlast : valueRules property = [.oneOf values] := by simp [valueRules, henum]
  rw [hrules, otherRules, hlast, ← List.append_assoc, List.foldlM_append] at h
  obtain ⟨middle, -, hrule⟩ := bind_eq_ok.mp h
  exact judge_of_foldlM (by simp) hrule _ (List.mem_singleton_self _)

/-- What a setter takes is within the limits of its property. -/
theorem withinLimits_of_verdict (hplanned : MemberPlanned document required property member)
    {name : String} (hread : PropertyRead name property)
    (hfinite : ∀ values, property.enum = some values → Json.itemsFinite values = true)
    (h : member.verdict scene className value = .ok taken) :
    WithinLimits property member.field taken := by
  have hfold := foldlM_of_verdict h
  refine ⟨fun hnumber hdefined => ?_, fun values henum => ?_⟩
  · obtain ⟨hmoment, hrules⟩ := rules_of_isNumber hplanned hnumber
    cases hbounds : property.hasNumericBounds with
    | true =>
        obtain ⟨measure, hmeasure, hrule⟩ := hrules hbounds
        exact between_of_judge hmeasure hread.minimum hread.maximum
          (judge_of_foldlM hmoment hfold _ hrule) hdefined
    | false =>
        obtain ⟨hminimum, hmaximum⟩ : property.minimum = none ∧ property.maximum = none := by
          simpa [Property.hasNumericBounds] using hbounds
        exact ⟨by simp [hminimum], by simp [hmaximum]⟩
  · exact exists_same_of_judge (hfinite values henum)
      (judge_oneOf_of_foldlM hplanned henum hfold)

end Verdicts

/-! ## Initial values -/

/-- What a field began with: the initial value of its property, where the name of the class shadows
no number of it. -/
structure AsBegun (className : String) (required : List String) (property : Property)
    (field : Field) (value : Value) : Prop where
  begun : field.startValue? className = some value
  declared : Unshadowed className field.default →
    initialValue? field.storage required property = some value

theorem isFinite_of_unshadowed {className : String} {written : Json} {stated : Value}
    (hclear : Unshadowed className written)
    (h : literalValue (classNames className) written = .ok stated) : written.isFinite = true := by
  rcases hclear with hfinite | ⟨hinfinity, hundefined⟩
  · exact hfinite
  · have hscope : literalValue (classNames className) written = literalValue noNames written := by
      apply literalValue_congr
      · simp [classNames, noNames, hinfinity.symm]
      · simp [classNames, noNames, hundefined.symm]
    exact literalValue_noNames_iff.mp ⟨stated, hscope ▸ h⟩

theorem asBegun_of_startValue? {document : Document} {required : List String}
    {property : Property} {field : Field}
    (hplanned : FieldPlanned document.raw required property field)
    {className : String} {value : Value} (h : field.startValue? className = some value) :
    AsBegun className required property field value := by
  refine ⟨h, fun hclear => ?_⟩
  have hsettled : Settled field := by
    intro hinitialized
    rw [Blueprint.Field.startValue?, hinitialized, if_pos rfl] at h
    cases hliteral : literalValue (classNames className) field.default with
    | error found =>
        rw [hliteral] at h
        cases h
    | ok stated =>
        have hfinite := isFinite_of_unshadowed hclear hliteral
        refine ⟨hfinite, fun hparses => ?_⟩
        rw [literalValue_of_isFinite hfinite, hparses] at h
        obtain ⟨moment, hmoment, -⟩ := Option.map_eq_some_iff.mp h
        rw [hmoment]
        rfl
  rw [← startValue?_of_settled hplanned hsettled className]
  exact h

/-! ## Reachable states -/

/-- The states of an instance from its making on: setters are called with any values, and other
instances come and change as they like. -/
inductive Reachable (library : Library) (item : LoadedClass) (className : String) (id : Nat) :
    Store → Prop where
  | made {values : List (String × Value)} {before store : Store}
      (hmake : Instance.make library className values before = (store, .ok id)) :
      Reachable library item className id store
  | assigned {store : Store} (h : Reachable library item className id store) {field : FieldCode}
      (hfield : field ∈ item.fields) (value : Value) :
      Reachable library item className id (Instance.assign library id field.attr value store).1
  | elsewhere {store other : Store} (h : Reachable library item className id store)
      (hsame : other.get? id = store.get? id) : Reachable library item className id other

/-- Every attribute holds what its field began with, or what a setter took. -/
structure Accounted (library : Library) (item : LoadedClass) (plan : Plan) (className : String)
    (id : Nat) (store : Store) : Prop where
  live : Live library item store id
  classOf : store.classOf id = className
  held : ∀ member ∈ plan.members, ∀ value, store.attribute? id member.field.attr = some value →
    member.field.startValue? className = some value ∨
      ∃ scene given, member.verdict scene className given = .ok value

section States

variable {library : Library} {item : LoadedClass} {plan : Plan} {className : String} {id : Nat}
  {store other : Store}

theorem Live.of_get?_eq (h : Live library item store id) (hsame : other.get? id = store.get? id) :
    Live library item other id := by
  have hclass : other.classOf id = store.classOf id := by
    rw [Store.classOf, Store.classOf, hsame]
  have hattributes : other.attributes id = store.attributes id := by
    rw [Store.attributes, Store.attributes, hsame]
  refine ⟨?_, hclass ▸ h.loaded, hattributes ▸ h.held⟩
  by_contra hnot
  have hnone : other.get? id = none := List.getElem?_eq_none (Nat.le_of_not_lt hnot)
  rw [hsame, Store.get?, List.getElem?_eq_none_iff] at hnone
  exact absurd h.inside (Nat.not_lt_of_le hnone)

theorem Accounted.of_get?_eq (h : Accounted library item plan className id store)
    (hsame : other.get? id = store.get? id) : Accounted library item plan className id other := by
  refine ⟨h.live.of_get?_eq hsame, ?_, fun member hmember value hvalue => ?_⟩
  · rw [← h.classOf, Store.classOf, Store.classOf, hsame]
  · apply h.held member hmember value
    rwa [Store.attribute?, Store.attributes, ← hsame]

/-- A setter that is refused changes nothing, and one that is not stores what it took. -/
theorem Accounted.assign (hstandard : Standard plan item)
    (h : Accounted library item plan className id store) {member : Blueprint.Member}
    (hmember : member ∈ plan.members) (value : Value) :
    Accounted library item plan className id
      (Instance.assign library id member.field.attr value store).1 := by
  rcases assign_cases hstandard h.live hmember value with ⟨taken, hverdict, hassign⟩ |
    ⟨refusal, hassign⟩
  · rw [hassign]
    rw [h.classOf] at hverdict
    refine ⟨h.live.put (hstandard.field_mem hmember) taken, ?_, fun other hother found hfound => ?_⟩
    · rw [Store.classOf_put, h.classOf]
    -- no two members share an attribute, so only the one that was assigned has changed
    · by_cases hattr : other.field.attr = member.field.attr
      · obtain rfl := hstandard.eq_of_attr_eq hother hmember hattr
        rw [Store.attribute?_put_self _ _ _ _ h.live.inside] at hfound
        obtain rfl := Option.some.inj hfound
        exact .inr ⟨_, value, hverdict⟩
      · rw [Store.attribute?_put_of_ne _ _ _ _ hattr] at hfound
        exact h.held other hother found hfound
  · rw [hassign]
    exact h

theorem accounted_make (hstandard : Standard plan item)
    (hfind : library.find? className = some item) {values : List (String × Value)} {before : Store}
    (hmake : Instance.make library className values before = (store, .ok id)) :
    Accounted library item plan className id store := by
  obtain ⟨rfl, -, hstart, units, hfill⟩ := make_eq_ok hfind hstandard hmake
  have hlive := live_foldl_begin className hstandard (fun _ h => h) (live_add before hfind)
  obtain ⟨-, hclasses⟩ := foldl_begin_same className before.size (before.add className)
    plan.members
  have hbegun : Accounted library item plan className before.size
      (plan.members.foldl (begin className before.size) (before.add className)) := by
    refine ⟨hlive, (hclasses _).trans (Store.classOf_add_self before className),
      fun member hmember value hvalue => ?_⟩
    rw [Store.attribute?, attributes_begun className hstandard,
      get?_beginning hstandard.distinct_attrs hmember] at hvalue
    exact .inl hvalue
  have hstep : ∀ (_ : List (String × Value)) now,
      Accounted library item plan className before.size now → ∀ member ∈ plan.members, ∀ value,
        Accounted library item plan className before.size
          (Instance.assign library before.size member.field.attr value now).1 :=
    fun _ _ hnow _ hmember value => hnow.assign hstandard hmember value
  exact fill_induction (P := fun _ => Accounted library item plan className before.size)
    hstandard hstep [] hbegun hfill

theorem Reachable.accounted (hstandard : Standard plan item)
    (hfind : library.find? className = some item)
    (h : Reachable library item className id store) :
    Accounted library item plan className id store := by
  induction h with
  | made hmake => exact accounted_make hstandard hfind hmake
  | assigned _ hfield value ih =>
      obtain ⟨member, hmember, rfl⟩ := hstandard.member_of_field hfield
      exact ih.assign hstandard hmember value
  | elsewhere _ hsame ih => exact ih.of_get?_eq hsame

end States

/-! ## Generated classes -/

/-- Every field of an instance holds nothing, what it began with, or a value within its limits. -/
def KeepsLimits (definition : Definition) (plan : Plan) (className : String) (id : Nat)
    (store : Store) : Prop :=
  ∀ key property member, ((key, property), member) ∈ definition.properties.zip plan.members →
    ∀ value, store.attribute? id member.field.attr = some value →
      AsBegun className definition.required property member.field value ∨
        WithinLimits property member.field value

/-- In every state of an instance of a generated class, whatever values its setters were called
with, each field holds nothing, what it began with, or a value within the limits of its property. -/
theorem generated_fields_keep_limits {settings : Settings} {comment schema : Json}
    {run : Package.Run} (hrun : Package.generate settings comment schema = .ok run)
    (hbase : settings.base = {}) {module : ClassModule} (hmodule : module ∈ run.package.modules)
    {item : LoadedClass} (hload : LoadedClass.load module = .ok item) {library : Library}
    (hfind : library.find? module.name = some item) :
    ∃ document definition plan,
      Package.Origin settings comment schema document definition plan module ∧
        ∀ id store, Reachable library item module.name id store →
          KeepsLimits definition plan module.name id store := by
  obtain ⟨document, definition, plan, horigin⟩ := Package.exists_origin hrun hmodule
  refine ⟨document, definition, plan, horigin, ?_⟩
  intro id store hreachable key property member hpair value hvalue
  have hplanned : MemberPlanned document definition.required property member :=
    Blueprint.Member.ofProperty_eq_ok (List.forall₂_zip horigin.planned_members.members hpair)
  obtain ⟨hentry, hmember⟩ := List.of_mem_zip hpair
  have hheld := (hreachable.accounted (horigin.standard_class hbase hload) hfind).held
  rcases hheld member hmember value hvalue with hbegun | ⟨scene, given, hverdict⟩
  · exact .inl (asBegun_of_startValue? hplanned.field hbegun)
  · exact .inr (withinLimits_of_verdict hplanned (horigin.property_read hentry)
      (itemsFinite_of_origin horigin hbase hload hmember hplanned) hverdict)

/-- A stay of three nights. -/
def stayStore : Store := (Instance.make [("Stay", stayClass)] "Stay" [("nights", .int 3)] {}).1

theorem generated_fields_keep_limits_stay :
    Reachable [("Stay", stayClass)] stayClass "Stay" 0 stayStore ∧
      stayStore.attribute? 0 "nights" = some (.int 3) ∧
      ∃ document definition plan,
        Package.Origin Package.uncheckedSettings .null staySchema document definition plan
          stayModule ∧
        KeepsLimits definition plan "Stay" 0 stayStore := by
  have hrun : Package.generate Package.uncheckedSettings .null staySchema = .ok stayRun := rfl
  have hmodule : stayModule ∈ stayRun.package.modules := List.get_mem _ _
  have hload : LoadedClass.load stayModule = .ok stayClass := rfl
  have hfind : Library.find? [("Stay", stayClass)] stayModule.name = some stayClass := rfl
  obtain ⟨document, definition, plan, horigin, hkeeps⟩ :=
    generated_fields_keep_limits hrun rfl hmodule hload hfind
  have hmake : Instance.make [("Stay", stayClass)] "Stay" [("nights", .int 3)] {} =
      (stayStore, .ok 0) := by
    with_unfolding_all rfl
  have hnights : stayStore.attribute? 0 "nights" = some (.int 3) := by
    with_unfolding_all rfl
  have hreachable : Reachable [("Stay", stayClass)] stayClass "Stay" 0 stayStore := .made hmake
  exact ⟨hreachable, hnights, document, definition, plan, horigin, hkeeps 0 stayStore hreachable⟩

/-! ## A day trip -/

/-- A default below its minimum, and a field whose minimum is written as its own name. -/
def dayTripSchema : Json := .obj [("definitions", .obj [("Stay", .obj [
  ("properties", .obj [
    ("nights", .obj [("type", .str "integer"), ("minimum", .int 1), ("default", .int 0)]),
    ("inf", .obj [("type", .str "number"), ("minimum", .float (.infinite false))])])])])]

def dayTripRun : Package.Run := Package.runOf Package.uncheckedSettings .null dayTripSchema

def dayTripModule : ClassModule := dayTripRun.package.modules.get ⟨0, by decide +kernel⟩

def dayTripClass : LoadedClass :=
  match LoadedClass.load dayTripModule with
  | .ok item => item
  | .error _ => { name := "Stay" }

def dayTripLibrary : Library := [("Stay", dayTripClass)]

/-- A new stay. -/
def dayTripStore : Store := (Instance.make dayTripLibrary "Stay" [] {}).1

/-- The stay after a call of a setter. -/
def dayTripAfter (attr : String) (value : Value) : Store :=
  (Instance.assign dayTripLibrary 0 attr value dayTripStore).1

/-- The default is below its minimum, and setters let a float through that is no number, and any
number where the attribute takes the word for the minimum. -/
theorem day_trip_exceeds_limits :
    Package.generate Package.uncheckedSettings .null dayTripSchema = .ok dayTripRun ∧
      dayTripRun.package.failures = [] ∧ dayTripModule ∈ dayTripRun.package.modules ∧
      LoadedClass.load dayTripModule = .ok dayTripClass ∧
      (∃ store, Reachable dayTripLibrary dayTripClass "Stay" 0 store ∧
        store.attribute? 0 "nights" = some (.int 0) ∧
        Value.atMost (.int 1) (.int 0) = false) ∧
      (∃ store, Reachable dayTripLibrary dayTripClass "Stay" 0 store ∧
        store.attribute? 0 "nights" = some (.float .nan) ∧
        Value.atMost (.int 1) (.float .nan) = false) ∧
      ∃ store, Reachable dayTripLibrary dayTripClass "Stay" 0 store ∧
        store.attribute? 0 "inf" = some (.int 3) ∧
        Value.atMost (.float (.infinite false)) (.int 3) = false := by
  have hmade : Reachable dayTripLibrary dayTripClass "Stay" 0 dayTripStore := by
    have hmake : Instance.make dayTripLibrary "Stay" [] {} = (dayTripStore, .ok 0) := rfl
    exact .made hmake
  have hnext : ∀ attr ∈ ["nights", "inf"], ∀ value,
      Reachable dayTripLibrary dayTripClass "Stay" 0 (dayTripAfter attr value) := by
    intro attr hattr value
    have hfields : dayTripClass.fields.map FieldCode.attr = ["nights", "inf"] := rfl
    rw [← hfields] at hattr
    obtain ⟨field, hfield, rfl⟩ := List.mem_map.mp hattr
    exact hmade.assigned hfield value
  have hnan : (dayTripAfter "nights" (.float .nan)).attribute? 0 "nights" =
      some (.float .nan) := by
    with_unfolding_all rfl
  have hthree : (dayTripAfter "inf" (.int 3)).attribute? 0 "inf" = some (.int 3) := by
    with_unfolding_all rfl
  exact ⟨rfl, rfl, List.get_mem _ _, rfl, ⟨_, hmade, rfl, rfl⟩,
    ⟨_, hnext "nights" (by simp) _, hnan, rfl⟩, ⟨_, hnext "inf" (by simp) _, hthree, rfl⟩⟩

end ModelMint
