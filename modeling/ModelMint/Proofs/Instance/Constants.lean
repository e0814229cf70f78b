import ModelMint.Proofs.Entries
import ModelMint.Proofs.Instance.Listed
import ModelMint.Proofs.Instance.Loading
import ModelMint.Proofs.Package.TypeNames

/-!
# Constants of allowed values

Every allowed value of a property should be found on the loaded class under the name of
its constant.  It is there exactly where the class can be loaded, where values of
constants with one name are equal, and where no name is private or that of the table of
names: the one is changed on its way into the class, the other is given something else.
-/

namespace ModelMint

open ModelMint.Emit
open ModelMint.Blueprint
open ModelMint.Schema

/-! ## Loaded constants -/

namespace Entries

variable {α β : Type} [DecidableEq α] {key other : α} {value : β}

theorem get?_filter_ne {entries : List (α × β)} (h : key ≠ other) :
    get? key (entries.filter (·.1 != other)) = get? key entries := by
  induction entries with
  | nil => rfl
  | cons entry rest ih =>
      by_cases hother : entry.1 = other
      · have hkey : entry.1 ≠ key := fun hkey => h (hkey.symm.trans hother)
        rw [List.filter_cons_of_neg (by simpa using hother), ih, get?, if_neg hkey]
      · rw [List.filter_cons_of_pos (by simpa using hother), get?, get?, ih]

end Entries

section Loaded

variable {module : ClassModule} {item : LoadedClass} {name : String} {value : Value}

theorem LoadedClass.exists_constant_of_get? (h : LoadedClass.load module = .ok item)
    (hvalue : Entries.get? name item.constants = some value) :
    ∃ constant ∈ module.constants, privateName module.name constant.name = name ∧
      value = .ofJson constant.value := by
  obtain ⟨constants, hconstants, rfl⟩ := LoadedClass.load_eq_ok h
  have hmem := (List.mem_filter.mp (Entries.mem_of_get? hvalue)).2
  have htable : name ≠ tableName := by simpa using hmem
  have hfound : Entries.get? name (Entries.ofList constants) = some value := by
    rw [← Entries.get?_filter_ne htable]
    exact hvalue
  obtain ⟨constant, hconstant, hloaded⟩ :=
    exists_left_of_mem (mapM_eq_ok.mp hconstants) (Entries.mem_of_mem_ofList (Entries.mem_of_get? hfound))
  obtain ⟨stated, hstated, hpair⟩ := map_eq_ok.mp hloaded
  cases hpair
  exact ⟨constant, hconstant, rfl, literalValue_noNames hstated⟩

/-- A name that begins with no small letter is the table of names, or a constant, or nothing. -/
theorem LoadedClass.member?_of_head (item : LoadedClass)
    (hhead : ∀ c, name.toList.head? = some c → c.isLower = false) :
    item.member? name =
      if name = tableName then
        some (.value (.map (item.fieldNames.map fun (attr, name) => (attr, .text name))))
      else (Entries.get? name item.constants).map Member.value := by
  have hexport : name ≠ "to_dict" := by
    rintro rfl
    exact absurd (hhead 't' rfl) (by decide)
  unfold LoadedClass.member?
  split
  next attr hlist =>
    rw [hlist] at hhead
    exact absurd (hhead 's' rfl) (by decide)
  · simp [hexport]

end Loaded

/-! ## Names of constants -/

section Names

variable {className property : String} {value : Json}

/-- Of a name that is changed on its way into a class nothing is left in the class. -/
theorem privateName_ne {name other : String} (h : privateName className name ≠ name) :
    privateName className other ≠ name := by
  intro hother
  have hprivate : ['_', '_'] <+: name.toList := by
    by_contra hprivate
    exact h (privateName_eq_self hprivate)
  rcases privateName_cases className other with hsame | ⟨c, owner, rest, hc, hlist⟩
  · rw [hsame] at hother
    exact h (hother ▸ hsame)
  · rw [hother] at hlist
    obtain ⟨tail, htail⟩ := hprivate
    rw [hlist] at htail
    simp only [List.cons_append, List.nil_append, List.cons.injEq, true_and] at htail
    exact hc htail.1.symm

theorem collapse_head {c : Char} {rest : List Char} (h : c.isAlphanum = false) :
    ∃ tail, Text.collapse (c :: rest) = '_' :: tail := by
  induction rest generalizing c with
  | nil => exact ⟨[], by simp [Text.collapse, h]⟩
  | cons d rest ih =>
      cases hd : d.isAlphanum with
      | true => exact ⟨_, by rw [Text.collapse]; simp [h, hd]; rfl⟩
      | false =>
          obtain ⟨tail, htail⟩ := ih hd
          exact ⟨tail, by rw [Text.collapse]; simp [h, hd, htail]⟩

/-- The constant of an object has two underscores in its name. -/
theorem ofValue_obj_ne_tableName {members : List (String × Json)} :
    (Constant.ofValue property (.obj members)).name ≠ LoadedClass.tableName := by
  intro h
  obtain ⟨tail, htail⟩ : ∃ tail, Text.collapse (Json.obj members).plain = '_' :: tail := by
    simp only [Json.plain, Json.shown]
    exact collapse_head (by decide)
  have hinfix : ['_', '_'] <:+: LoadedClass.tableName.toList := by
    rw [← h, Constant.ofValue, String.toList_ofList, htail]
    exact ⟨Text.constantPrefix property.toList, tail, by simp⟩
  revert hinfix
  decide

end Names

/-! ## Attributes -/

section Attributes

variable {module : ClassModule} {item : LoadedClass} {constant : Constant}

/-- The class has an attribute with the name of the constant and with its value. -/
def LoadedClass.Holds (item : LoadedClass) (constant : Constant) : Prop :=
  ∃ found, item.member? constant.name = some (.value found) ∧
    ∀ store : Store, store.same found (.ofJson constant.value) = .ok true

variable (hload : LoadedClass.load module = .ok item)
  (hheads : ∀ constant ∈ module.constants, ∀ c, constant.name.toList.head? = some c →
    c.isLower = false)
  (hobjects : ∀ constant ∈ module.constants, ∀ members, constant.value = .obj members →
    constant.name ≠ LoadedClass.tableName)
include hload hheads

omit hload in
include hobjects in
theorem ne_tableName_of_holds (hconstant : constant ∈ module.constants) (h : item.Holds constant) :
    constant.name ≠ LoadedClass.tableName := by
  intro htable
  obtain ⟨found, hfound, hsame⟩ := h
  rw [item.member?_of_head (hheads constant hconstant), if_pos htable] at hfound
  obtain rfl := Member.value.inj (Option.some.inj hfound)
  have hvalue := hsame {}
  cases hcase : constant.value with
  | obj members => exact hobjects constant hconstant members hcase htable
  | _ =>
      rw [hcase] at hvalue
      simp [Store.same, Value.ofJson, Value.sameWith, Value.sameNumber, Value.number?] at hvalue

/-- An attribute that holds a constant was given the value of one with the name, which its name on
the way into the class has left as it is.  Every constant of the name that is held equals that. -/
theorem exists_source_of_holds (hconstant : constant ∈ module.constants)
    (htable : constant.name ≠ LoadedClass.tableName) (h : item.Holds constant) :
    ∃ source ∈ module.constants, privateName module.name source.name = constant.name ∧
      ∀ other : Constant, other.name = constant.name → item.Holds other →
        source.value.alike other.value = true := by
  obtain ⟨found, hfound, -⟩ := h
  have hmember := hfound
  rw [item.member?_of_head (hheads constant hconstant), if_neg htable] at hmember
  obtain ⟨value, hvalue, hmember⟩ := Option.map_eq_some_iff.mp hmember
  obtain rfl := Member.value.inj hmember
  obtain ⟨source, hsource, hname, rfl⟩ := LoadedClass.exists_constant_of_get? hload hvalue
  refine ⟨source, hsource, hname, ?_⟩
  rintro other hother ⟨again, hagain, hsame⟩
  rw [hother, hfound] at hagain
  obtain rfl := Member.value.inj (Option.some.inj hagain)
  have hstore := hsame {}
  rw [same_ofJson] at hstore
  exact Except.ok.inj hstore

theorem holds_of_agreeing (hconstant : constant ∈ module.constants)
    (htable : constant.name ≠ LoadedClass.tableName)
    (hunchanged : ∀ other ∈ module.constants, privateName module.name other.name = other.name)
    (hagreeing : ∀ other ∈ module.constants, other.name = constant.name →
      other.value.alike constant.value = true) : item.Holds constant := by
  have hkey := LoadedClass.mem_keys_constants hload hconstant
    (by rw [hunchanged constant hconstant]; exact htable)
  rw [hunchanged constant hconstant, ← Entries.contains_iff_mem_keys, Entries.contains,
    Option.isSome_iff_exists] at hkey
  obtain ⟨value, hvalue⟩ := hkey
  obtain ⟨source, hsource, hname, rfl⟩ := LoadedClass.exists_constant_of_get? hload hvalue
  rw [hunchanged source hsource] at hname
  refine ⟨.ofJson source.value, ?_, fun store => ?_⟩
  · rw [item.member?_of_head (hheads constant hconstant), if_neg htable, hvalue]
    rfl
  · rw [same_ofJson, hagreeing source hsource hname]

end Attributes

/-! ## Plans -/

section Plans

variable {settings : Settings} {comment schema : Json} {document : Document}
  {definition : Definition} {plan : Plan} {module : ClassModule} {names : BaseNames}
  {lines : List String}

theorem constants_ofPlan (h : ClassModule.ofPlan names lines plan = .ok module) :
    module.constants = plan.constants :=
  (ClassModule.ofPlan_eq_ok h).constants

end Plans

/-! ## Classes that keep their constants -/

/-- The name of the decorator of every class. -/
def decoratorName : String := "final"

/-- What the module makes of its class: its text can be read, it gives no fixed name and no name of
its own to another class, and its body can be run.  The base is taken to be there. -/
structure Loads (module : ClassModule) (item : LoadedClass) : Prop where
  valid : Source.isValid module.text = true
  names : Library.checkNames module = .ok ()
  decorated : module.baseClass ≠ decoratorName
  body : LoadedClass.load module = .ok item

/-- The class is loaded, and has every allowed value of its properties under the name of the constant
for it. -/
def ConstantsKept (definition : Definition) (module : ClassModule) : Prop :=
  ∃ item, Loads module item ∧ ∀ entry ∈ definition.properties, ∀ values ∈ entry.2.enum,
    ∀ value ∈ values, ∃ found,
      item.member? (Constant.ofValue entry.2.name value).name = some (.value found) ∧
        ∀ store : Store, store.same found (.ofJson value) = .ok true

/-- Constants that are in nobody's way, each under its own name. -/
structure ConstantsClear (plan : Plan) (module : ClassModule) : Prop where
  fits : module.valuesFit = true
  fixed : Library.fixedName ∉ module.name :: module.baseClass :: module.references
  decorated : module.baseClass ≠ decoratorName
  finite : ∀ constant ∈ plan.constants, constant.value.isFinite = true
  unchanged : ∀ constant ∈ plan.constants, privateName plan.name constant.name = constant.name
  table : ∀ constant ∈ plan.constants, constant.name ≠ LoadedClass.tableName
  agreeing : ∀ first ∈ plan.constants, ∀ second ∈ plan.constants, first.name = second.name →
    first.value.alike second.value = true

section Kept

variable {settings : Settings} {comment schema : Json} {run : Package.Run} {document : Document}
  {definition : Definition} {plan : Plan} {module : ClassModule}

/-- The text of a class can be read exactly where its values are within reach. -/
theorem isValid_iff_valuesFit
    (h : Package.Faithful settings comment schema run document definition plan module) :
    Source.isValid module.text = true ↔ module.valuesFit = true := by
  obtain ⟨lines, hlines, hofPlan⟩ := h.origin.composed
  have htyped : Package.Typed settings document definition plan :=
    ⟨h.base, h.types, h.origin.planned⟩
  have hunbroken := h.comment lines hlines
  refine ⟨htyped.valuesFit hunbroken hofPlan, fun hvalues => ?_⟩
  rw [Source.isValid, htyped.readModule hunbroken hofPlan hvalues]
  rfl

theorem exists_loads_iff
    (h : Package.Faithful settings comment schema run document definition plan module) :
    (∃ item, Loads module item) ↔ module.valuesFit = true ∧
      Library.fixedName ∉ module.name :: module.baseClass :: module.references ∧
      module.baseClass ≠ decoratorName ∧
      ∀ constant ∈ module.constants, constant.value.isFinite = true := by
  rw [← isValid_iff_valuesFit h, ← checkNames_eq_ok]
  constructor
  · rintro ⟨item, hvalid, hnames, hdecorated, hload⟩
    exact ⟨hvalid, hnames, hdecorated, isFinite_of_load hload⟩
  · rintro ⟨hvalid, hnames, hdecorated, hfinite⟩
    obtain ⟨item, hload⟩ := exists_load hfinite
    exact ⟨item, hvalid, hnames, hdecorated, hload⟩

theorem forall_constants_iff
    (h : Package.Faithful settings comment schema run document definition plan module)
    (P : Constant → Prop) :
    (∀ constant ∈ module.constants, P constant) ↔ ∀ entry ∈ definition.properties,
      ∀ values ∈ entry.2.enum, ∀ value ∈ values, P (Constant.ofValue entry.2.name value) := by
  obtain ⟨lines, -, hofPlan⟩ := h.origin.composed
  rw [constants_ofPlan hofPlan]
  constructor
  · intro hall entry hentry values hvalues value hvalue
    exact hall _ ((mem_constants_iff h.origin.planned_members).mpr
      ⟨entry, hentry, values, hvalues, value, hvalue, rfl⟩)
  · intro hall constant hconstant
    obtain ⟨entry, hentry, values, hvalues, value, hvalue, rfl⟩ :=
      (mem_constants_iff h.origin.planned_members).mp hconstant
    exact hall entry hentry values hvalues value hvalue

/-- The class of a module holds every allowed value of its properties under the name of the constant
for it exactly where the class can be loaded, each constant goes by its own name, none by that of the
table of names, and constants with one name have equal values. -/
theorem constants_kept_iff
    (h : Package.Faithful settings comment schema run document definition plan module)
    (hkeyed : ∀ entry ∈ definition.properties, ∀ values ∈ entry.2.enum, ∀ value ∈ values,
      value.isKeyed = true) :
    ConstantsKept definition module ↔ ConstantsClear plan module := by
  obtain ⟨lines, -, hofPlan⟩ := h.origin.composed
  have hconstants := constants_ofPlan hofPlan
  have hname := (Package.ofPlan_eq_ok hofPlan).1
  have hheads : ∀ constant ∈ module.constants, ∀ c, constant.name.toList.head? = some c →
      c.isLower = false :=
    (forall_constants_iff h _).mpr fun _ _ _ _ _ _ _ hc => Constant.ofValue_name_head hc
  have hobjects : ∀ constant ∈ module.constants, ∀ members, constant.value = .obj members →
      constant.name ≠ LoadedClass.tableName := by
    refine (forall_constants_iff h _).mpr fun entry _ values _ value _ members hvalue => ?_
    obtain rfl : value = .obj members := hvalue
    exact ofValue_obj_ne_tableName
  have hkeys : ∀ constant ∈ module.constants, constant.value.isKeyed = true :=
    (forall_constants_iff h _).mpr hkeyed
  constructor
  · rintro ⟨item, hloads, hkept⟩
    obtain ⟨hfits, hfixed, hdecorated, hfinite⟩ := (exists_loads_iff h).mp ⟨item, hloads⟩
    have hholds := (forall_constants_iff h item.Holds).mpr hkept
    have htable : ∀ constant ∈ module.constants, constant.name ≠ LoadedClass.tableName :=
      fun constant hconstant =>
        ne_tableName_of_holds hheads hobjects hconstant (hholds constant hconstant)
    have hsource := fun constant hconstant => exists_source_of_holds hloads.body hheads hconstant
      (htable constant hconstant) (hholds constant hconstant)
    have hunchanged : ∀ constant ∈ module.constants,
        privateName module.name constant.name = constant.name := by
      intro constant hconstant
      by_contra hchanged
      obtain ⟨source, -, hprivate, -⟩ := hsource constant hconstant
      exact privateName_ne hchanged hprivate
    refine ⟨hfits, hfixed, hdecorated, hconstants ▸ hfinite, ?_, hconstants ▸ htable, ?_⟩
    · rw [← hname, ← hconstants]
      exact hunchanged
    · rw [← hconstants]
      intro first hfirst second hsecond hsame
      -- both equal what the class holds under their name
      obtain ⟨source, hmember, -, hequal⟩ := hsource first hfirst
      have hfirsts := Json.alike_symm (hkeys source hmember) (hkeys first hfirst)
        (hequal first rfl (hholds first hfirst))
      exact Json.alike_trans hfirsts (hequal second hsame.symm (hholds second hsecond))
  · intro hclear
    obtain ⟨item, hloads⟩ := (exists_loads_iff h).mpr
      ⟨hclear.fits, hclear.fixed, hclear.decorated, hconstants ▸ hclear.finite⟩
    refine ⟨item, hloads, (forall_constants_iff h item.Holds).mp fun constant hconstant => ?_⟩
    refine holds_of_agreeing hloads.body hheads hconstant
      (hclear.table constant (hconstants ▸ hconstant)) ?_ fun other hother hsame =>
        hclear.agreeing other (hconstants ▸ hother) constant (hconstants ▸ hconstant) hsame
    rw [hname, hconstants]
    exact hclear.unchanged

end Kept

/-! ## Stays with allowed values -/

theorem constants_kept_iff_nights :
    ConstantsKept (choiceDefinition nightsProperty) (standardModule [] (choicePlan nightsMember)) := by
  have hkeyed : ∀ entry ∈ (choiceDefinition nightsProperty).properties, ∀ values ∈ entry.2.enum,
      ∀ value ∈ values, value.isKeyed = true := by
    intro entry hentry values hvalues value hvalue
    obtain rfl := List.mem_singleton.mp hentry
    obtain rfl := Option.mem_some_iff.mp hvalues
    revert value
    decide
  refine (constants_kept_iff nights_faithful hkeyed).mpr ?_
  refine ⟨by decide, by decide, by decide, by decide, by decide, by decide, ?_⟩
  intro first hfirst second hsecond hsame
  revert first second
  decide

/-- The rating of a stay, which is one of two signs. -/
def ratingKeywords : List (String × Json) :=
  [("enum", .arr [.str "+", .str "-"])]

def ratingProperty : Property where
  name := "rating"
  enum := some [.str "+", .str "-"]
  path := "#/definitions/Stay/properties/rating"

def ratingMember : Blueprint.Member where
  field := { name := "rating", attr := "rating", initial := .absent }
  rules := [.oneOf [.str "+", .str "-"]]
  constants := constantsOf "rating" [.str "+", .str "-"]

/-- The constants of two signs have one name, and the class is left with the second of them. -/
theorem rating_constant_overwritten :
    Package.generate Package.uncheckedSettings .null (choiceSchema "rating" ratingKeywords) =
        .ok (choiceRun "rating" ratingKeywords) ∧
      (choiceRun "rating" ratingKeywords).package.failures = [] ∧
      standardModule [] (choicePlan ratingMember) ∈
        (choiceRun "rating" ratingKeywords).package.modules ∧
      Document.read (choiceSchema "rating" ratingKeywords) =
        .ok ⟨choiceSchema "rating" ratingKeywords, [("Stay", .ok (choiceDefinition ratingProperty))]⟩ ∧
      ¬ ConstantsKept (choiceDefinition ratingProperty)
        (standardModule [] (choicePlan ratingMember)) := by
  refine ⟨rfl, rfl, List.mem_cons_self, rfl, ?_⟩
  rintro ⟨item, hloads, hkept⟩
  have hload : LoadedClass.load (standardModule [] (choicePlan ratingMember)) =
      .ok (choiceClass ratingMember) := rfl
  obtain rfl := Except.ok.inj (hload.symm.trans hloads.body)
  obtain ⟨found, hfound, hsame⟩ :=
    hkept _ List.mem_cons_self [.str "+", .str "-"] rfl (.str "+") List.mem_cons_self
  have hsecond : (choiceClass ratingMember).member?
      (Constant.ofValue ratingProperty.name (.str "+")).name = some (.value (.text "-")) := rfl
  obtain rfl := Member.value.inj (Option.some.inj (hsecond.symm.trans hfound))
  exact absurd (hsame {}) (by decide)

end ModelMint
