import ModelMint.Proofs.Instance.Loading
import ModelMint.Proofs.Instance.Start

/-!
# What new instances hold

The classes of a package without failures can be loaded, and a new instance begins with
the initial values of its fields, exactly where nothing in the package needs a number
without a literal, a date that is none, or a name that the code around it uses.
-/

namespace ModelMint

open ModelMint.Emit
open ModelMint.Blueprint
open ModelMint.Schema

/-! ## Initial values of properties -/

/-- What the attribute of a property begins with, by its declaration alone: an array with no
elements, a required property with nothing, any other one with its default. -/
def initialValue? (storage : Option String) (required : List String) (property : Property) :
    Option Value :=
  if storage == some TypeName.list then some (.list [])
  else if required.contains property.name then none
  else match property.default with
    | none | some .null => some .none
    | some value =>
      if storage == some TypeName.moment then (Value.ofJson value).moment?.map Value.moment
      else some (.ofJson value)

/-- The attribute of a property with what it begins with. -/
def initialAttribute? (root : Json) (required : List String) (property : Property) :
    Option (String × Value) :=
  match storageType root property with
  | .ok storage => (initialValue? storage required property).map fun value =>
      (String.ofList (Text.attributeName property.name.toList), value)
  | .error _ => none

/-- The attributes that a new instance of a definition begins with, in document order. -/
def initialAttributes (root : Json) (definition : Definition) : List (String × Value) :=
  definition.properties.filterMap fun entry =>
    initialAttribute? root definition.required entry.2

/-- A field whose initial value the code can state. -/
def Settled (field : Field) : Prop :=
  field.initialized = true → field.default.isFinite = true ∧
    (field.parses = true → (Value.ofJson field.default).moment?.isSome = true)

section Fields

variable {document : Document} {required : List String} {property : Property} {field : Field}

/-- How the initial value of a field follows from its property. -/
theorem initial_cases (h : FieldPlanned document.raw required property field) :
    (field.isArray = true ∧ field.initial = .emptyList ∧
        initialValue? field.storage required property = some (.list [])) ∨
      (field.initial = .unset ∧ initialValue? field.storage required property = none) ∨
      (field.initial = .absent ∧ initialValue? field.storage required property = some .none) ∨
      ∃ value, field.initial = .declared value ∧
        initialValue? field.storage required property =
          if field.isMoment && value != .null then (Value.ofJson value).moment?.map Value.moment
          else some (.ofJson value) := by
  have hinitial := h.initial
  unfold initialOf at hinitial
  unfold initialValue? Blueprint.Field.isArray Blueprint.Field.isMoment
  cases harray : field.storage == some TypeName.list with
  | true =>
      rw [harray, if_pos rfl] at hinitial
      exact .inl ⟨rfl, (Except.ok.inj hinitial).symm, rfl⟩
  | false =>
      rw [harray] at hinitial
      simp only [Bool.false_eq_true, if_false] at hinitial ⊢
      split at hinitial
      next hrequired =>
        exact .inr (.inl ⟨(Except.ok.inj hinitial).symm, by rw [if_pos hrequired]⟩)
      next hrequired =>
        rw [if_neg hrequired]
        cases hdefault : property.default with
        | none =>
            rw [hdefault] at hinitial
            exact .inr (.inr (.inl ⟨(Except.ok.inj hinitial).symm, rfl⟩))
        | some value =>
            rw [hdefault] at hinitial
            have hdeclared : field.initial = .declared value := by
              simp only at hinitial
              split at hinitial
              · obtain ⟨_, -, hdeclared⟩ := bind_eq_ok.mp hinitial
                exact (Except.ok.inj hdeclared).symm
              · exact (Except.ok.inj hinitial).symm
            refine .inr (.inr (.inr ⟨value, hdeclared, ?_⟩))
            cases value with
            | null => simp [Value.ofJson]
            | _ => simp

theorem initialAttribute?_eq (h : FieldPlanned document.raw required property field) :
    initialAttribute? document.raw required property =
      (initialValue? field.storage required property).map fun value => (field.attr, value) := by
  rw [initialAttribute?, h.storage, h.attr]

/-- The code states the initial value of a property where it can state it at all. -/
theorem startValue?_of_settled (h : FieldPlanned document.raw required property field)
    (hsettled : Settled field) (className : String) :
    field.startValue? className = initialValue? field.storage required property := by
  unfold Settled Blueprint.Field.parses at hsettled
  unfold Blueprint.Field.startValue? Blueprint.Field.parses
  rcases initial_cases h with ⟨harray, hinitial, hvalue⟩ | ⟨hinitial, hvalue⟩ |
    ⟨hinitial, hvalue⟩ | ⟨value, hinitial, hvalue⟩
  · have hmoment : field.isMoment = false := by
      unfold Blueprint.Field.isArray at harray
      rw [beq_iff_eq] at harray
      rw [Blueprint.Field.isMoment, harray]
      decide
    rw [hvalue]
    simp [Blueprint.Field.initialized, Blueprint.Field.default, hinitial, hmoment, literalValue,
      literalItems, Except.map]
  · rw [hvalue]
    simp [Blueprint.Field.initialized, hinitial]
  · rw [hvalue]
    simp [Blueprint.Field.initialized, Blueprint.Field.default, hinitial, literalValue,
      Value.ofJson]
  · have hinitialized : field.initialized = true := by
      simp [Blueprint.Field.initialized, hinitial]
    have hdefault : field.default = value := by simp [Blueprint.Field.default, hinitial]
    rw [hdefault] at hsettled ⊢
    rw [hvalue, hinitialized, literalValue_of_isFinite (hsettled hinitialized).1]
    rfl

theorem settled_of_startValue? (h : FieldPlanned document.raw required property field)
    {className : String} (hsome : field.initialized = true →
      (field.startValue? className).isSome = true)
    (hvalue : field.startValue? className = initialValue? field.storage required property) :
    Settled field := by
  intro hinitialized
  have hstart := hsome hinitialized
  unfold Blueprint.Field.startValue? at hstart hvalue
  rw [hinitialized, if_pos rfl] at hstart hvalue
  cases hliteral : literalValue (classNames className) field.default with
  | error found =>
      rw [hliteral] at hstart
      cases hstart
  | ok stated =>
      rw [hliteral] at hstart hvalue
      simp only at hstart hvalue
      rcases initial_cases h with ⟨-, hinitial, -⟩ | ⟨hinitial, -⟩ | ⟨hinitial, -⟩ |
        ⟨value, hinitial, hexpected⟩
      · have hdefault : field.default = .arr [] := by simp [Blueprint.Field.default, hinitial]
        have hparses : field.parses = false := by
          by_contra hparses
          rw [Bool.not_eq_false] at hparses
          rw [hdefault] at hliteral
          simp only [literalValue, literalItems, Except.map, Except.ok.injEq] at hliteral
          rw [hparses, ← hliteral] at hstart
          cases hstart
        rw [hdefault]
        exact ⟨rfl, by simp [hparses]⟩
      · simp [Blueprint.Field.initialized, hinitial] at hinitialized
      · have hdefault : field.default = .null := by simp [Blueprint.Field.default, hinitial]
        rw [hdefault]
        exact ⟨rfl, by simp [Blueprint.Field.parses, hdefault]⟩
      · have hdefault : field.default = value := by simp [Blueprint.Field.default, hinitial]
        have hparses : field.parses = (field.isMoment && value != .null) := by
          rw [Blueprint.Field.parses, hdefault]
        rw [hexpected, ← hparses] at hvalue
        rw [hdefault] at hliteral ⊢
        cases hcase : field.parses with
        | false =>
            rw [hcase] at hvalue
            simp only [Bool.false_eq_true, if_false, Option.some.injEq] at hvalue
            rw [hvalue] at hliteral
            exact ⟨isFinite_of_literalValue (numberless_classNames className) hliteral, by simp⟩
        | true =>
            rw [hcase, if_pos rfl] at hstart
            rw [hcase, if_pos rfl, if_pos rfl] at hvalue
            have hmoment : (Value.ofJson value).moment?.isSome = true := by
              rw [hvalue] at hstart
              simpa using hstart
            refine ⟨?_, fun _ => hmoment⟩
            cases value <;> simp [Value.ofJson, Value.moment?, Json.isFinite] at hmoment ⊢

theorem moment?_of_floatValue {className : String} {number : Binary64} {stated : Value}
    (h : floatValue (classNames className) number = .ok stated) : stated.moment? = none := by
  rcases floatValue_eq_ok h with ⟨-, rfl⟩ | ⟨-, name, found, -, hfound, hstated⟩
  · rfl
  · have hmoment : found.moment? = none := by
      unfold classNames at hfound
      split at hfound <;> cases hfound
      rfl
    rcases hstated with rfl | hnegated
    · exact hmoment
    · cases found <;> simp only [negated, Except.ok.injEq, reduceCtorEq] at hnegated <;>
        (subst hnegated; rfl)

/-- A moment comes from the text that its literal states. -/
theorem eq_ofJson_of_moment? {className : String} {value : Json} {stated : Value}
    (hliteral : literalValue (classNames className) value = .ok stated)
    (hmoment : stated.moment?.isSome = true) : stated = .ofJson value := by
  cases value with
  | float number =>
      rw [moment?_of_floatValue hliteral] at hmoment
      cases hmoment
  | arr items =>
      obtain ⟨values, -, rfl⟩ := map_eq_ok.mp hliteral
      cases hmoment
  | obj members =>
      obtain ⟨values, -, rfl⟩ := map_eq_ok.mp hliteral
      cases hmoment
  | _ => exact (Except.ok.inj hliteral).symm

theorem isSome_startValue? (h : FieldPlanned document.raw required property field)
    {className : String} (hsome : field.initialized = true →
      (field.startValue? className).isSome = true) :
    (field.startValue? className).isSome =
      (initialValue? field.storage required property).isSome := by
  rcases initial_cases h with ⟨-, hinitial, hvalue⟩ | ⟨hinitial, hvalue⟩ |
    ⟨hinitial, hvalue⟩ | ⟨value, hinitial, hvalue⟩
  · rw [hvalue, hsome (by simp [Blueprint.Field.initialized, hinitial])]
    rfl
  · rw [hvalue]
    simp [Blueprint.Field.startValue?, Blueprint.Field.initialized, hinitial]
  · rw [hvalue, hsome (by simp [Blueprint.Field.initialized, hinitial])]
    rfl
  · have hinitialized : field.initialized = true := by
      simp [Blueprint.Field.initialized, hinitial]
    have hdefault : field.default = value := by simp [Blueprint.Field.default, hinitial]
    have hstart := hsome hinitialized
    rw [hvalue, hstart]
    cases hparses : field.isMoment && value != .null with
    | false => rfl
    | true =>
        rw [Blueprint.Field.startValue?, hinitialized, if_pos rfl, hdefault] at hstart
        cases hliteral : literalValue (classNames className) value with
        | error found =>
            rw [hliteral] at hstart
            cases hstart
        | ok stated =>
            have hmoment : stated.moment?.isSome = true := by
              simpa [hliteral, Blueprint.Field.parses, hdefault, hparses] using hstart
            rw [if_pos rfl, Option.isSome_map, ← eq_ofJson_of_moment? hliteral hmoment, hmoment]

end Fields

/-! ## Classes -/

/-- A new instance that is given nothing holds exactly these attributes. -/
def BeginsWith (library : Library) (className : String) (attributes : List (String × Value)) :
    Prop :=
  ∀ store, ∃ after, Instance.make library className [] store = (after, .ok store.size) ∧
    after.attributes store.size = attributes

/-- Every class of the package is there and can be loaded, and its instances begin with the
initial values of its definition. -/
structure Package.Begins (schema : Json) (run : Run) : Prop where
  files : ∀ module ∈ run.package.modules,
    Entries.get? (fileOf module.name) run.package.files = some module.text
  instances : ∃ library, Library.load run.package.modules = .ok library ∧
    ∀ module ∈ run.package.modules, ∀ document, Document.read schema = .ok document →
      ∀ definition, Entries.get? module.name document.entries = some (.ok definition) →
        BeginsWith library module.name (initialAttributes document.raw definition)

/-- Nothing in the plan of a class gets in the way of its code. -/
structure Harmless (settings : Settings) (plan : Plan) : Prop where
  file : settings.packageFile.truthy = true → plan.name ≠ "__init__"
  fixed : Library.fixedName ∉ plan.name :: plan.references
  base : plan.name ≠ Instance.baseAccess
  constants : ∀ constant ∈ plan.constants, constant.value.isFinite = true
  defaults : ∀ member ∈ plan.members, Settled member.field
  parser : (∃ member ∈ plan.members, member.field.initialized = true ∧
      member.field.parses = true) → ∀ constant ∈ plan.constants, constant.name ≠ "_parse_date"

section Classes

variable {settings : Settings} {comment schema : Json} {document : Document}
  {definition : Definition} {plan : Plan} {module : ClassModule} {item : LoadedClass}

theorem startable_iff (hload : LoadedClass.load module = .ok item)
    (hconstants : module.constants = plan.constants) {className : String} {field : Field} :
    Startable item className field ↔
      (field.initialized = true → (field.startValue? className).isSome = true) ∧
        (field.initialized = true → field.parses = true →
          ∀ constant ∈ plan.constants, constant.name ≠ "_parse_date") := by
  have hnone : Entries.get? "_parse_date" item.constants = none ↔
      ∀ constant ∈ module.constants, constant.name ≠ "_parse_date" :=
    constant_eq_none_iff hload (by decide) (by decide) rfl
  rw [hconstants] at hnone
  unfold Startable
  rw [hnone]
  constructor
  · exact fun h => ⟨fun hinitialized => (h hinitialized).1, fun hinitialized => (h hinitialized).2⟩
  · exact fun h hinitialized => ⟨h.1 hinitialized, h.2 hinitialized⟩

theorem initialAttributes_eq (hplanned : Planned document settings.wrapWidth definition plan)
    {className : String} (hsettled : ∀ member ∈ plan.members, Settled member.field) :
    beginning className plan.members = initialAttributes document.raw definition := by
  have hmembers := hplanned.members
  unfold beginning initialAttributes
  generalize plan.members = members at hmembers hsettled
  generalize definition.properties = properties at hmembers
  induction hmembers with
  | nil => rfl
  | @cons entry member properties members hmember _ ih =>
      obtain ⟨hfirst, hrest⟩ := List.forall_mem_cons.mp hsettled
      have hfield := (Blueprint.Member.ofProperty_eq_ok hmember).field
      rw [List.filterMap_cons, List.filterMap_cons, ih hrest, initialAttribute?_eq hfield,
        startValue?_of_settled hfield hfirst]

theorem settled_of_beginning (hplanned : Planned document settings.wrapWidth definition plan)
    {className : String} (hsome : ∀ member ∈ plan.members, member.field.initialized = true →
      (member.field.startValue? className).isSome = true)
    (hbegin : beginning className plan.members = initialAttributes document.raw definition) :
    ∀ member ∈ plan.members, Settled member.field := by
  have hmembers := hplanned.members
  unfold beginning initialAttributes at hbegin
  generalize plan.members = members at hmembers hsome hbegin
  generalize definition.properties = properties at hmembers hbegin
  induction hmembers with
  | nil => simp
  | @cons entry member properties members hmember _ ih =>
      obtain ⟨hfirst, hrest⟩ := List.forall_mem_cons.mp hsome
      have hfield := (Blueprint.Member.ofProperty_eq_ok hmember).field
      have hplace := isSome_startValue? hfield hfirst
      rw [List.filterMap_cons, List.filterMap_cons, initialAttribute?_eq hfield] at hbegin
      rw [List.forall_mem_cons]
      cases hstart : member.field.startValue? className with
      -- neither side has an entry for the field, so the rests are equal
      | none =>
          rw [hstart] at hplace
          have hnone := Option.isSome_eq_false_iff.mp hplace.symm
          rw [Option.isNone_iff_eq_none] at hnone
          simp only [hstart, hnone, Option.map_none] at hbegin
          exact ⟨settled_of_startValue? hfield hfirst (hstart.trans hnone.symm), ih hrest hbegin⟩
      -- both sides have one, and the entries and the rests are equal
      | some value =>
          rw [hstart] at hplace
          obtain ⟨other, hother⟩ := Option.isSome_iff_exists.mp hplace.symm
          simp only [hstart, hother, Option.map_some, List.cons.injEq, Prod.mk.injEq] at hbegin
          obtain ⟨⟨-, rfl⟩, hbegin⟩ := hbegin
          exact ⟨settled_of_startValue? hfield hfirst (hstart.trans hother.symm), ih hrest hbegin⟩

/-- When a new instance holds the initial values of its definition. -/
theorem beginsWith_iff {library : Library}
    (hplanned : Planned document settings.wrapWidth definition plan)
    (hstandard : Standard plan item) (hload : LoadedClass.load module = .ok item)
    (hconstants : module.constants = plan.constants)
    (hfind : library.find? plan.name = some item) :
    BeginsWith library plan.name (initialAttributes document.raw definition) ↔
      plan.name ≠ Instance.baseAccess ∧ (∀ member ∈ plan.members, Settled member.field) ∧
        ((∃ member ∈ plan.members, member.field.initialized = true ∧
          member.field.parses = true) →
          ∀ constant ∈ plan.constants, constant.name ≠ "_parse_date") := by
  constructor
  · intro hbegins
    obtain ⟨after, hmake, hattributes⟩ := hbegins {}
    obtain ⟨-, hbase, hstart, units, hfill⟩ := make_eq_ok hfind hstandard hmake
    cases hfill
    rw [attributes_begun plan.name hstandard] at hattributes
    have hstarts := fun member hmember =>
      (startable_iff hload hconstants).mp (hstart member hmember)
    refine ⟨hbase, settled_of_beginning hplanned (fun member hmember => (hstarts member hmember).1)
      hattributes, ?_⟩
    rintro ⟨member, hmember, hinitialized, hparses⟩
    exact (hstarts member hmember).2 hinitialized hparses
  · rintro ⟨hbase, hsettled, hparser⟩ store
    have hstart : ∀ member ∈ plan.members, Startable item plan.name member.field := by
      intro member hmember
      refine (startable_iff hload hconstants).mpr ⟨fun hinitialized => ?_,
        fun hinitialized hparses => hparser ⟨member, hmember, hinitialized, hparses⟩⟩
      obtain ⟨hfinite, hmoment⟩ := hsettled member hmember hinitialized
      rw [Blueprint.Field.startValue?, hinitialized, if_pos rfl, literalValue_of_isFinite hfinite]
      cases hparses : member.field.parses with
      | false => rfl
      | true => simpa using hmoment hparses
    exact ⟨_, make_empty hfind hstandard hbase hstart,
      by rw [attributes_begun plan.name hstandard, initialAttributes_eq hplanned hsettled]⟩

theorem exists_library_iff {modules : List ClassModule}
    (h : ∀ module ∈ modules, ∃ lines plan, module = standardModule lines plan) :
    (∃ library, Library.load modules = .ok library) ↔
      ∀ module ∈ modules, Library.fixedName ∉ module.name :: module.references ∧
        ∀ constant ∈ module.constants, constant.value.isFinite = true := by
  have hnames : ∀ module ∈ modules, Library.checkNames module = .ok () ↔
      Library.fixedName ∉ module.name :: module.references := by
    intro module hmodule
    obtain ⟨lines, plan, rfl⟩ := h module hmodule
    have hmodel : Library.fixedName ≠ "Model" := by decide
    rw [checkNames_eq_ok]
    simp [standardModule, hmodel]
  constructor
  · rintro ⟨library, hload⟩ module hmodule
    obtain ⟨entry, -, hchecked, -, -, hitem⟩ :=
      exists_right_of_mem (Library.load_eq_ok.mp hload) hmodule
    exact ⟨(hnames module hmodule).mp hchecked, isFinite_of_load hitem⟩
  · intro hall
    simp only [Library.load_eq_ok]
    -- modules are loaded one by one, and none of them looks at another
    have hone : ∀ module ∈ modules, ∃ entry, LoadedFrom module entry := by
      intro module hmodule
      obtain ⟨hfixed, hfinite⟩ := hall module hmodule
      obtain ⟨item, hitem⟩ := exists_load hfinite
      refine ⟨(module.name, item), (hnames module hmodule).mpr hfixed, ?_, rfl, hitem⟩
      obtain ⟨lines, plan, rfl⟩ := h module hmodule
      exact checkBase_standard lines plan
    clear h hnames hall
    induction modules with
    | nil => exact ⟨[], .nil⟩
    | cons first rest ih =>
        obtain ⟨hfirst, hrest⟩ := List.forall_mem_cons.mp hone
        obtain ⟨entry, hentry⟩ := hfirst
        obtain ⟨library, hlibrary⟩ := ih hrest
        exact ⟨entry :: library, .cons hentry hlibrary⟩

end Classes

/-! ## A guest -/

/-- A required text, an array, a moment with a default, and a number that may be left out. -/
def guestSchema : Json := .obj [("definitions", .obj [("Guest", .obj [
  ("properties", .obj [
    ("fullName", .obj [("type", .str "string")]),
    ("bags", .obj [("type", .str "array")]),
    ("since", .obj [("format", .str "date-time"), ("default", .str "2024-05-01")]),
    ("age", .obj [("type", .str "integer")])]),
  ("required", .arr [.str "fullName"])])])]

def guestRun : Package.Run := Package.runOf Package.uncheckedSettings .null guestSchema

def guestDocument : Document :=
  match Document.read guestSchema with
  | .ok document => document
  | .error _ => ⟨.null, []⟩

def guestDefinition : Definition :=
  match Entries.get? "Guest" guestDocument.entries with
  | some (.ok definition) => definition
  | _ => { name := "" }

def guestPlan : Plan :=
  match Plan.ofDefinition guestDocument Package.uncheckedSettings.wrapWidth guestDefinition with
  | .ok plan => plan
  | .error _ => { name := "", path := "" }

theorem guest_flawless : Package.Flawless Package.uncheckedSettings .null guestSchema guestRun := by
  refine ⟨rfl, rfl, rfl, ?_, ?_⟩
  · intro document hread name definition hentry
    obtain rfl : guestDocument = document := Except.ok.inj hread
    have hentries : guestDocument.entries = [("Guest", .ok guestDefinition)] := rfl
    rw [hentries, Entries.get?] at hentry
    split at hentry
    · obtain rfl : guestDefinition = definition := Except.ok.inj (Option.some.inj hentry)
      decide +kernel
    · cases hentry
  · rintro lines hlines line hline
    cases hlines
    cases hline

/-- A default that is read as infinite. -/
def endlessSchema : Json := .obj [("definitions", .obj [("Stay", .obj [
  ("properties", .obj [("nights", .obj [("default", .float (.infinite false))])])])])]

def endlessProperty : Property where
  name := "nights"
  default := some (.float (.infinite false))
  path := "#/definitions/Stay/properties/nights"

def endlessDefinition : Definition where
  name := "Stay"
  properties := [("nights", endlessProperty)]
  path := "#/definitions/Stay"

def endlessDocument : Document where
  raw := endlessSchema
  entries := [("Stay", .ok endlessDefinition)]

def endlessField : Field where
  name := "nights"
  attr := "nights"
  initial := .declared (.float (.infinite false))

def endlessPlan : Plan where
  name := "Stay"
  path := "#/definitions/Stay"
  members := [{ field := endlessField }]

def endlessModule : ClassModule := standardModule [] endlessPlan

def endlessClass : LoadedClass where
  name := "Stay"
  fields := endlessModule.fields

def endlessRun : Package.Run :=
  match Package.Run.finish {} .null (Package.Run.addClass endlessModule {}) with
  | .ok run => run
  | .error _ => {}

theorem endless_valid : Source.validate endlessModule.text = .ok none := by
  refine Package.validate_of_read true ?_
  -- line by line the characters of the text are cheap to list
  rw [ClassModule.text, toList_unlines]
  decide +kernel

theorem endless_generated : Package.generate {} .null endlessSchema = .ok endlessRun := by
  have hread : Document.read endlessSchema = .ok endlessDocument := rfl
  have hcompose : Package.compose {} .null endlessDocument endlessDefinition =
      .ok endlessModule := rfl
  rw [Package.generate_single hread rfl rfl rfl (Package.attempt_of_valid hcompose endless_valid)]
  rfl

end ModelMint
