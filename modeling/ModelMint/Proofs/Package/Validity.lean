import ModelMint.Proofs.Emit.Types
import ModelMint.Proofs.Package.Attempt

/-!
# Composed sources are valid

Where types and the definitions that are referred to have plain names, the check of the
composed sources has nothing to find: descriptions, property names, allowed values and
defaults are written so that the source can be read, whatever they are.
-/

namespace ModelMint

open ModelMint.Schema
open ModelMint.Blueprint
open ModelMint.Source (Expr)
open ModelMint.Emit (Plain Unbroken)

/-! ## Values within reach -/

namespace Schema

/-- The values of a property that are written into code. -/
def Property.values (property : Property) : List Json :=
  property.enum.getD [] ++ (property.minimum.toList ++ property.maximum.toList ++
    property.minItems.toList ++ property.maxItems.toList ++ property.default.toList)

/-- Values that the reader of sources gets to the bottom of: they are written behind two open
brackets at most. -/
def Property.InReach (property : Property) : Prop :=
  ∀ value ∈ property.values, value.isWithin 2 = true

end Schema

namespace Blueprint

def Rule.values : Rule → List Json
  | .within _ minimum maximum => minimum.toList ++ maximum.toList
  | .oneOf values => values
  | _ => []

structure Member.InReach (member : Member) : Prop where
  constants : ∀ constant ∈ member.constants, constant.value.isWithin 2 = true
  default : member.field.default.isWithin 2 = true
  rules : ∀ rule ∈ member.rules, ∀ value ∈ rule.values, value.isWithin 2 = true

variable {document : Document} {required : List String} {property : Property} {field : Field}
  {member : Member}

/-- A declared value is the one of the property. -/
theorem default_of_initialOf {isArray : Bool} {value : Json}
    (h : initialOf property required isArray = .ok (.declared value)) :
    property.default = some value := by
  unfold initialOf at h
  split at h
  · cases h
  · split at h
    · cases h
    · split at h
      · cases h
      next stated hstated =>
        simp only at h
        split at h
        · obtain ⟨-, -, h⟩ := bind_eq_ok.mp h
          cases h
          exact hstated
        · cases h
          exact hstated

theorem FieldPlanned.default_inReach {root : Json} (h : FieldPlanned root required property field)
    (hvalues : property.InReach) : field.default.isWithin 2 = true := by
  have hinitial := h.initial
  unfold Field.default
  cases hfield : field.initial with
  | declared value =>
      rw [hfield] at hinitial
      exact hvalues value (by simp [Property.values, default_of_initialOf hinitial])
  | _ => rfl

theorem otherRules_inReach {storage : Option String} (hvalues : property.InReach) :
    ∀ rule ∈ otherRules storage property, ∀ value ∈ rule.values, value.isWithin 2 = true := by
  intro rule hrule value hvalue
  refine hvalues value ?_
  rcases otherRules_cases hrule with rfl | ⟨measure, rfl⟩ | rfl | ⟨values, henum, rfl⟩
  · simp only [Rule.values, Property.values, List.mem_append] at hvalue ⊢
    tauto
  · simp only [Rule.values, Property.values, List.mem_append] at hvalue ⊢
    tauto
  · cases hvalue
  · change value ∈ values at hvalue
    simp [Property.values, henum, hvalue]

theorem MemberPlanned.inReach (h : MemberPlanned document required property member)
    (hvalues : property.InReach) : member.InReach where
  constants := by
    intro constant hconstant
    rw [h.constants] at hconstant
    cases henum : property.enum with
    | none => simp [henum] at hconstant
    | some values =>
        rw [henum] at hconstant
        obtain ⟨value, hvalue, rfl⟩ := List.mem_map.mp hconstant
        exact hvalues value (by simp [Property.values, henum, hvalue])
  default := h.field.default_inReach hvalues
  rules := by
    obtain ⟨storage, elements, -, helements, hrules⟩ := rulesOf_eq_ok h.rules
    intro rule hrule value hvalue
    rw [hrules] at hrule
    rcases List.mem_append.mp hrule with hmem | hmem
    · rcases elementRules_eq_ok helements with rfl | ⟨-, -, resolved, -, rfl⟩
      · cases hmem
      · rw [List.mem_singleton.mp hmem] at hvalue
        cases hvalue
    · exact otherRules_inReach hvalues rule hmem value hvalue

end Blueprint

/-! ## Modules of plans -/

namespace Emit

variable {names : BaseNames} {field : Field} {plan : Plan} {module : ClassModule}

theorem fits_literal {value : Json} (h : value.isWithin 2 = true) {depth : Nat} (hdepth : depth ≤ 2) :
    (Expr.ofLiteral value).fits depth = true :=
  Expr.fits_of_le hdepth (Expr.fits_ofLiteral h)

theorem fits_startOf (h : field.default.isWithin 2 = true) :
    (startOf names field).all Start.fits = true := by
  unfold startOf
  split
  · rfl
  · split
    · exact fits_literal h (by decide)
    · exact fits_literal h (by decide)

theorem fits_statementOf {rule : Rule} (h : ∀ value ∈ rule.values, value.isWithin 2 = true)
    {statement : Statement} (hstatement : statementOf names field rule = .ok statement) :
    statement.fits = true := by
  cases rule with
  | elements className =>
      cases hstatement
      rfl
  | within measure minimum maximum =>
      obtain ⟨operation, -, hstatement⟩ := bind_eq_ok.mp hstatement
      cases hstatement
      have hbound : ∀ bound : Option Json, (∀ value ∈ bound.toList, value ∈
          (Rule.within measure minimum maximum).values) →
          (Expr.ofLiteral (bound.getD .null)).fits 1 = true := by
        intro bound hmem
        cases bound with
        | none => rfl
        | some value => exact fits_literal (h value (hmem value (by simp))) (by decide)
      rw [Statement.fits, hbound minimum fun value hvalue => List.mem_append_left _ hvalue,
        hbound maximum fun value hvalue => List.mem_append_right _ hvalue]
      rfl
  | moment =>
      cases hstatement
      rfl
  | oneOf values =>
      cases hstatement
      exact List.all_eq_true.mpr fun value hvalue => fits_literal (h value hvalue) (by decide)

theorem valuesFit_ofPlan {heading : List String} (hplan : ∀ member ∈ plan.members, member.InReach)
    (h : ClassModule.ofPlan names heading plan = .ok module) : module.valuesFit = true := by
  have hmade := ClassModule.ofPlan_eq_ok h
  simp only [ClassModule.valuesFit, Bool.and_eq_true, List.all_eq_true]
  refine ⟨⟨fun constant hconstant => ?_, fun code hcode => ?_⟩, fun code hcode statement hmem => ?_⟩
  · obtain ⟨member, hmember, hconstant⟩ := hmade.exists_constant hconstant
    exact fits_literal ((hplan member hmember).constants constant hconstant) (by decide)
  · obtain ⟨member, hmember, rfl⟩ := hmade.exists_field hcode
    exact fits_startOf (hplan member hmember).default
  · obtain ⟨member, hmember, hsets⟩ := hmade.exists_member hcode
    obtain ⟨rule, hrule, hstatement⟩ := exists_left_of_mem hsets.statements hmem
    exact fits_statementOf ((hplan member hmember).rules rule hrule) hstatement

/-- The types of a written plan are expressions that can be read where they stand. -/
theorem fitAll_ofPlan {heading : List String}
    (htypes : ∀ field ∈ plan.fields,
      TypeExpression (annotationOf field) ∧ TypeExpression (parameterTypeOf field))
    (hvalues : module.valuesFit = true)
    (h : ClassModule.ofPlan names heading plan = .ok module) :
    Source.Tree.fitAll (module.trees typeOf) = true := by
  have hmade := ClassModule.ofPlan_eq_ok h
  simp only [fitAll_trees, hvalues, Bool.true_and, Bool.and_eq_true, List.all_eq_true]
  refine ⟨fun code hcode => ?_, fun code hcode => ?_⟩
  · obtain ⟨member, hmember, rfl⟩ := hmade.exists_field hcode
    have hannotation := (htypes member.field (List.mem_map_of_mem hmember)).1
    exact Expr.fits_of_le (by decide) hannotation.standsFor.fits
  · obtain ⟨member, hmember, hsets⟩ := hmade.exists_member hcode
    rw [hsets.parameterType]
    exact (htypes member.field (List.mem_map_of_mem hmember)).2.standsFor.fits

end Emit

/-! ## Names of the base -/

theorem Json.nullFree_of_plain {value : Json} (h : ∀ c ∈ value.plain, c ∉ ['[', '\x7b', '\x00']) :
    value.NullFree := by
  cases value with
  | str text => exact fun hmem => h '\x00' hmem (by simp)
  | arr items => exact absurd (by simp) (h '[' (by simp [Json.plain, Json.shown]))
  | obj members => exact absurd (by simp) (h '\x7b' (by simp [Json.plain, Json.shown]))
  | _ => trivial

theorem unmarked_of_isPlainName {word : List Char} (h : Text.isPlainName word = true) :
    ∀ c ∈ word, c ∉ ['[', '\x7b', '\x00'] := by
  obtain ⟨first, rest, rfl, -, hchars⟩ :=
    Source.exists_of_isIdentifier (Bool.and_eq_true_iff.mp h).1
  intro c hc hmem
  have hall : ['[', '\x7b', '\x00'].all (!Source.isWordChar ·) = true := by decide
  have hword := List.all_eq_true.mp hall c hmem
  rw [hchars c hc] at hword
  cases hword

theorem BaseNames.IsPlain.nullFree {names : BaseNames} (h : names.IsPlain) : names.NullFree := by
  have hname : ∀ value, Plain (Emit.plainText value) → value.NullFree := by
    intro value hvalue
    rw [Plain, Emit.plainText, String.toList_ofList] at hvalue
    exact Json.nullFree_of_plain (unmarked_of_isPlainName hvalue)
  have hmodule : names.module.NullFree := by
    have hparts := h.module
    rw [Emit.plainText, String.toList_ofList] at hparts
    refine Json.nullFree_of_plain ?_
    cases hsplit : Text.parts '.' names.module.plain with
    | nil => exact absurd hsplit (Text.parts_ne_nil _ _)
    | cons first rest =>
        rw [hsplit] at hparts
        rw [← Emit.parts_join hsplit]
        obtain ⟨hfirst, hrest⟩ := List.forall_mem_cons.mp hparts
        rw [List.forall_mem_append, List.forall_mem_flatMap]
        refine ⟨unmarked_of_isPlainName hfirst, fun part hpart => ?_⟩
        exact List.forall_mem_cons.mpr ⟨by decide, unmarked_of_isPlainName (hrest part hpart)⟩
  have hoperations := h.operations
  simp only [List.forall_mem_cons, List.not_mem_nil, false_implies, implies_true,
    and_true] at hoperations
  obtain ⟨helements, hlength, hinteger, hfloat, hvalues, hmoment, hexport⟩ := hoperations
  unfold BaseNames.NullFree BaseNames.entries
  simp only [List.forall_mem_cons, List.not_mem_nil, false_implies, implies_true, and_true]
  exact ⟨hmodule, hname _ h.className, hname _ helements, hname _ hlength, hname _ hinteger,
    hname _ hfloat, hname _ hvalues, hname _ hmoment, hname _ hexport⟩

/-! ## Runs -/

namespace Package

variable {settings : Settings} {comment schema : Json} {document : Document} {name : String}
  {definition : Definition} {module : Emit.ClassModule}

/-- Plain names wherever a property names a type, or a definition by an accepted reference. -/
structure Nameable (document : Document) (property : Property) : Prop where
  type : ∀ name ∈ property.type, Plain name
  target : ∀ name, targetOf document property = .ok (some name) → Plain name

theorem Nameable.hasTypes {property : Property} (h : Nameable document property)
    {member : Blueprint.Member} {required : List String}
    (hmember : MemberPlanned document required property member) :
    HasTypes document.raw property where
  type name hname := Emit.typeExpression_name (h.type name hname)
  reference resolved hresolved := by
    have htarget := hmember.target
    rcases targetOf_eq_ok htarget with ⟨href, -⟩ | ⟨-, target, hsame, -, hsome⟩
    · obtain ⟨pointer, hpointer, -⟩ := resolveProperty_eq_ok.mp hresolved
      rw [isReference_of_reference? hpointer] at href
      cases href
    · obtain rfl : resolved = target := Except.ok.inj (hresolved.symm.trans hsame)
      exact h.target _ (hsome ▸ htarget)

/-- Settings, a comment and a document of which every class can be written. -/
structure Writable (settings : Settings) (comment schema : Json) : Prop where
  base : settings.base.IsPlain
  comment : ∀ lines, headingLines (headingOf settings comment) = .ok lines →
    ∀ line ∈ lines, Unbroken line.toList
  properties : ∀ document, Document.read schema = .ok document → ∀ name definition,
    Entries.get? name document.entries = some (.ok definition) →
      ∀ entry ∈ definition.properties, Nameable document entry.2 ∧ entry.2.InReach

/-- A class that a run has made, and that does what its module says and nothing else: types are
expressions, references lead to plain names, and the lines of the comment are lines. -/
structure Faithful (settings : Settings) (comment schema : Json) (run : Run) (document : Document)
    (definition : Definition) (plan : Plan) (module : Emit.ClassModule) : Prop where
  generated : generate settings comment schema = .ok run
  made : module ∈ run.package.modules
  origin : Origin settings comment schema document definition plan module
  base : settings.base.IsPlain
  comment : ∀ lines, headingLines (headingOf settings comment) = .ok lines →
    ∀ line ∈ lines, Unbroken line.toList
  types : ∀ entry ∈ definition.properties, HasTypes document.raw entry.2

/-- Descriptions without null characters. -/
def DescriptionsNullFree (schema : Json) : Prop :=
  ∀ document, Document.read schema = .ok document → ∀ name definition,
    Entries.get? name document.entries = some (.ok definition) →
      (∀ text ∈ definition.description, Text.NullFree text.toList) ∧
        ∀ entry ∈ definition.properties, ∀ text ∈ entry.2.description, Text.NullFree text.toList

section Modules

variable (hread : Document.read schema = .ok document)
  (hentry : Entries.get? name document.entries = some (.ok definition))
include hread hentry

theorem Writable.isPlanWritten (h : Writable settings comment schema) {plan : Plan}
    (hplan : Plan.ofDefinition document settings.wrapWidth definition = .ok plan) :
    Emit.IsPlanWritten Emit.typeOf plan := by
  refine Blueprint.isPlanWritten hplan fun entry hmem member hmember => ?_
  exact ((h.properties document hread name definition hentry entry hmem).1).hasTypes
    (Member.ofProperty_eq_ok hmember)

theorem Writable.isValid (h : Writable settings comment schema)
    (hmodule : compose settings (headingOf settings comment) document definition = .ok module) :
    Source.isValid module.text = true := by
  obtain ⟨plan, lines, hplan, hlines, hofPlan⟩ := compose_eq_ok hmodule
  have hwritten := Emit.isWritten_ofPlan h.base (h.comment lines hlines)
    (h.isPlanWritten hread hentry hplan) hofPlan
  have hplanned := Plan.ofDefinition_eq_ok hplan
  have htypes := hplanned.typeExpressions fun entry hmem member hmade =>
    ((h.properties document hread name definition hentry entry hmem).1).hasTypes
      (Member.ofProperty_eq_ok hmade)
  rw [hwritten.isValid_iff]
  refine Emit.fitAll_ofPlan htypes (Emit.valuesFit_ofPlan (fun member hmember => ?_) hofPlan) hofPlan
  obtain ⟨entry, hmem, hmade⟩ := hplanned.exists_property hmember
  exact hmade.inReach (h.properties document hread name definition hentry entry hmem).2

/-- Whatever the properties are called and whatever their values are, null characters can only
come with the descriptions and the comment. -/
theorem Writable.nullFree_plan (h : Writable settings comment schema)
    (hdescriptions : DescriptionsNullFree schema) {plan : Plan}
    (hplan : Plan.ofDefinition document settings.wrapWidth definition = .ok plan) :
    plan.NullFree := by
  have hplanned := Plan.ofDefinition_eq_ok hplan
  have hwritten := h.isPlanWritten hread hentry hplan
  obtain ⟨hown, hproperties⟩ := hdescriptions document hread name definition hentry
  have hbare : ∀ {text : String}, Plain text → Text.NullFree text.toList :=
    fun hplain => (Text.bare_of_isPlainName hplain).nullFree
  refine ⟨hbare hwritten.name, nullFree_describe hown hplanned.description, fun member hmember => ?_⟩
  obtain ⟨entry, hmem, hmade⟩ := exists_left_of_mem hplanned.members hmember
  have hplannedMember := Member.ofProperty_eq_ok hmade
  have htypes := ((h.properties document hread name definition hentry entry hmem).1).hasTypes
    hplannedMember
  have hmemberWritten := hwritten.members member hmember
  refine ⟨⟨hbare hmemberWritten.field.plain, fun text htext => ?_, fun text htext => ?_,
    fun text htext => (hmemberWritten.field.documented text htext).nullFree, ?_⟩,
    fun className hrule => hbare (hmemberWritten.rules className hrule),
    fun constant hconstant => hbare (hmemberWritten.constants constant hconstant),
    fun target htarget => hbare (hmemberWritten.target target htarget)⟩
  · exact (htypes.storage hplannedMember.field.storage text htext).bare.nullFree
  · obtain ⟨-, resolved, hresolved, rfl⟩ := hplannedMember.field.element text htext
    exact hbare (plain_ofSchema (htypes.reference resolved hresolved))
  · exact nullFree_describe (hproperties entry hmem)
      (Field.description_eq_ok (Member.field_eq_ok hmade))

theorem Writable.validate (h : Writable settings comment schema)
    (hdescriptions : DescriptionsNullFree schema)
    (hcomment : ∀ lines, headingLines (headingOf settings comment) = .ok lines →
      Emit.LinesNullFree lines)
    (hmodule : compose settings (headingOf settings comment) document definition = .ok module) :
    Source.validate module.text = .ok none := by
  obtain ⟨plan, lines, hplan, hlines, hofPlan⟩ := compose_eq_ok hmodule
  have hcode : module.NullFree := Emit.nullFree_ofPlan h.base.nullFree (hcomment lines hlines)
    (h.nullFree_plan hread hentry hdescriptions hplan) hofPlan
  unfold Source.validate
  rw [hasNull_eq_false (Emit.ClassModule.nullFree_text hcode), h.isValid hread hentry hmodule]
  rfl

end Modules

/-! ## Failures -/

theorem checkSource_of_valid {P : Failure → Prop} {source : String}
    (h : Source.isValid source = true) :
    FailsWith (Stop.Found True P) (checkSource settings definition source) := by
  have hvalidate : Source.validate source =
      if Source.hasNull source then .error .nulCharacter else .ok none := by
    unfold Source.validate
    simp only [h, if_true]
  unfold checkSource
  rw [hvalidate]
  split
  · exact failsWith_ok
  · cases Source.hasNull source with
    | true => exact failsWith_error trivial
    | false => exact failsWith_ok

/-- Where composed sources are valid, an attempt fails for the schema only. -/
theorem attempt_ofSchema {heading : Json} {body : Json}
    (hvalid : ∀ definition module, Document.readEntry name body = .ok definition →
      compose settings heading document definition = .ok module →
        Source.isValid module.text = true) :
    FailsWith (Stop.Found True fun failure => failure.cause.OfSchema)
      (attempt settings heading document (Document.readEntry name body)).module := by
  unfold attempt
  split
  next failure hfailure => exact failsWith_error (readEntry_placed failure hfailure).cause
  next definition hdefinition =>
    split
    next stop hstop =>
      exact failsWith_error ((compose_stops (.inl trivial) stop hstop).imp fun _ => PlacedIn.cause)
    next module hmodule =>
      exact (checkSource_of_valid (hvalid definition module hdefinition hmodule)).map

/-- A run ends early for what some attempt ends with, or for a fault. -/
theorem generate_fails {P : Stop → Prop} (hfault : ∀ fault, P (.fault fault))
    (hread : FailsWith (fun failure => P (.failure failure)) (Document.read schema))
    (hattempt : ∀ document name entry, Document.read schema = .ok document →
      Entries.get? name document.entries = some entry →
        FailsWith P (attempt settings (headingOf settings comment) document entry).module) :
    FailsWith (fun halt => P halt.stop) (generate settings comment schema) := by
  unfold generate
  split
  next failure hfailure => exact failsWith_error (hread failure hfailure)
  next document hdocument =>
    refine (failsWith_foldlM (fun run name _ => ?_) _).bind fun run _ => ?_
    · unfold Run.step
      split
      · exact failsWith_error (hfault _)
      · exact failsWith_ok
      · split
        · exact failsWith_ok
        next entry hentry =>
          unfold Run.define
          simp only
          split
          · exact failsWith_ok
          · exact failsWith_error (hfault _)
          next failure hfailure =>
            split
            · exact failsWith_error (hattempt document name entry hdocument hentry _ hfailure)
            · exact failsWith_ok
    · unfold Run.finish
      split
      · exact failsWith_ok
      · split
        · exact failsWith_error (hfault _)
        · exact failsWith_ok

theorem read_ofSchema : FailsWith (fun failure => failure.cause.OfSchema) (Document.read schema) := by
  unfold Document.read
  split
  · split
    · exact failsWith_ok
    · exact failsWith_error trivial
  · exact failsWith_error trivial

/-- No text is refused: neither a failure that a run reports nor one that ends it is about a text
that it composed. -/
structure NoneRefused (result : Except Halt Run) : Prop where
  reported : ∀ run, result = .ok run → ∀ failure ∈ run.package.failures, ∀ what,
    failure.cause ≠ .unwritable what
  ending : ∀ halt, result = .error halt → ∀ failure, halt.stop = .failure failure → ∀ what,
    failure.cause ≠ .unwritable what

theorem Cause.ne_unwritable {cause : Cause} (h : cause.OfSchema) (what : Unwritable) :
    cause ≠ .unwritable what := by
  rintro rfl
  exact h

theorem Writable.noneRefused (h : Writable settings comment schema) :
    NoneRefused (generate settings comment schema) := by
  have hattempt : ∀ document name entry, Document.read schema = .ok document →
      Entries.get? name document.entries = some entry →
        FailsWith (Stop.Found True fun failure => failure.cause.OfSchema)
          (attempt settings (headingOf settings comment) document entry).module := by
    intro document name entry hread hentry
    obtain ⟨-, body, -, -, -, rfl⟩ := exists_body_of_get? hread hentry
    refine attempt_ofSchema fun definition module hdefinition hmodule => ?_
    exact h.isValid hread (hdefinition ▸ hentry) hmodule
  refine ⟨fun run hrun failure hfailure what => ?_, fun halt hhalt failure hstop what => ?_⟩
  · obtain ⟨document, added, hran⟩ := generate_eq_ok hrun
    rw [hran.failures] at hfailure
    obtain ⟨out, hout, hfailure⟩ := List.mem_flatMap.mp hfailure
    obtain ⟨name, -, houtcome⟩ := exists_left_of_mem hran.outcomes hout
    generalize out.1 = modules at houtcome
    generalize out.2 = failures at houtcome hfailure
    cases houtcome with
    | passed => cases hfailure
    | made => cases hfailure
    | failed hignored hentry hfailed =>
        obtain rfl := List.mem_singleton.mp hfailure
        exact Cause.ne_unwritable (hattempt document name _ hran.read hentry _ hfailed) what
  · have hfound : Stop.Found True (fun failure => failure.cause.OfSchema) halt.stop :=
      generate_fails (fun _ => trivial) read_ofSchema hattempt halt hhalt
    rw [hstop] at hfound
    exact Cause.ne_unwritable hfound what

/-- Whatever properties are called, whatever values they allow and have at first, and whatever is
said of them, the check lets every composed class through. -/
theorem composed_sources_accepted (h : Writable settings comment schema)
    (hdescriptions : DescriptionsNullFree schema) :
    (∀ document name definition module, Document.read schema = .ok document →
      Entries.get? name document.entries = some (.ok definition) →
        compose settings (headingOf settings comment) document definition = .ok module →
          Source.isValid module.text = true ∧
            ((∀ lines, headingLines (headingOf settings comment) = .ok lines →
              Emit.LinesNullFree lines) → Source.validate module.text = .ok none)) ∧
      NoneRefused (generate settings comment schema) := by
  refine ⟨fun document name definition module hread hentry hmodule => ?_, h.noneRefused⟩
  exact ⟨h.isValid hread hentry hmodule,
    fun hcomment => h.validate hread hentry hdescriptions hcomment hmodule⟩

/-! ## A stay with notes -/

/-- Names, texts and values that would be code if they were not written with care. -/
def notesSchema : Json := .obj [("definitions", .obj [
  ("Guest", .obj []),
  ("Stay", .obj [
    ("description", .str "Says \"\"\" and \\"),
    ("properties", .obj [
      ("class", .obj [("type", .str "string"), ("enum", .arr [.str "\"\n", .null, .arr [.int 1]])]),
      ("the guest", .obj [("$ref", .str "#/definitions/Guest"),
        ("default", .obj [("'", .float (.infinite true))])])])])])]

def notesDocument : Document :=
  match Document.read notesSchema with
  | .ok document => document
  | .error _ => ⟨.null, []⟩

def classProperty : Property where
  name := "class"
  type := some "string"
  enum := some [.str "\"\n", .null, .arr [.int 1]]
  path := "#/definitions/Stay/properties/class"

def guestProperty : Property where
  name := "the guest"
  ref := some "#/definitions/Guest"
  default := some (.obj [("'", .float (.infinite true))])
  path := "#/definitions/Stay/properties/the guest"

def notesDefinitions : List Definition := [
  { name := "Guest", path := "#/definitions/Guest" },
  { name := "Stay", description := some "Says \"\"\" and \\", path := "#/definitions/Stay",
    properties := [("class", classProperty), ("the guest", guestProperty)] }]

theorem notes_entries {document : Document} (hread : Document.read notesSchema = .ok document)
    {name : String} {definition : Definition}
    (hentry : Entries.get? name document.entries = some (.ok definition)) :
    document = notesDocument ∧ definition ∈ notesDefinitions := by
  obtain rfl : notesDocument = document := Except.ok.inj hread
  have hentries : notesDocument.entries =
      notesDefinitions.map fun definition => (definition.name, .ok definition) := rfl
  have hmem := Entries.mem_of_get? hentry
  rw [hentries] at hmem
  obtain ⟨other, hother, hsame⟩ := List.mem_map.mp hmem
  cases hsame
  exact ⟨rfl, hother⟩

theorem notes_writable : Writable {} (.arr [.str "written for you"]) notesSchema where
  base := ⟨by decide, by decide, by decide⟩
  comment := by
    rintro lines ⟨⟩
    unfold Unbroken
    decide
  properties := by
    intro document hread name definition hentry
    obtain ⟨rfl, hmem⟩ := notes_entries hread hentry
    have hclass : Nameable notesDocument classProperty := by
      refine ⟨?_, fun name htarget => by cases htarget⟩
      rintro name ⟨⟩
      decide
    have hguest : Nameable notesDocument guestProperty := by
      refine ⟨fun name hname => (by cases hname), fun name htarget => ?_⟩
      have hfound : targetOf notesDocument guestProperty = .ok (some "Guest") := rfl
      obtain rfl : "Guest" = name := Option.some.inj (Except.ok.inj (hfound.symm.trans htarget))
      decide
    have hreach : classProperty.InReach ∧ guestProperty.InReach := by
      unfold Property.InReach
      decide
    rcases List.mem_cons.mp hmem with rfl | hmem
    · simp
    · obtain rfl := List.mem_singleton.mp hmem
      simp only [List.forall_mem_cons, List.not_mem_nil, false_implies, implies_true, and_true]
      exact ⟨⟨hclass, hreach.1⟩, hguest, hreach.2⟩

theorem composed_sources_accepted_notes :
    Writable {} (.arr [.str "written for you"]) notesSchema ∧ DescriptionsNullFree notesSchema ∧
      NoneRefused (generate {} (.arr [.str "written for you"]) notesSchema) := by
  have hdescriptions : DescriptionsNullFree notesSchema := by
    intro document hread name definition hentry
    obtain ⟨-, hmem⟩ := notes_entries hread hentry
    rcases List.mem_cons.mp hmem with rfl | hmem
    · simp
    · obtain rfl := List.mem_singleton.mp hmem
      simp only [List.forall_mem_cons, List.not_mem_nil, false_implies, implies_true, and_true]
      refine ⟨?_, fun text htext => (by cases htext), fun text htext => (by cases htext)⟩
      rintro text ⟨⟩
      decide +kernel
  exact ⟨notes_writable, hdescriptions, (composed_sources_accepted notes_writable hdescriptions).2⟩

end Package

end ModelMint
