import ModelMint.Emit.Text
import ModelMint.Proofs.Blueprint.NullFree
import ModelMint.Proofs.Emit.Composing
import ModelMint.Source.Validity

/-!
# Modules without null characters

A plan without null characters, over base names and under a heading without any, has a
module whose text has none.  So the text is judged, which is no fault.
-/

namespace ModelMint

/-- None of the names that the settings give to the base holds a null character. -/
def BaseNames.NullFree (names : BaseNames) : Prop := ∀ entry ∈ names.entries, entry.2.NullFree

end ModelMint

namespace ModelMint.Emit

open ModelMint.Blueprint

@[simp] theorem nullFree_literalText (value : Json) :
    Text.NullFree (literalText value).toList := by
  rw [literalText, String.toList_ofList]
  exact nullFree_literal value

theorem nullFree_plainText {value : Json} (h : value.NullFree) :
    Text.NullFree (plainText value).toList := by
  rw [plainText, String.toList_ofList]
  exact nullFree_plain h

def LinesNullFree (lines : List String) : Prop := ∀ line ∈ lines, Text.NullFree line.toList

section Lines

variable {line : String} {lines others : List String}

@[simp] theorem linesNullFree_nil : LinesNullFree [] := by simp [LinesNullFree]

@[simp] theorem linesNullFree_cons :
    LinesNullFree (line :: lines) ↔ Text.NullFree line.toList ∧ LinesNullFree lines := by
  simp [LinesNullFree]

@[simp] theorem linesNullFree_append :
    LinesNullFree (lines ++ others) ↔ LinesNullFree lines ∧ LinesNullFree others := by
  simp only [LinesNullFree, List.forall_mem_append]

theorem linesNullFree_map {α : Type} {items : List α} {f : α → String} :
    LinesNullFree (items.map f) ↔ ∀ item ∈ items, Text.NullFree (f item).toList := by
  simp [LinesNullFree]

theorem linesNullFree_flatMap {α : Type} {items : List α} {f : α → List String} :
    LinesNullFree (items.flatMap f) ↔ ∀ item ∈ items, LinesNullFree (f item) := by
  simp only [LinesNullFree, List.forall_mem_flatMap]

theorem nullFree_unlines : Text.NullFree (unlines lines).toList ↔ LinesNullFree lines := by
  rw [toList_unlines, Text.nullFree_flatMap]
  simp [LinesNullFree]

end Lines

/-! ## Parts of a module -/

def Statement.NullFree : Statement → Prop
  | .elements operation className _ =>
    Text.NullFree operation.toList ∧ Text.NullFree className.toList
  | .within operation _ _ | .moment operation | .oneOf operation _ =>
    Text.NullFree operation.toList

structure SetterCode.NullFree (setter : SetterCode) : Prop where
  attr : Text.NullFree setter.attr.toList
  parameterType : Text.NullFree setter.parameterType.toList
  statements : ∀ statement ∈ setter.statements, statement.NullFree

structure FieldCode.NullFree (field : FieldCode) : Prop where
  attr : Text.NullFree field.attr.toList
  annotation : Text.NullFree field.annotation.toList
  comment : LinesNullFree field.comment
  parsed : ∀ operation value, field.start = some (.parsed operation value) →
    Text.NullFree operation.toList
  exported : ∀ operation ∈ field.exported, Text.NullFree operation.toList

/-- A module of which no text that is written outside of quotes holds a null character. -/
structure ClassModule.NullFree (module : ClassModule) : Prop where
  heading : LinesNullFree module.heading
  references : LinesNullFree module.references
  baseModule : Text.NullFree module.baseModule.toList
  baseClass : Text.NullFree module.baseClass.toList
  name : Text.NullFree module.name.toList
  documentation : LinesNullFree module.documentation
  constants : ∀ constant ∈ module.constants, Text.NullFree constant.name.toList
  fields : ∀ field ∈ module.fields, field.NullFree
  setters : ∀ setter ∈ module.setters, setter.NullFree

/-! ## Lines of a module -/

theorem linesNullFree_headingLines {heading : List String} (h : LinesNullFree heading) :
    LinesNullFree (headingLines heading) := by
  unfold headingLines
  split
  · simp
  · rw [linesNullFree_append, linesNullFree_map]
    exact ⟨fun line hline => by simpa using h line hline, by simp⟩

theorem nullFree_importLine {name : String} (h : Text.NullFree name.toList) :
    Text.NullFree (importLine name).toList := by
  simp [importLine, h]

namespace ClassModule

variable {module : ClassModule}

theorem linesNullFree_importLines (h : module.NullFree) : LinesNullFree module.importLines := by
  have hreferences : LinesNullFree (module.references.map (indent ∘ importLine)) := by
    rw [linesNullFree_map]
    intro name hname
    simp [indent, nullFree_importLine (h.references name hname)]
  unfold importLines
  cases module.references.isEmpty <;> cases module.usesMoment <;>
    simp [h.baseModule, h.baseClass, hreferences]

theorem linesNullFree_documentationLines (h : module.NullFree) :
    LinesNullFree module.documentationLines := by
  unfold documentationLines
  rw [linesNullFree_append, linesNullFree_append, linesNullFree_map]
  refine ⟨⟨by simp, fun line hline => ?_⟩, by simp⟩
  split
  · simp
  · simp [indent, h.documentation line hline]

theorem linesNullFree_constantLines (h : module.NullFree) :
    LinesNullFree module.constantLines := by
  unfold constantLines
  split
  · simp
  · rw [linesNullFree_cons, linesNullFree_map]
    refine ⟨by simp, fun constant hconstant => ?_⟩
    simp [constantLine, indent, h.constants constant hconstant]

theorem linesNullFree_nameTableLines : LinesNullFree module.nameTableLines := by
  unfold nameTableLines
  simp only
  split
  · simp
  · rw [linesNullFree_append, linesNullFree_append, linesNullFree_map]
    refine ⟨⟨by simp, fun field _ => ?_⟩, by simp⟩
    simp

theorem linesNullFree_fieldLines {field : FieldCode} (h : field.NullFree) :
    LinesNullFree (fieldLines field) := by
  unfold fieldLines
  rw [linesNullFree_append, linesNullFree_append, linesNullFree_map]
  refine ⟨⟨by simp, fun line hline => ?_⟩, ?_⟩
  · simpa using h.comment line hline
  · simp [indent, h.attr, h.annotation]

theorem linesNullFree_initLines (h : module.NullFree) : LinesNullFree module.initLines := by
  unfold initLines
  rw [linesNullFree_append, linesNullFree_append]
  refine ⟨⟨by simp, fun line hline => ?_⟩, by simp⟩
  obtain ⟨field, hfield, hline⟩ := List.mem_filterMap.mp hline
  obtain ⟨start, hstart, rfl⟩ := Option.map_eq_some_iff.mp hline
  have hplain := h.fields field hfield
  cases start with
  | literal value => simp [startText, hplain.attr]
  | parsed operation value => simp [startText, hplain.attr, hplain.parsed operation value hstart]

theorem nullFree_localName {className : String} (h : Text.NullFree className.toList)
    (renamed : Bool) : Text.NullFree (localName className renamed).toList := by
  cases renamed <;> simp [localName, h]

theorem linesNullFree_statementLines {attr : String} (hattr : Text.NullFree attr.toList)
    {statement : Statement} (h : statement.NullFree) :
    LinesNullFree (statementLines attr statement) := by
  cases statement with
  | elements operation className renamed =>
      obtain ⟨hoperation, hclass⟩ := h
      simp [statementLines, hattr, hoperation, nullFree_localName hclass]
  | within operation minimum maximum =>
      have hoperation : Text.NullFree operation.toList := h
      simp [statementLines, hattr, hoperation]
  | moment operation =>
      have hoperation : Text.NullFree operation.toList := h
      simp [statementLines, hattr, hoperation]
  | oneOf operation values =>
      have hoperation : Text.NullFree operation.toList := h
      simp [statementLines, hattr, hoperation, linesNullFree_map, indent]

theorem nullFree_setterImport {statement : Statement} (h : statement.NullFree) :
    ∀ line ∈ setterImport? statement, Text.NullFree line.toList := by
  cases statement with
  | elements operation className renamed =>
      rintro line ⟨⟩
      cases renamed <;> simp [nullFree_importLine h.2, nullFree_localName h.2]
  | _ => simp [setterImport?]

theorem linesNullFree_setterLines {className : String} (hclass : Text.NullFree className.toList)
    {setter : SetterCode} (h : setter.NullFree) :
    LinesNullFree (setterLines className setter) := by
  have himports : LinesNullFree
      ((setter.statements.filterMap setterImport?).map ("        " ++ ·)) := by
    rw [linesNullFree_map]
    intro line hline
    obtain ⟨statement, hstatement, hline⟩ := List.mem_filterMap.mp hline
    simpa using nullFree_setterImport (h.statements statement hstatement) line hline
  have hstatements : LinesNullFree
      ((setter.statements.flatMap (statementLines setter.attr)).map ("        " ++ ·)) := by
    rw [linesNullFree_map]
    intro line hline
    obtain ⟨statement, hstatement, hline⟩ := List.mem_flatMap.mp hline
    simpa using linesNullFree_statementLines h.attr (h.statements statement hstatement) line hline
  unfold setterLines
  simp only [linesNullFree_append, himports, hstatements]
  refine ⟨⟨⟨⟨?_, trivial⟩, ?_⟩, trivial⟩, ?_⟩
  · simp [h.attr, h.parameterType, hclass]
  · split <;> simp
  · simp [h.attr]

theorem nullFree_exportText {field : FieldCode} (h : field.NullFree) :
    Text.NullFree (exportText field).toList := by
  unfold exportText
  simp only
  split
  next operation hexported => simp [h.attr, h.exported operation hexported]
  · simp [h.attr]

theorem linesNullFree_exportLines (h : module.NullFree) : LinesNullFree module.exportLines := by
  unfold exportLines
  simp only
  rw [linesNullFree_append]
  refine ⟨by simp, ?_⟩
  split
  · simp
  · rw [linesNullFree_append, linesNullFree_append, linesNullFree_map]
    refine ⟨⟨by simp, fun field hfield => ?_⟩, by simp⟩
    simp [nullFree_exportText (h.fields field hfield)]

theorem linesNullFree_classLines (h : module.NullFree) : LinesNullFree module.classLines := by
  have hfields : LinesNullFree (module.fields.flatMap fieldLines) := by
    rw [linesNullFree_flatMap]
    exact fun field hfield => linesNullFree_fieldLines (h.fields field hfield)
  have hsetters : LinesNullFree (module.setters.flatMap (setterLines module.name)) := by
    rw [linesNullFree_flatMap]
    exact fun setter hsetter => linesNullFree_setterLines h.name (h.setters setter hsetter)
  simp [classLines, h.name, h.baseClass, linesNullFree_documentationLines h,
    linesNullFree_constantLines h, linesNullFree_nameTableLines, hfields,
    linesNullFree_initLines h, hsetters, linesNullFree_exportLines h]

theorem nullFree_text (h : module.NullFree) : Text.NullFree module.text.toList := by
  rw [text, nullFree_unlines]
  simp [linesNullFree_headingLines h.heading, linesNullFree_importLines h,
    linesNullFree_classLines h]

end ClassModule

/-! ## The module of a plan -/

section Plans

variable {names : BaseNames} {plan : Plan} {field : Field} {member : Blueprint.Member}

theorem nullFree_storageText (h : field.NullFree) :
    ∀ text ∈ storageText field, Text.NullFree text.toList := by
  unfold storageText
  cases hstorage : field.storage with
  | none => simp
  | some storage =>
      have hplain := h.storage storage hstorage
      rintro text ⟨⟩
      split
      next element helement => simp [hplain, h.element element helement]
      · exact hplain

theorem nullFree_annotationOf (h : field.NullFree) : Text.NullFree (annotationOf field).toList := by
  unfold annotationOf
  split
  · simp
  next text htext =>
    have hplain := nullFree_storageText h text htext
    split
    · simp [hplain]
    · exact hplain

theorem nullFree_parameterTypeOf (h : field.NullFree) :
    Text.NullFree (parameterTypeOf field).toList := by
  unfold parameterTypeOf
  split
  · simp [TypeName.moment]
  · cases htext : storageText field with
    | none => simp
    | some text => exact nullFree_storageText h text htext

theorem nullFree_escapeQuotes {line : List Char} (h : Text.NullFree line) :
    Text.NullFree (escapeQuotes line) := by
  fun_induction escapeQuotes line with
  | case1 rest ih => simpa using ih (by simpa using h)
  | case2 c rest _ ih =>
      obtain ⟨hc, hrest⟩ := Text.nullFree_cons.mp h
      exact Text.nullFree_cons.mpr ⟨hc, ih hrest⟩
  | case3 => exact h

theorem nullFree_escapeLine {line : String} (h : Text.NullFree line.toList) :
    Text.NullFree (escapeLine line).toList := by
  rw [escapeLine, String.toList_ofList]
  apply nullFree_escapeQuotes
  rw [escapeBackslashes, Text.nullFree_flatMap]
  intro c hc
  have hplain : c ≠ '\x00' := fun hnull => h (hnull ▸ hc)
  split <;> simp [hplain]

theorem linesNullFree_accessorLines {className : String} (hclass : Text.NullFree className.toList)
    (h : field.NullFree) : LinesNullFree (accessorLines className field) := by
  simp [accessorLines, getter, setter, h.attr, hclass, nullFree_annotationOf h,
    nullFree_parameterTypeOf h]

theorem linesNullFree_documentationOf (h : plan.NullFree) :
    LinesNullFree (documentationOf plan) := by
  have hdescription : LinesNullFree (plan.description.map escapeLine) := by
    rw [linesNullFree_map]
    exact fun line hline => nullFree_escapeLine (h.description line hline)
  have haccessors : LinesNullFree (plan.fields.flatMap (accessorLines plan.name)) := by
    rw [linesNullFree_flatMap]
    intro field hfield
    obtain ⟨member, hmember, rfl⟩ := List.mem_map.mp hfield
    exact linesNullFree_accessorLines h.name (h.members member hmember).field
  unfold documentationOf
  simp only [linesNullFree_append, linesNullFree_cons, hdescription, haccessors]
  refine ⟨⟨trivial, ?_⟩, by simp, trivial⟩
  split <;> simp

theorem linesNullFree_references (h : plan.NullFree) : LinesNullFree plan.references := by
  intro name hname
  obtain ⟨-, member, hmember, htarget⟩ := mem_references.mp hname
  exact (h.members member hmember).target name htarget

theorem nullFree_boundsCheck (h : names.NullFree) {measure : Measure} {operation : Json}
    (hcheck : names.boundsCheck measure = .ok operation) : operation.NullFree := by
  unfold BaseNames.boundsCheck at hcheck
  split at hcheck
  · cases hcheck
  · cases hcheck
    cases measure
    · exact h ("check_array_bounds", names.checkLength) (by simp [BaseNames.entries])
    · exact h ("check_integer_bounds", names.checkInteger) (by simp [BaseNames.entries])
    · exact h ("check_float_bounds", names.checkFloat) (by simp [BaseNames.entries])

theorem nullFree_statementOf (hnames : names.NullFree) {rule : Rule}
    (hrule : ∀ className, rule = .elements className → Text.NullFree className.toList)
    {statement : Statement} (h : statementOf names field rule = .ok statement) :
    statement.NullFree := by
  cases rule with
  | elements className =>
      cases h
      exact ⟨nullFree_plainText (hnames ("check_pure_array", _) (by simp [BaseNames.entries])),
        hrule className rfl⟩
  | within measure minimum maximum =>
      obtain ⟨operation, hoperation, h⟩ := bind_eq_ok.mp h
      cases h
      exact nullFree_plainText (nullFree_boundsCheck hnames hoperation)
  | moment =>
      cases h
      exact nullFree_plainText (hnames ("parse_date", _) (by simp [BaseNames.entries]))
  | oneOf values =>
      cases h
      exact nullFree_plainText (hnames ("check_enum", _) (by simp [BaseNames.entries]))

theorem nullFree_setterCode (hnames : names.NullFree) (hmember : member.NullFree)
    {code : SetterCode} (h : code.Sets names member) : code.NullFree := by
  refine ⟨h.attr ▸ hmember.field.attr, h.parameterType ▸ nullFree_parameterTypeOf hmember.field,
    fun statement hstatement => ?_⟩
  obtain ⟨rule, hrule, hmade⟩ := exists_left_of_mem h.statements hstatement
  exact nullFree_statementOf hnames
    (fun className hclass => hmember.rules className (hclass ▸ hrule))
    hmade

theorem nullFree_fieldCode (hnames : names.NullFree) (h : field.NullFree) :
    (fieldCode names field).NullFree where
  attr := h.attr
  annotation := nullFree_annotationOf h
  comment := by
    unfold fieldCode
    rw [linesNullFree_append]
    refine ⟨h.description, fun line hline => ?_⟩
    obtain ⟨type, htype, rfl⟩ := Option.map_eq_some_iff.mp (Option.mem_toList.mp hline)
    simp [h.documented type htype]
  parsed := by
    intro operation value hstart
    rw [eq_parseMoment_of_start hstart]
    exact nullFree_plainText (hnames ("parse_date", _) (by simp [BaseNames.entries]))
  exported := by
    intro operation hexported
    rw [eq_exportElements_of_exported hexported]
    exact nullFree_plainText (hnames ("convert_pure_array", _) (by simp [BaseNames.entries]))

theorem nullFree_ofPlan (hnames : names.NullFree) {heading : List String}
    (hheading : LinesNullFree heading) (hplan : plan.NullFree) {module : ClassModule}
    (h : ClassModule.ofPlan names heading plan = .ok module) : module.NullFree := by
  have hmade := ClassModule.ofPlan_eq_ok h
  exact {
    heading := hmade.heading ▸ hheading
    references := hmade.references ▸ linesNullFree_references hplan
    baseModule := by
      rw [hmade.baseModule]
      exact nullFree_plainText (hnames ("module", _) (by simp [BaseNames.entries]))
    baseClass := by
      rw [hmade.baseClass]
      exact nullFree_plainText (hnames ("class_name", _) (by simp [BaseNames.entries]))
    name := hmade.name ▸ hplan.name
    documentation := hmade.documentation ▸ linesNullFree_documentationOf hplan
    constants := by
      intro constant hconstant
      obtain ⟨member, hmember, hconstant⟩ := hmade.exists_constant hconstant
      exact (hplan.members member hmember).constants constant hconstant
    fields := by
      intro code hcode
      obtain ⟨member, hmember, rfl⟩ := hmade.exists_field hcode
      exact nullFree_fieldCode hnames (hplan.members member hmember).field
    setters := by
      intro code hcode
      obtain ⟨member, hmember, hsets⟩ := hmade.exists_member hcode
      exact nullFree_setterCode hnames (hplan.members member hmember) hsets
  }

end Plans

end ModelMint.Emit
