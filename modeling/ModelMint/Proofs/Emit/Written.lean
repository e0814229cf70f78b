import ModelMint.Proofs.Blueprint.Planning
import ModelMint.Proofs.Emit.Composing
import ModelMint.Proofs.Emit.Readable
import ModelMint.Proofs.Text.NullFree
import ModelMint.Proofs.Text.Wrapped

/-!
# Written modules of plans

What a plan has to be like for its module to be written: types that stand for
expressions, and plain names of other classes.  The names of its own members are plain
whatever the properties are called, and the lines of descriptions are lines.
-/

namespace ModelMint

open ModelMint.Blueprint
open ModelMint.Emit (Plain Unbroken)

/-! ## Bare texts -/

namespace Text

/-- What ends or changes a text within quotes, a line or a source. -/
def marks : List Char := ['"', '\\', '\n', '\r', '\x00']

/-- A text without quotes, backslashes, line ends and null characters. -/
def Bare (text : List Char) : Prop := ∀ c ∈ text, c ∉ marks

theorem Bare.append {text more : List Char} (h : Bare text) (hmore : Bare more) :
    Bare (text ++ more) := List.forall_mem_append.mpr ⟨h, hmore⟩

theorem bare_of_all {text : List Char}
    (h : text.all (!marks.contains ·) = true) : Bare text := by
  intro c hc
  simpa using List.all_eq_true.mp h c hc

theorem Bare.unbroken {text : List Char} (h : Bare text) : Unbroken text :=
  ⟨fun hmem => h _ hmem (by simp [marks]), fun hmem => h _ hmem (by simp [marks])⟩

theorem Bare.nullFree {text : List Char} (h : Bare text) : NullFree text :=
  fun hmem => h _ hmem (by simp [marks])

theorem Bare.holdsLine {text : List Char} (h : Bare text) : Source.HoldsLine text := by
  refine .plain fun c hc hmem => h c hc ?_
  simp only [marks, List.mem_cons, List.not_mem_nil, or_false] at hmem ⊢
  tauto

theorem bare_of_isIdentifier {word : List Char} (h : isIdentifier word = true) : Bare word := by
  obtain ⟨first, rest, rfl, -, hchars⟩ := Source.exists_of_isIdentifier h
  intro c hc hmem
  have hall : marks.all (!Source.isWordChar ·) = true := by decide
  have hword := List.all_eq_true.mp hall c hmem
  rw [hchars c hc] at hword
  cases hword

theorem bare_of_isPlainName {word : List Char} (h : isPlainName word = true) : Bare word :=
  bare_of_isIdentifier (Bool.and_eq_true_iff.mp h).1

end Text

/-! ## Names of the base -/

/-- Base names of the required form: a path of names for the module, and names for the rest. -/
structure BaseNames.IsPlain (names : BaseNames) : Prop where
  module : ∀ part ∈ Text.parts '.' (Emit.plainText names.module).toList,
    Text.isPlainName part = true
  className : Plain (Emit.plainText names.className)
  operations : ∀ operation ∈ [names.checkElements, names.checkLength, names.checkInteger,
    names.checkFloat, names.checkOneOf, names.parseMoment, names.exportElements],
    Plain (Emit.plainText operation)

theorem BaseNames.IsPlain.boundsCheck {names : BaseNames} (h : names.IsPlain) {measure : Measure}
    {operation : Json} (hcheck : names.boundsCheck measure = .ok operation) :
    Plain (Emit.plainText operation) := by
  unfold BaseNames.boundsCheck at hcheck
  split at hcheck
  · cases hcheck
  · cases hcheck
    cases measure <;> exact h.operations _ (by simp)

end ModelMint

namespace ModelMint.Emit

open ModelMint.Blueprint
open ModelMint.Source (Expr)

section Typed

-- what a type text stands for
variable (typed : String → Expr)

/-- A type that can be written into code, into a comment and into the documentation. -/
structure IsTypeText (text : String) : Prop extends IsType typed text where
  bare : Text.Bare text.toList

/-! ## Plans -/

structure IsFieldWritten (field : Field) : Prop where
  attr : Text.IsWord field.attr.toList
  plain : Plain field.attr
  annotation : IsTypeText typed (annotationOf field)
  parameterType : IsTypeText typed (parameterTypeOf field)
  documented : ∀ text ∈ field.documented, Text.Bare text.toList
  description : ∀ line ∈ field.description, Unbroken line.toList

structure IsMemberWritten (member : Blueprint.Member) : Prop where
  field : IsFieldWritten typed member.field
  rules : ∀ className, Rule.elements className ∈ member.rules → Plain className
  constants : ∀ constant ∈ member.constants, Plain constant.name
  target : ∀ name ∈ member.target, Plain name

structure IsPlanWritten (plan : Plan) : Prop where
  name : Plain plan.name
  description : ∀ line ∈ plan.description, Unbroken line.toList
  members : ∀ member ∈ plan.members, IsMemberWritten typed member

end Typed

/-! ## The module of a plan -/

section Plans

variable {typed : String → Expr} {names : BaseNames} {plan : Plan} {field : Field}
  {member : Blueprint.Member}

theorem IsFieldWritten.holdsLine_accessorLines {className : String} (hclass : Plain className)
    (h : IsFieldWritten typed field) :
    ∀ line ∈ accessorLines className field, Source.HoldsLine line.toList := by
  have hattr := Text.bare_of_isPlainName h.plain
  have hname := Text.bare_of_isPlainName hclass
  have htype := h.annotation.bare
  have hparameter := h.parameterType.bare
  unfold accessorLines Blueprint.getter Blueprint.setter
  rw [List.forall_mem_cons, List.forall_mem_singleton]
  simp only [String.toList_append]
  refine ⟨Text.Bare.holdsLine ?_, Text.Bare.holdsLine ?_⟩
  · exact (((Text.bare_of_all (by decide)).append ((Text.bare_of_all (by decide)).append hattr)).append
      (Text.bare_of_all (by decide))).append htype
  · exact (((((((Text.bare_of_all (by decide)).append
      ((Text.bare_of_all (by decide)).append hattr)).append (Text.bare_of_all (by decide))).append
        hattr).append (Text.bare_of_all (by decide))).append hparameter).append
          (Text.bare_of_all (by decide))).append hname

theorem IsPlanWritten.holdsLine_documentationOf (h : IsPlanWritten typed plan) :
    ∀ line ∈ documentationOf plan, Source.HoldsLine line.toList := by
  have hbare : ∀ {text : String}, text.toList.all (!Text.marks.contains ·) = true →
      Source.HoldsLine text.toList := fun htext => (Text.bare_of_all htext).holdsLine
  unfold documentationOf
  simp only [List.forall_mem_append, List.forall_mem_cons, List.forall_mem_map,
    List.forall_mem_flatMap]
  refine ⟨⟨fun line hline => Source.holdsLine_escapeLine (h.description line hline).2, ?_⟩,
    hbare (by decide), fun field hfield => ?_⟩
  · split
    · simp
    · rw [List.forall_mem_singleton]
      exact hbare (by decide)
  · obtain ⟨member, hmember, rfl⟩ := List.mem_map.mp hfield
    exact (h.members member hmember).field.holdsLine_accessorLines h.name

theorem IsPlanWritten.references (h : IsPlanWritten typed plan) :
    ∀ name ∈ plan.references, Plain name := by
  intro name hname
  obtain ⟨-, member, hmember, htarget⟩ := mem_references.mp hname
  exact (h.members member hmember).target name htarget

theorem isWritten_fieldCode (hnames : names.IsPlain) (h : IsFieldWritten typed field) :
    (fieldCode names field).IsWritten typed where
  attr := h.plain
  getter := by
    rw [Plain, String.toList_append]
    exact h.attr.isPlainName_prefixed ⟨by simp; decide, 'g', rfl, by decide⟩ (by decide)
  annotation := h.annotation.toIsType
  comment := by
    unfold fieldCode
    rw [List.forall_mem_append]
    refine ⟨h.description, fun line hline => ?_⟩
    obtain ⟨type, htype, rfl⟩ := Option.map_eq_some_iff.mp (Option.mem_toList.mp hline)
    rw [String.toList_append]
    exact ((Text.bare_of_all (by decide)).append (h.documented type htype)).unbroken
  parsed := by
    intro operation value hstart
    rw [eq_parseMoment_of_start hstart]
    exact hnames.operations _ (by simp)
  exported := by
    intro operation hexported
    rw [eq_exportElements_of_exported hexported]
    exact hnames.operations _ (by simp)

/-- The name under which a setter knows a class is another one only if it is the attribute's. -/
theorem plain_localName {className attr : String} (hclass : Plain className)
    (hattr : Text.IsWord attr.toList) :
    Plain (ClassModule.localName className (className == attr)) := by
  unfold ClassModule.localName
  split
  next hsame =>
    rw [beq_iff_eq.mp hsame, Plain, String.toList_append]
    exact hattr.isPlainName_prefixed ⟨by simp; decide, '_', rfl, by decide⟩ (by decide)
  · exact hclass

theorem isWritten_statementOf (hnames : names.IsPlain) (hfield : IsFieldWritten typed field)
    {rule : Rule} (hrule : ∀ className, rule = .elements className → Plain className)
    {statement : Statement} (h : statementOf names field rule = .ok statement) :
    statement.IsWritten := by
  cases rule with
  | elements className =>
      cases h
      have hclass := hrule className rfl
      exact ⟨hnames.operations _ (by simp), hclass, plain_localName hclass hfield.attr⟩
  | within measure minimum maximum =>
      obtain ⟨operation, hoperation, h⟩ := bind_eq_ok.mp h
      cases h
      exact hnames.boundsCheck hoperation
  | moment =>
      cases h
      exact hnames.operations _ (by simp)
  | oneOf values =>
      cases h
      exact hnames.operations _ (by simp)

theorem isWritten_setterCode (hnames : names.IsPlain) (hmember : IsMemberWritten typed member)
    {code : SetterCode} (h : code.Sets names member) : code.IsWritten typed := by
  have htype := hmember.field.parameterType.toIsType
  rw [← h.parameterType] at htype
  refine ⟨h.attr ▸ hmember.field.plain, ?_, htype, fun statement hmem => ?_⟩
  · simp only [h.attr, Plain, String.toList_append]
    exact hmember.field.attr.isPlainName_prefixed ⟨by simp; decide, 's', rfl, by decide⟩ (by decide)
  · obtain ⟨rule, hrule, hmade⟩ := exists_left_of_mem h.statements hmem
    exact isWritten_statementOf hnames hmember.field
      (fun className hclass => hmember.rules className (hclass ▸ hrule)) hmade

theorem isWritten_ofPlan (hnames : names.IsPlain) {heading : List String}
    (hheading : ∀ line ∈ heading, Unbroken line.toList) (hplan : IsPlanWritten typed plan)
    {module : ClassModule} (h : ClassModule.ofPlan names heading plan = .ok module) :
    module.IsWritten typed := by
  have hmade := ClassModule.ofPlan_eq_ok h
  exact {
    heading := hmade.heading ▸ hheading
    references := hmade.references ▸ hplan.references
    baseModule := hmade.baseModule ▸ hnames.module
    baseClass := hmade.baseClass ▸ hnames.className
    name := hmade.name ▸ hplan.name
    documentation := hmade.documentation ▸ hplan.holdsLine_documentationOf
    constants := by
      intro constant hconstant
      obtain ⟨member, hmember, hconstant⟩ := hmade.exists_constant hconstant
      exact (hplan.members member hmember).constants constant hconstant
    fields := by
      intro code hcode
      obtain ⟨member, hmember, rfl⟩ := hmade.exists_field hcode
      exact isWritten_fieldCode hnames (hplan.members member hmember).field
    setters := by
      intro code hcode
      obtain ⟨member, hmember, hsets⟩ := hmade.exists_member hcode
      exact isWritten_setterCode hnames (hplan.members member hmember) hsets
  }

end Plans

end ModelMint.Emit
