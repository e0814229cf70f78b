import ModelMint.Proofs.Emit.NullFree
import ModelMint.Proofs.Emit.Written

/-!
# Types of fields

A type name of a schema passes through as it is, so it can be a whole type expression.
Where it stands for one, and where references lead to plain names, the module of a
definition is written, whatever else is in its properties.
-/

namespace ModelMint

open ModelMint.Schema
open ModelMint.Source (Expr)

/-! ## Type expressions -/

namespace Emit

/-- An expression that can stand wherever a module has a type. -/
structure StandsFor (text : String) (expr : Expr) : Prop where
  chars : Source.Piece.charsOf expr.pieces = text.toList
  sound : expr.Sound
  single : expr.isMember = false
  fits : expr.fits 1 = true

/-- A type text that is one expression, in code and in comments alike. -/
structure TypeExpression (text : String) : Prop where
  bare : Text.Bare text.toList
  stands : ∃ expr, StandsFor text expr

open Classical in
/-- The expression that a type text stands for. -/
noncomputable def typeOf (text : String) : Expr :=
  if h : ∃ expr, StandsFor text expr then h.choose else .name []

section Types

variable {name text : String}

theorem TypeExpression.standsFor (h : TypeExpression text) : StandsFor text (typeOf text) := by
  rw [typeOf, dif_pos h.stands]
  exact h.stands.choose_spec

theorem TypeExpression.isTypeText (h : TypeExpression text) : IsTypeText typeOf text where
  chars := h.standsFor.chars
  sound := h.standsFor.sound
  single := h.standsFor.single
  bare := h.bare

theorem typeExpression_name (h : Plain name) : TypeExpression name where
  bare := Text.bare_of_isPlainName h
  stands := ⟨nameOf name, charsOf_nameOf name, h, rfl, rfl⟩

theorem TypeExpression.orNone (h : TypeExpression text) : TypeExpression (text ++ " | None") where
  bare := by
    rw [String.toList_append]
    exact h.bare.append (Text.bare_of_all (by decide))
  stands := by
    obtain ⟨expr, hexpr⟩ := h.stands
    refine ⟨.union expr (.constant "None".toList), ?_, ?_, rfl, ?_⟩
    · simp [Expr.pieces, Source.Piece.chars, hexpr.chars]
    · exact ⟨hexpr.sound, hexpr.single, by change "None".toList ∈ Expr.constants; decide, rfl, rfl⟩
    · simpa [Expr.fits] using hexpr.fits

theorem typeExpression_list (h : Plain name) : TypeExpression ("list[" ++ name ++ "]") where
  bare := by
    simp only [String.toList_append]
    exact ((Text.bare_of_all (by decide)).append (Text.bare_of_isPlainName h)).append
      (Text.bare_of_all (by decide))
  stands := by
    refine ⟨.item (nameOf "list") [nameOf name], ?_, ?_, rfl, rfl⟩
    · simp [Expr.pieces, Expr.row, Expr.rowRest, Source.Piece.chars, charsOf_nameOf]
    · have hlist : Plain "list" := by decide
      exact ⟨hlist, rfl, ⟨h, trivial⟩, rfl, by simp⟩

theorem typeExpression_moment : TypeExpression ("str | " ++ TypeName.moment) where
  bare := Text.bare_of_all (by decide)
  stands := by
    refine ⟨.union (nameOf "str") (nameOf "datetime"), ?_, ?_, rfl, rfl⟩
    · simp [Expr.pieces, Source.Piece.chars, charsOf_nameOf, TypeName.moment]
    · have hstr : Plain "str" := by decide
      have hmoment : Plain "datetime" := by decide
      exact ⟨hstr, rfl, hmoment, rfl, rfl⟩

end Types

end Emit

/-! ## Plans -/

namespace Blueprint

open Emit (Plain TypeExpression typeExpression_name typeExpression_list Unbroken)

variable {document : Document} {root width : Json} {required : List String} {property : Property}
  {field : Field} {member : Member} {definition : Definition} {plan : Plan}

theorem plain_ofSchema {name : String} (h : Plain name) : Plain (TypeName.ofSchema name) := by
  unfold TypeName.ofSchema
  split <;> first | decide | exact h

theorem typeExpression_ofSchema {name : String} (h : TypeExpression name) :
    TypeExpression (TypeName.ofSchema name) := by
  unfold TypeName.ofSchema
  split <;> first | exact h | exact typeExpression_name (by decide)

/-- A type that is an expression, and a reference that leads to a plain name. -/
structure HasTypes (root : Json) (property : Property) : Prop where
  type : ∀ name ∈ property.type, TypeExpression name
  reference : ∀ resolved, resolveProperty root property = .ok resolved → Plain resolved.name

theorem HasTypes.storage (h : HasTypes root property) {storage : Option String}
    (hstorage : storageType root property = .ok storage) :
    ∀ text ∈ storage, TypeExpression text := by
  unfold storageType at hstorage
  split at hstorage
  · cases hstorage
    rintro text ⟨⟩
    exact typeExpression_name (by decide)
  · split at hstorage
    next name hname =>
      cases hstorage
      rintro text ⟨⟩
      exact typeExpression_ofSchema (h.type name hname)
    · unfold referencedType at hstorage
      split at hstorage
      · obtain ⟨resolved, hresolved, rfl⟩ := map_eq_ok.mp hstorage
        rintro text ⟨⟩
        exact typeExpression_name (plain_ofSchema (h.reference resolved hresolved))
      · cases hstorage
        simp

theorem HasTypes.element (h : HasTypes root property) {wanted : Bool} {element : Option String}
    (helement : elementTypeIf wanted root property = .ok element) :
    ∀ text ∈ element, Plain text := by
  cases wanted with
  | false =>
      cases helement
      simp
  | true =>
      simp only [elementTypeIf, if_true, elementType] at helement
      split at helement
      · cases helement
        rintro text ⟨⟩
        decide
      · unfold referencedType at helement
        split at helement
        · obtain ⟨resolved, hresolved, rfl⟩ := map_eq_ok.mp helement
          rintro text ⟨⟩
          exact plain_ofSchema (h.reference resolved hresolved)
        · cases helement
          simp

theorem HasTypes.documented (h : HasTypes root property)
    (hplanned : FieldPlanned root required property field) :
    ∀ text ∈ field.documented, Text.Bare text.toList := by
  obtain ⟨element, helement, hdocumented⟩ := hplanned.documented
  rw [hdocumented]
  unfold documentedType
  split
  · simp
  · split
    · rintro text ⟨⟩
      have hname : Text.Bare (element.getD "None").toList := by
        cases helements : element with
        | none => exact Text.bare_of_all (by decide)
        | some name => exact Text.bare_of_isPlainName (h.element helement name helements)
      simp only [String.toList_append]
      exact ((Text.bare_of_all (by decide)).append hname).append (Text.bare_of_all (by decide))
    · exact fun text htext => (h.storage hplanned.storage text htext).bare

theorem unbroken_describe {description : Option String} {lines : List String}
    (h : describe width description = .ok lines) : ∀ line ∈ lines, Unbroken line.toList := by
  cases description with
  | none =>
      cases h
      simp
  | some text =>
      obtain ⟨limit, rfl⟩ := wrapText_eq_ok h
      rw [List.forall_mem_map]
      intro line hline
      have hinner := Text.forall_mem_wrapLines (by decide) limit
        (Text.not_isLineBreak_of_mem_splitLines text.toList) line hline
      rw [String.toList_ofList]
      exact ⟨fun hmem => Bool.noConfusion (hinner _ hmem), fun hmem => Bool.noConfusion (hinner _ hmem)⟩

/-! ## The texts of a field -/

theorem HasTypes.storageText (h : HasTypes root property)
    (hplanned : FieldPlanned root required property field) :
    ∀ text ∈ Emit.storageText field, TypeExpression text := by
  unfold Emit.storageText
  intro text htext
  obtain ⟨storage, hstorage, rfl⟩ := Option.map_eq_some_iff.mp htext
  split
  next element helement =>
    obtain ⟨hlist, resolved, hresolved, rfl⟩ := hplanned.element element helement
    obtain rfl : storage = TypeName.list := Option.some.inj (hstorage.symm.trans hlist)
    exact typeExpression_list (plain_ofSchema (h.reference resolved hresolved))
  · exact h.storage hplanned.storage storage hstorage

theorem HasTypes.annotationOf (h : HasTypes root property)
    (hplanned : FieldPlanned root required property field) :
    TypeExpression (Emit.annotationOf field) := by
  unfold Emit.annotationOf
  split
  · exact typeExpression_name (by decide)
  next text htext =>
    have htype := h.storageText hplanned text htext
    split
    · exact htype.orNone
    · exact htype

theorem HasTypes.parameterTypeOf (h : HasTypes root property)
    (hplanned : FieldPlanned root required property field) :
    TypeExpression (Emit.parameterTypeOf field) := by
  unfold Emit.parameterTypeOf
  split
  · exact Emit.typeExpression_moment
  · cases htext : Emit.storageText field with
    | none => exact typeExpression_name (by decide)
    | some text => exact h.storageText hplanned text htext

theorem HasTypes.isFieldWritten (h : HasTypes root property)
    (hfield : Field.ofProperty root width required property = .ok field) :
    Emit.IsFieldWritten Emit.typeOf field := by
  have hplanned := Field.ofProperty_eq_ok hfield
  exact {
    attr := by
      rw [hplanned.attr, String.toList_ofList]
      exact Text.isWord_attributeName _
    plain := by
      rw [hplanned.attr, Plain, String.toList_ofList]
      exact Text.isPlainName_attributeName _
    annotation := (h.annotationOf hplanned).isTypeText
    parameterType := (h.parameterTypeOf hplanned).isTypeText
    documented := h.documented hplanned
    description := unbroken_describe (Field.description_eq_ok hfield)
  }

/-! ## The names of a member -/

theorem HasTypes.rules (h : HasTypes root property) {rules : List Rule}
    (hrules : rulesOf root property = .ok rules) {className : String}
    (hrule : Rule.elements className ∈ rules) : Plain className := by
  obtain ⟨storage, elements, -, helements, rfl⟩ := rulesOf_eq_ok hrules
  rcases List.mem_append.mp hrule with hmem | hmem
  · rcases elementRules_eq_ok helements with rfl | ⟨-, -, resolved, hresolved, rfl⟩
    · cases hmem
    · rw [List.mem_singleton, Rule.elements.injEq] at hmem
      rw [hmem]
      exact plain_ofSchema (h.reference resolved hresolved)
  · exact absurd hmem not_elements_mem_otherRules

theorem plain_constantsOf {name : String} {values : List Json} :
    ∀ constant ∈ constantsOf name values, Plain constant.name := by
  rw [constantsOf, List.forall_mem_map]
  exact fun value _ => Constant.isPlainName_ofValue name value

theorem HasTypes.isMemberWritten (h : HasTypes document.raw property)
    (hmember : Member.ofProperty document width required property = .ok member) :
    Emit.IsMemberWritten Emit.typeOf member := by
  have hplanned := Member.ofProperty_eq_ok hmember
  refine ⟨h.isFieldWritten (Member.field_eq_ok hmember),
    fun className hrule => h.rules hplanned.rules hrule, ?_, fun name hname => ?_⟩
  · rw [hplanned.constants]
    cases property.enum with
    | none => simp
    | some values => exact plain_constantsOf
  · have htarget := hplanned.target
    rw [Option.mem_def.mp hname] at htarget
    rcases targetOf_eq_ok htarget with ⟨-, hnone⟩ | ⟨-, resolved, hresolved, -, hsome⟩
    · cases hnone
    · obtain rfl := Option.some.inj hsome
      exact h.reference resolved hresolved

theorem Planned.typeExpressions (hplanned : Planned document width definition plan)
    (h : ∀ entry ∈ definition.properties, ∀ member,
      Member.ofProperty document width definition.required entry.2 = .ok member →
        HasTypes document.raw entry.2) :
    ∀ field ∈ plan.fields,
      TypeExpression (Emit.annotationOf field) ∧ TypeExpression (Emit.parameterTypeOf field) := by
  intro field hfield
  obtain ⟨member, hmember, rfl⟩ := List.mem_map.mp hfield
  obtain ⟨entry, hentry, hmade⟩ := exists_left_of_mem hplanned.members hmember
  have htypes := h entry hentry member hmade
  have hplannedField := (Member.ofProperty_eq_ok hmade).field
  exact ⟨htypes.annotationOf hplannedField, htypes.parameterTypeOf hplannedField⟩

/-- Only what becomes a member needs types. -/
theorem isPlanWritten (hplan : Plan.ofDefinition document width definition = .ok plan)
    (h : ∀ entry ∈ definition.properties, ∀ member,
      Member.ofProperty document width definition.required entry.2 = .ok member →
        HasTypes document.raw entry.2) :
    Emit.IsPlanWritten Emit.typeOf plan := by
  have hplanned := Plan.ofDefinition_eq_ok hplan
  refine ⟨?_, unbroken_describe hplanned.description, fun member hmember => ?_⟩
  · rw [hplanned.name]
    exact hplanned.plain
  · obtain ⟨entry, hentry, hmade⟩ := exists_left_of_mem hplanned.members hmember
    exact (h entry hentry member hmade).isMemberWritten hmade

end Blueprint

end ModelMint
