import ModelMint.Proofs.Blueprint.Reordering
import ModelMint.Proofs.Emit.Untyped
import ModelMint.Proofs.Package.Files
import ModelMint.Proofs.Package.Validity

/-!
# Free type names run nothing

A type name that a class does not know passes through into annotations, comments and the
documentation.  As long as it is an expression, the module does the same as with `object`
in its place, and every field is declared once and given no value.  A name that is more
than an expression can give a field a value.
-/

namespace ModelMint

open ModelMint.Schema
open ModelMint.Blueprint
open ModelMint.Source (Tree)
open ModelMint.Emit (Plain Unbroken)

theorem Source.isValid_of_validate {text : String} (h : Source.validate text = .ok none) :
    Source.isValid text = true := by
  unfold Source.validate at h
  split at h
  · cases h
  · split at h
    next hvalid => exact hvalid
    · cases h

/-! ## Retyped plans -/

namespace Emit

variable {module other : ClassModule}

theorem valuesFit_congr (h : module.untyped = other.untyped) : module.valuesFit = other.valuesFit := by
  have huntyped : ∀ module : ClassModule, module.untyped.valuesFit = module.valuesFit := by
    intro module
    simp [ClassModule.valuesFit, ClassModule.untyped, Function.comp_def, FieldCode.untyped,
      SetterCode.untyped]
  rw [← huntyped module, h, huntyped]

end Emit

namespace Blueprint

variable {document : Document} {root width : Json} {property : Property} {definition : Definition}
  {plan other : Plan} {names : BaseNames} {heading : List String} {module : Emit.ClassModule}

theorem HasTypes.retyped (h : HasTypes root property) : HasTypes root property.retyped where
  type name hname := by
    obtain ⟨other, hother, rfl⟩ := Option.map_eq_some_iff.mp hname
    unfold TypeName.retyped
    split
    · exact h.type other hother
    · exact Emit.typeExpression_name (by decide)
  reference := h.reference

theorem exists_retyped (h : Plan.ofDefinition document width definition = .ok plan) :
    ∃ other, Plan.ofDefinition document width definition.retyped = .ok other ∧
      other.untyped = plan.untyped := by
  have hplans := plan_retyped document width definition
  rw [h] at hplans
  exact map_eq_ok.mp hplans

theorem exists_ofPlan_untyped (h : other.untyped = plan.untyped)
    (hmodule : Emit.ClassModule.ofPlan names heading plan = .ok module) :
    ∃ next, Emit.ClassModule.ofPlan names heading other = .ok next ∧
      next.untyped = module.untyped := by
  have hmodules : (Emit.ClassModule.ofPlan names heading other).map Emit.ClassModule.untyped = _ :=
    Emit.ofPlan_untyped_congr h
  rw [hmodule] at hmodules
  exact map_eq_ok.mp hmodules

theorem FieldPlanned.attr_ne {required : List String} {field : Field}
    (h : FieldPlanned root required property field) : field.attr ≠ "_FIELDS" := by
  intro hattr
  rw [h.attr] at hattr
  have hchars : Text.attributeName property.name.toList = '_' :: "FIELDS".toList := by
    simpa using congrArg String.toList hattr
  obtain ⟨digit, tail, htail, hdigit⟩ := Text.attributeName_underscore hchars
  obtain ⟨rfl, -⟩ := List.cons.inj htail
  cases hdigit

end Blueprint

/-! ## Modules of a run -/

namespace Package

variable {settings : Settings} {comment schema : Json} {document : Document}
  {definition : Definition} {plan : Plan} {module : Emit.ClassModule}

/-- A plan whose module is written, with types of its own. -/
structure Typed (settings : Settings) (document : Document) (definition : Definition) (plan : Plan) :
    Prop where
  base : settings.base.IsPlain
  types : ∀ entry ∈ definition.properties, HasTypes document.raw entry.2
  planned : Plan.ofDefinition document settings.wrapWidth definition = .ok plan

section Typed

variable {lines : List String} (h : Typed settings document definition plan)
  (hlines : ∀ line ∈ lines, Unbroken line.toList)
  (hmodule : Emit.ClassModule.ofPlan settings.base lines plan = .ok module)
include h hlines hmodule

theorem Typed.isWritten : module.IsWritten Emit.typeOf :=
  Emit.isWritten_ofPlan h.base hlines
    (isPlanWritten h.planned fun entry hentry _ _ => h.types entry hentry) hmodule

theorem Typed.readModule (hvalues : module.valuesFit = true) :
    Source.readModule module.text.toList =
      some (Tree.statementsOf (module.trees Emit.typeOf)) := by
  have htypes := (Plan.ofDefinition_eq_ok h.planned).typeExpressions
    fun entry hentry _ _ => h.types entry hentry
  rw [(h.isWritten hlines hmodule).readModule, Emit.fitAll_ofPlan htypes hvalues hmodule]
  rfl

theorem Typed.valuesFit (hvalid : Source.isValid module.text = true) : module.valuesFit = true := by
  have hfits := (h.isWritten hlines hmodule).isValid_iff.mp hvalid
  rw [Emit.fitAll_trees, Bool.and_eq_true, Bool.and_eq_true] at hfits
  exact hfits.1.1

omit hlines in
theorem Typed.declarations {field : Emit.FieldCode} (hfield : field ∈ module.fields) :
    (Emit.blocks (Tree.statementsOf (module.trees Emit.typeOf))).filterMap
      (Emit.declaration? field.attr) = [((Emit.typeOf field.annotation).tokens, none)] := by
  have hplanned := Plan.ofDefinition_eq_ok h.planned
  have hattrs : module.fields.map (·.attr) = plan.members.map (·.field.attr) := by
    rw [(Emit.ClassModule.ofPlan_eq_ok hmodule).fields]
    simp [Emit.fieldCode, Plan.fields]
  refine Emit.declarations_trees (hattrs ▸ hplanned.distinct_attrs) hfield ?_
  have hmem := List.mem_map_of_mem (f := (·.attr)) hfield
  rw [hattrs] at hmem
  obtain ⟨member, hmember, hsame⟩ := List.mem_map.mp hmem
  obtain ⟨entry, -, hmade⟩ := hplanned.exists_property hmember
  exact hsame ▸ hmade.field.attr_ne

end Typed

/-- The class of the definition in the schema where type names that pass through are `object`. -/
def Retyped (settings : Settings) (comment schema : Json) (name : String)
    (other : Emit.ClassModule) : Prop :=
  ∃ next definition, Document.read (retypedSchema schema) = .ok next ∧
    Entries.get? name next.entries = some (.ok definition) ∧
      compose settings (headingOf settings comment) next definition = .ok other

/-- What the module does is what it does with other type names, and its fields are declared only. -/
structure RunsAsRetyped (settings : Settings) (comment schema : Json) (module : Emit.ClassModule)
    (statements : List Source.Statement) : Prop where
  read : Source.readModule module.text.toList = some statements
  retyped : ∃ other others, Retyped settings comment schema module.name other ∧
    Source.readModule other.text.toList = some others ∧
      Source.erasedAll others = Source.erasedAll statements
  declared : ∀ field ∈ module.fields, ∃ type,
    (Emit.blocks statements).filterMap (Emit.declaration? field.attr) = [(type, none)]

/-- A definition of one property that has a type and nothing else. -/
def typedSchema (definition property type : String) (required : Bool) : Json :=
  .obj [("definitions", .obj [(definition, .obj [
    ("properties", .obj [(property, .obj [("type", .str type)])]),
    ("required", .arr (if required then [.str property] else []))])])]

def typedProperty (definition property type : String) : Property where
  name := property
  type := some type
  path := "#/definitions/" ++ definition ++ "/properties/" ++ property

def typedDefinition (definition property type : String) (required : Bool) : Definition where
  name := definition
  properties := [(property, typedProperty definition property type)]
  required := if required then [property] else []
  path := "#/definitions/" ++ definition

def typedDocument (definition property type : String) (required : Bool) : Document where
  raw := typedSchema definition property type required
  entries := [(definition, .ok (typedDefinition definition property type required))]

/-- The module for one member with that type. -/
def typedModule (definition property type : String) (required : Bool) : Emit.ClassModule :=
  Emit.standardModule [] {
    name := definition
    path := "#/definitions/" ++ definition
    members := [{ field := {
      name := property
      attr := property
      storage := some type
      documented := some type
      initial := if required then .unset else .absent } }] }

def typedRun (module : Emit.ClassModule) : Run :=
  match Run.finish {} .null (Run.addClass module {}) with
  | .ok run => run
  | .error _ => {}

theorem generate_rates : generate {} .null (typedSchema "Stay" "rates" "dict[str, int]" false) =
    .ok (typedRun (typedModule "Stay" "rates" "dict[str, int]" false)) := by
  have hvalid : Source.validate (typedModule "Stay" "rates" "dict[str, int]" false).text =
      .ok none := by
    refine validate_of_read true ?_
    rw [Emit.ClassModule.text, Emit.toList_unlines]
    decide +kernel
  have hread : Document.read (typedSchema "Stay" "rates" "dict[str, int]" false) =
      .ok (typedDocument "Stay" "rates" "dict[str, int]" false) := rfl
  have hcompose : compose {} .null (typedDocument "Stay" "rates" "dict[str, int]" false)
      (typedDefinition "Stay" "rates" "dict[str, int]" false) =
        .ok (typedModule "Stay" "rates" "dict[str, int]" false) := rfl
  rw [generate_single hread rfl rfl rfl (attempt_of_valid hcompose hvalid)]
  rfl

theorem typeExpression_rates : Emit.TypeExpression "dict[str, int]" where
  bare := Text.bare_of_all (by decide)
  stands := by
    refine ⟨.item (Emit.nameOf "dict") [Emit.nameOf "str", Emit.nameOf "int"], ?_, ?_, rfl, rfl⟩
    · simp [Source.Expr.pieces, Source.Expr.row, Source.Expr.rowRest, Source.Piece.chars,
        Emit.charsOf_nameOf]
    · have hdict : Plain "dict" := by decide
      have hstr : Plain "str" := by decide
      have hint : Plain "int" := by decide
      exact ⟨hdict, rfl, ⟨hstr, hint, trivial⟩, rfl, by simp⟩

end Package

end ModelMint
