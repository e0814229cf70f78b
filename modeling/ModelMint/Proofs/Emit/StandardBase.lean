import ModelMint.Emit.ClassModule
import ModelMint.Proofs.Results

/-!
# Modules over the standard base

With the names of the standard base every rule becomes a statement, so every plan
becomes a module, and its parts can be written down.
-/

namespace ModelMint.Emit

open ModelMint.Blueprint

/-- The operation of the standard base that checks a measure. -/
def boundsOperation : Measure → String
  | .length => "_check_array_bounds"
  | .integer => "_check_integer_bounds"
  | .float => "_check_float_bounds"

def standardStatement (attr : String) : Rule → Statement
  | .elements className => .elements "_check_if_pure_array" className (className == attr)
  | .within measure minimum maximum =>
    .within (boundsOperation measure) (minimum.getD .null) (maximum.getD .null)
  | .moment => .moment "_parse_date"
  | .oneOf values => .oneOf "_check_enum_bounds" values

def standardSetter (member : Blueprint.Member) : SetterCode where
  attr := member.field.attr
  parameterType := parameterTypeOf member.field
  statements := member.rules.map (standardStatement member.field.attr)

/-- The module of a plan over the standard base. -/
def standardModule (heading : List String) (plan : Plan) : ClassModule where
  heading
  usesMoment := plan.fields.any Field.isMoment
  references := plan.references
  baseModule := "json_schema_to_model.runtime"
  baseClass := "Model"
  name := plan.name
  documentation := documentationOf plan
  constants := plan.constants
  fields := plan.fields.map (fieldCode {})
  setters := plan.setters.map standardSetter

theorem statementOf_standard (field : Field) (rule : Rule) :
    statementOf {} field rule = .ok (standardStatement field.attr rule) := by
  cases rule with
  | within measure minimum maximum => cases measure <;> rfl
  | _ => rfl

theorem setterCode_standard (member : Blueprint.Member) :
    setterCode {} member = .ok (standardSetter member) := by
  unfold setterCode
  rw [mapM_eq_ok_map fun rule _ => statementOf_standard member.field rule]
  rfl

theorem ofPlan_standard (heading : List String) (plan : Plan) :
    ClassModule.ofPlan {} heading plan = .ok (standardModule heading plan) := by
  unfold ClassModule.ofPlan
  rw [mapM_eq_ok_map fun member _ => setterCode_standard member]
  rfl

theorem startOf_standard (field : Field) :
    startOf {} field =
      if !field.initialized then none
      else if field.isMoment && field.default != .null then
        some (.parsed "_parse_date" field.default)
      else some (.literal field.default) := rfl

end ModelMint.Emit
