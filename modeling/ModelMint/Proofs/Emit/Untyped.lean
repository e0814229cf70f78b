import ModelMint.Proofs.Blueprint.Retyping
import ModelMint.Proofs.Emit.Types
import ModelMint.Proofs.Source.Erasure

/-!
# Modules without types

What a module does does not depend on the types in it: two written modules that differ
in types, comments and documentation have the same statements once types are taken away.
Every field is declared once in its class, and given no value there.
-/

namespace ModelMint.Emit

open ModelMint.Blueprint
open ModelMint.Source (Expr Line Head Tree Tokens)
open ModelMint.Source.Tree (erasedOf)

/-! ## Taking types away -/

def FieldCode.untyped (field : FieldCode) : FieldCode := { field with annotation := "", comment := [] }

def SetterCode.untyped (setter : SetterCode) : SetterCode := { setter with parameterType := "" }

def ClassModule.untyped (module : ClassModule) : ClassModule :=
  { module with
    documentation := []
    fields := module.fields.map FieldCode.untyped
    setters := module.setters.map SetterCode.untyped }

section Plans

variable {names : BaseNames} {heading : List String} {plan other : Plan}

theorem isArray_untyped (field : Field) : field.untyped.isArray = field.isArray :=
  kindOf_beq field.storage (by simp [TypeName.kinds])

theorem isMoment_untyped (field : Field) : field.untyped.isMoment = field.isMoment :=
  kindOf_beq field.storage (by simp [TypeName.kinds])

theorem fieldCode_untyped (field : Field) :
    (fieldCode names field.untyped).untyped = (fieldCode names field).untyped := by
  have hstart : startOf names field.untyped = startOf names field := by
    unfold startOf
    rw [isMoment_untyped]
    rfl
  unfold fieldCode
  rw [hstart, isArray_untyped]
  rfl

theorem setterCode_untyped (member : Blueprint.Member) :
    (setterCode names member.untyped).map SetterCode.untyped =
      (setterCode names member).map SetterCode.untyped := by
  have hstatement : statementOf names member.untyped.field = statementOf names member.field := by
    funext rule
    cases rule <;> rfl
  unfold setterCode
  rw [map_bind, map_bind, hstatement]
  rfl

/-- Of the types in a plan nothing is in its module but the types. -/
theorem ofPlan_untyped (plan : Plan) :
    (ClassModule.ofPlan names heading plan.untyped).map ClassModule.untyped =
      (ClassModule.ofPlan names heading plan).map ClassModule.untyped := by
  have hfields : plan.untyped.fields = plan.fields.map Field.untyped :=
    plan.fields_seen fun _ => rfl
  have hsetters : plan.untyped.setters = plan.setters.map Member.untyped :=
    plan.setters_seen fun _ => rfl
  have hreferences : plan.untyped.references = plan.references := plan.references_seen fun _ => rfl
  have hconstants : plan.untyped.constants = plan.constants := plan.constants_seen fun _ => rfl
  unfold ClassModule.ofPlan
  rw [map_bind, map_bind, hsetters]
  have hcodes : ((plan.setters.map Member.untyped).mapM (setterCode names)).map
      (List.map SetterCode.untyped) =
        (plan.setters.mapM (setterCode names)).map (List.map SetterCode.untyped) := by
    refine map_mapM_congr ?_
    rw [List.forall₂_map_left_iff, List.forall₂_same]
    exact fun member _ => setterCode_untyped member
  refine bind_congr_of_map hcodes fun codes others hsame => ?_
  rw [hfields, hreferences, hconstants]
  simp only [Except.map, ClassModule.untyped, hsame, List.map_map, List.any_map, Function.comp_def,
    isMoment_untyped, fieldCode_untyped]
  rfl

theorem ofPlan_untyped_congr (h : plan.untyped = other.untyped) :
    (ClassModule.ofPlan names heading plan).map ClassModule.untyped =
      (ClassModule.ofPlan names heading other).map ClassModule.untyped := by
  rw [← ofPlan_untyped plan, h, ofPlan_untyped]

end Plans

section Erasure

variable {typed : String → Expr} {module other : ClassModule}

/-- A type that stands where another one was. -/
def anyType : Expr := nameOf "Any"

theorem erasedOf_documentationTree (module : ClassModule) : erasedOf [module.documentationTree] = [] := by
  rw [ClassModule.documentationTree, Tree.erasedOf_code]
  simp [Line.statement, Line.tokens, Line.pieces, Expr.pieces, Source.Statement.erased,
    Source.Piece.tokens, Source.Token.isPlainText]

theorem erasedOf_fieldTrees (typed : String → Expr) (field : FieldCode) :
    erasedOf (fieldTrees typed field) =
      [.annotated [.name (String.ofList field.attr.toList)] [] none] := by
  rw [fieldTrees, Tree.erasedOf_append, Tree.erasedOf_append, Tree.erasedOf_silents,
    Tree.erasedOf_silent, Tree.erasedOf_code]
  rfl

theorem erasedOf_setterTrees {setter : SetterCode} (h : setter.IsWritten typed) (className : String) :
    erasedOf (setterTrees typed className setter) =
      erasedOf (setterTrees (fun _ => anyType) className setter.untyped) := by
  have hany : anyType.Sound := plain_fixed "Any" (by simp)
  have hhead : ∀ type : Expr, type.Sound → type.isMember = false →
      Source.untypedHead (Head.method ("set_" ++ setter.attr).toList
        (some ⟨false, setter.attr.toList, type⟩) (nameOf className)).tokens =
      Source.untypedHead (Head.method ("set_" ++ setter.attr).toList
        (some ⟨false, setter.attr.toList, anyType⟩) (nameOf className)).tokens := by
    intro type hsound hsingle
    rw [Source.untypedHead_method hsound hsingle, Source.untypedHead_method hany rfl]
  unfold setterTrees
  rw [Tree.erasedOf_cons, Tree.erasedOf_silent, Tree.erasedOf_block,
    Tree.erasedOf_cons, Tree.erasedOf_silent, Tree.erasedOf_block]
  simp only [Tree.decoratorTokens, List.nil_append]
  rw [hhead _ h.parameterType.sound h.parameterType.single]
  rfl

theorem nameTableTree_untyped (module : ClassModule) :
    module.untyped.nameTableTree = module.nameTableTree := by
  simp [ClassModule.nameTableTree, ClassModule.untyped, layoutOf, Function.comp_def,
    FieldCode.untyped]

theorem initTrees_untyped (module : ClassModule) : module.untyped.initTrees = module.initTrees := by
  simp only [ClassModule.initTrees, ClassModule.untyped, List.filterMap_map]
  rfl

theorem exportTrees_untyped (module : ClassModule) :
    module.untyped.exportTrees = module.exportTrees := by
  simp [ClassModule.exportTrees, ClassModule.untyped, layoutOf, Function.comp_def, exportExpr,
    storedExpr, FieldCode.untyped]

theorem erasedOf_memberTrees (h : module.IsWritten typed) :
    erasedOf (module.memberTrees typed) =
      erasedOf (module.untyped.memberTrees fun _ => anyType) := by
  have hfields : erasedOf (module.fields.flatMap (fieldTrees typed)) =
      erasedOf (module.untyped.fields.flatMap (fieldTrees fun _ => anyType)) := by
    rw [Tree.erasedOf_flatMap, Tree.erasedOf_flatMap]
    simp only [erasedOf_fieldTrees, ClassModule.untyped, List.flatMap_map]
    rfl
  have hsetters : erasedOf (module.setters.flatMap (setterTrees typed module.name)) =
      erasedOf (module.untyped.setters.flatMap (setterTrees (fun _ => anyType) module.untyped.name)) := by
    rw [Tree.erasedOf_flatMap, Tree.erasedOf_flatMap]
    simp only [ClassModule.untyped, List.flatMap_map]
    exact List.flatMap_congr fun setter hmem => erasedOf_setterTrees (h.setters setter hmem) module.name
  unfold ClassModule.memberTrees
  simp only [Tree.erasedOf_append, erasedOf_documentationTree, hfields, hsetters,
    nameTableTree_untyped, initTrees_untyped, exportTrees_untyped]
  rfl

/-- Taking the types away from what was read is reading without types. -/
theorem erasedOf_trees (h : module.IsWritten typed) :
    erasedOf (module.trees typed) = erasedOf (module.untyped.trees fun _ => anyType) := by
  unfold ClassModule.trees ClassModule.classTree
  simp only [Tree.erasedOf_append, Tree.erasedOf_block, erasedOf_memberTrees h]
  rfl

end Erasure

/-! ## Declarations -/

section Declarations

variable {typed : String → Expr} {module : ClassModule} {name : String}

/-- What is declared of a name: each time the type and, where there is one, the value. -/
def declaration? (name : String) : Source.Statement → Option (Tokens × Option Tokens)
  | .annotated [.name other] type value => if other = name then some (type, value) else none
  | _ => none

def declarationsOf (name : String) (trees : List Tree) : List (Tokens × Option Tokens) :=
  (Tree.statementsOf trees).filterMap (declaration? name)

theorem declarationsOf_append (first second : List Tree) :
    declarationsOf name (first ++ second) = declarationsOf name first ++ declarationsOf name second := by
  simp [declarationsOf, Tree.statementsOf_eq_flatMap]

theorem declarationsOf_flatMap {α : Type} (items : List α) (trees : α → List Tree) :
    declarationsOf name (items.flatMap trees) =
      items.flatMap fun item => declarationsOf name (trees item) := by
  induction items with
  | nil => rfl
  | cons first rest ih => rw [List.flatMap_cons, declarationsOf_append, ih, List.flatMap_cons]

theorem declarationsOf_eq_nil {trees : List Tree}
    (h : ∀ tree ∈ trees, ∀ statement ∈ tree.statements, declaration? name statement = none) :
    declarationsOf name trees = [] := by
  rw [declarationsOf, Tree.statementsOf_eq_flatMap, List.filterMap_eq_nil_iff]
  intro statement hstatement
  obtain ⟨tree, htree, hmem⟩ := List.mem_flatMap.mp hstatement
  exact h tree htree statement hmem

theorem declaration?_block {decorator : Option (List Char)} {head : Head} {body : List Tree} :
    ∀ statement ∈ (Tree.block decorator head body).statements, declaration? name statement = none := by
  rintro statement hmem
  rw [List.mem_singleton.mp hmem]
  rfl

theorem declarationsOf_method {head : Head} {body : List Tree} :
    declarationsOf name [.silent [], .block none head body] = [] := by
  refine declarationsOf_eq_nil fun tree htree => ?_
  rcases List.mem_cons.mp htree with rfl | htree
  · nofun
  · obtain rfl := List.mem_singleton.mp htree
    exact declaration?_block

theorem declarationsOf_constantTrees : declarationsOf name module.constantTrees = [] := by
  unfold ClassModule.constantTrees
  split
  · rfl
  · refine declarationsOf_eq_nil ?_
    rw [List.forall_mem_cons, List.forall_mem_map]
    refine ⟨nofun, fun constant _ statement hmem => ?_⟩
    rw [List.mem_singleton.mp hmem]
    rfl

theorem declarationsOf_nameTableTree (h : name ≠ "_FIELDS") :
    declarationsOf name [module.nameTableTree] = [] := by
  refine declarationsOf_eq_nil fun tree htree statement hmem => ?_
  rw [List.mem_singleton.mp htree] at hmem
  rw [List.mem_singleton.mp hmem, Line.statement, declaration?, if_neg]
  exact fun hsame => h hsame.symm

theorem declarationsOf_fieldTrees (field : FieldCode) :
    declarationsOf name (fieldTrees typed field) =
      if field.attr = name then [((typed field.annotation).tokens, none)] else [] := by
  have hsilent : declarationsOf name ([.silent []] ++
      field.comment.map (fun line => Tree.silent ("    #: " ++ line).toList)) = [] := by
    refine declarationsOf_eq_nil ?_
    rw [List.forall_mem_append, List.forall_mem_singleton, List.forall_mem_map]
    exact ⟨nofun, nofun⟩
  rw [fieldTrees, declarationsOf_append, hsilent, List.nil_append]
  unfold declarationsOf
  simp only [Tree.statementsOf, Tree.statements, Line.statement, List.append_nil, Option.map_none]
  rw [List.filterMap_cons, declaration?, String.ofList_toList]
  by_cases hname : field.attr = name
  · rw [if_pos hname, if_pos hname]
    rfl
  · rw [if_neg hname, if_neg hname]
    rfl

theorem flatMap_declarationsOf_fieldTrees {fields : List FieldCode}
    (hattrs : (fields.map (·.attr)).Nodup) {field : FieldCode} (hfield : field ∈ fields) :
    (fields.flatMap fun other => declarationsOf field.attr (fieldTrees typed other)) =
      [((typed field.annotation).tokens, none)] := by
  simp only [declarationsOf_fieldTrees]
  induction fields with
  | nil => cases hfield
  | cons first rest ih =>
      obtain ⟨hfirst, hrest⟩ := List.nodup_cons.mp hattrs
      rw [List.flatMap_cons]
      rcases List.mem_cons.mp hfield with rfl | hmem
      · have hothers : (rest.flatMap fun other => if other.attr = field.attr then
            [((typed other.annotation).tokens, (none : Option Tokens))] else []) = [] := by
          rw [List.flatMap_eq_nil_iff]
          intro other hother
          rw [if_neg]
          exact fun hsame => hfirst (List.mem_map.mpr ⟨other, hother, hsame⟩)
        rw [hothers, if_pos rfl, List.append_nil]
      · rw [if_neg, List.nil_append]
        · exact ih hrest hmem
        · exact fun hsame => hfirst (List.mem_map.mpr ⟨field, hmem, hsame.symm⟩)

/-- Each field is declared once, with its type and without a value. -/
theorem declarationsOf_memberTrees (hattrs : (module.fields.map (·.attr)).Nodup)
    {field : FieldCode} (hfield : field ∈ module.fields) (htable : field.attr ≠ "_FIELDS") :
    declarationsOf field.attr (module.memberTrees typed) =
      [((typed field.annotation).tokens, none)] := by
  have hdocumentation : declarationsOf field.attr [module.documentationTree] = [] :=
    declarationsOf_eq_nil fun tree htree statement hmem => by
      rw [List.mem_singleton.mp htree] at hmem
      rw [List.mem_singleton.mp hmem]
      rfl
  have hempty : declarationsOf field.attr [.silent []] = [] := rfl
  have hsetters : declarationsOf field.attr
      (module.setters.flatMap (setterTrees typed module.name)) = [] := by
    rw [declarationsOf_flatMap, List.flatMap_eq_nil_iff]
    exact fun setter _ => declarationsOf_method
  have hfields : declarationsOf field.attr (module.fields.flatMap (fieldTrees typed)) =
      [((typed field.annotation).tokens, none)] := by
    rw [declarationsOf_flatMap]
    exact flatMap_declarationsOf_fieldTrees hattrs hfield
  unfold ClassModule.memberTrees
  simp only [declarationsOf_append, hdocumentation, declarationsOf_constantTrees, hempty,
    declarationsOf_nameTableTree htable, hfields, hsetters, ClassModule.initTrees,
    ClassModule.exportTrees, declarationsOf_method, List.nil_append, List.append_nil]

/-- The blocks of the compound statements of a module. -/
def blocks (statements : List Source.Statement) : List Source.Statement :=
  statements.flatMap fun
    | .compound clauses => clauses.flatMap Prod.snd
    | _ => []

theorem blocks_statementsOf_append (first second : List Tree) :
    blocks (Tree.statementsOf (first ++ second)) =
      blocks (Tree.statementsOf first) ++ blocks (Tree.statementsOf second) := by
  simp [blocks, Tree.statementsOf_eq_flatMap]

/-- Headings and imports declare nothing. -/
theorem declarations_header : (blocks (Tree.statementsOf (headingTrees module.heading ++
    module.importTrees ++ [.silent [], .silent []]))).filterMap (declaration? name) = [] := by
  have hheading : Tree.statementsOf (headingTrees module.heading) = [] := by
    rw [Tree.statementsOf_eq_flatMap, List.flatMap_eq_nil_iff]
    intro tree htree
    unfold headingTrees at htree
    split at htree
    · cases htree
    · rcases List.mem_append.mp htree with hmem | hmem
      · obtain ⟨line, -, rfl⟩ := List.mem_map.mp hmem
        rfl
      · obtain rfl := List.mem_singleton.mp hmem
        rfl
  have himports : (Tree.statementsOf (module.references.map importTree)).filterMap
      (declaration? name) = [] := by
    refine declarationsOf_eq_nil ?_
    rw [List.forall_mem_map]
    intro reference _ statement hmem
    rw [List.mem_singleton.mp hmem]
    rfl
  rw [blocks_statementsOf_append, blocks_statementsOf_append, hheading]
  unfold ClassModule.importTrees
  simp only [blocks_statementsOf_append]
  split <;> split <;> simp [blocks, Tree.statementsOf, Tree.statements, fromTree, Line.statement,
    himports]

/-- In the whole module each field is declared once, with its type and without a value. -/
theorem declarations_trees (hattrs : (module.fields.map (·.attr)).Nodup) {field : FieldCode}
    (hfield : field ∈ module.fields) (htable : field.attr ≠ "_FIELDS") :
    (blocks (Tree.statementsOf (module.trees typed))).filterMap (declaration? field.attr) =
      [((typed field.annotation).tokens, none)] := by
  have hclass : blocks (Tree.statementsOf [module.classTree typed]) =
      Tree.statementsOf (module.memberTrees typed) := by
    simp [blocks, ClassModule.classTree, Tree.statementsOf, Tree.statements]
  rw [ClassModule.trees, blocks_statementsOf_append, List.filterMap_append, declarations_header, hclass]
  exact declarationsOf_memberTrees hattrs hfield htable

end Declarations

end ModelMint.Emit
