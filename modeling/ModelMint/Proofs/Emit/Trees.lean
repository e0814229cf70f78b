import ModelMint.Emit.Text
import ModelMint.Proofs.Source.Literals
import ModelMint.Proofs.Source.Trees

/-!
# Modules as trees of source

The tree that each part of a module is written from.  The lines of the part are the rows
of its tree, so the text of a module is the text of its trees.  What a type text stands
for is a parameter.
-/

namespace ModelMint.Emit

open ModelMint.Blueprint
open ModelMint.Source (Expr Line Head Parameter Tree Piece Row)

/-! ## Lines and trees -/

/-- The lines are the rows of the trees. -/
def Prints (depth : Nat) (lines : List String) (trees : List Tree) : Prop :=
  (unlines lines).toList = Row.text (Tree.rowsOf depth trees)

section Prints

variable {depth : Nat} {line : String} {lines others : List String} {trees more : List Tree}

theorem rowsOf_append (depth : Nat) (trees more : List Tree) :
    Tree.rowsOf depth (trees ++ more) = Tree.rowsOf depth trees ++ Tree.rowsOf depth more := by
  induction trees with
  | nil => rfl
  | cons first rest ih =>
      rw [List.cons_append, Tree.rowsOf, Tree.rowsOf, ih, List.append_assoc]

namespace Prints

theorem nil (depth : Nat) : Prints depth [] [] := rfl

theorem append (h : Prints depth lines trees) (hmore : Prints depth others more) :
    Prints depth (lines ++ others) (trees ++ more) := by
  unfold Prints at *
  rw [unlines_append, String.toList_append, h, hmore, rowsOf_append, Row.text, Row.text, Row.text,
    List.flatMap_append]

theorem cons {tree : Tree} (h : Prints depth [line] [tree]) (hmore : Prints depth lines trees) :
    Prints depth (line :: lines) (tree :: trees) := h.append hmore

theorem silent {text : List Char} (h : line.toList = text) : Prints depth [line] [.silent text] := by
  simp [Prints, toList_unlines, Tree.rowsOf, Tree.rows, Row.text, Row.chars, h]

theorem folded {code : Line} (h : (unlines lines).toList =
      List.replicate (4 * depth) ' ' ++ Piece.charsOf code.pieces ++ ['\n']) :
    Prints depth lines [.code code] := by
  simp [Prints, Tree.rowsOf, Tree.rows, Row.text, Row.chars, h]

theorem code {code : Line}
    (h : line.toList = List.replicate (4 * depth) ' ' ++ Piece.charsOf code.pieces) :
    Prints depth [line] [.code code] :=
  folded (by simp [toList_unlines, h])

theorem block {head : Head}
    (hhead : line.toList = List.replicate (4 * depth) ' ' ++ Piece.charsOf head.pieces)
    (hbody : Prints (depth + 1) lines trees) :
    Prints depth (line :: lines) [.block none head trees] := by
  unfold Prints at *
  simp [toList_unlines_cons, hbody, Tree.rowsOf, Tree.rows, Tree.decoratorRows, Row.text, Row.chars,
    hhead]

theorem decorated {name : List Char} {decorator : String} {head : Head}
    (hdecorator : decorator.toList = List.replicate (4 * depth) ' ' ++ '@' :: name)
    (h : Prints depth lines [.block none head trees]) :
    Prints depth (decorator :: lines) [.block (some name) head trees] := by
  unfold Prints at *
  rw [toList_unlines_cons, h, hdecorator]
  simp [Tree.rowsOf, Tree.rows, Tree.decoratorRows, Row.text, Row.chars, Piece.chars]

theorem map {α : Type} {items : List α} {line : α → String} {tree : α → Tree}
    (h : ∀ item ∈ items, Prints depth [line item] [tree item]) :
    Prints depth (items.map line) (items.map tree) := by
  induction items with
  | nil => exact nil depth
  | cons item rest ih =>
      obtain ⟨hitem, hrest⟩ := List.forall_mem_cons.mp h
      exact hitem.cons (ih hrest)

theorem flatMap {α : Type} {items : List α} {lines : α → List String} {trees : α → List Tree}
    (h : ∀ item ∈ items, Prints depth (lines item) (trees item)) :
    Prints depth (items.flatMap lines) (items.flatMap trees) := by
  induction items with
  | nil => exact nil depth
  | cons item rest ih =>
      obtain ⟨hitem, hrest⟩ := List.forall_mem_cons.mp h
      rw [List.flatMap_cons, List.flatMap_cons]
      exact hitem.append (ih hrest)

theorem filterMap {α : Type} {items : List α} {line? : α → Option String} {tree? : α → Option Tree}
    (h : ∀ item ∈ items, Prints depth (line? item).toList (tree? item).toList) :
    Prints depth (items.filterMap line?) (items.filterMap tree?) := by
  rw [List.filterMap_eq_flatMap_toList, List.filterMap_eq_flatMap_toList]
  exact flatMap h

theorem ite {condition : Prop} [Decidable condition] (h : condition → Prints depth lines trees)
    (hnot : ¬ condition → Prints depth others more) :
    Prints depth (if condition then lines else others) (if condition then trees else more) := by
  split
  next hcondition => exact h hcondition
  next hcondition => exact hnot hcondition

end Prints

end Prints

/-! ## Expressions -/

def nameOf (text : String) : Expr := .name text.toList

/-- The expression of a path with points. -/
def pathOf (path : String) : Expr := match Text.parts '.' path.toList with
  | [] => .name []
  | first :: rest => rest.foldl Expr.attr (.name first)

def callOf (operation : String) (arguments : List Expr) : Expr :=
  .call (.stored operation.toList) arguments

def memberOf (key : String) (value : Expr) : Expr :=
  .member (key.toList.flatMap Text.writeChar) value

/-- A list or a map with a line for each of its items, if it has any. -/
def layoutOf {α : Type} (width : Nat) (items : List α) : Option Nat :=
  if items.isEmpty then none else some width

section Expressions

open Source.Piece (charsOf)

theorem charsOf_ofLiteral (value : Json) :
    charsOf (Expr.ofLiteral value).pieces = (literalText value).toList := by
  rw [literalText, String.toList_ofList, ← Source.Expr.chars_ofLiteral, Expr.chars]

theorem charsOf_foldl_attr (rest : List (List Char)) (owner : Expr) :
    charsOf (rest.foldl Expr.attr owner).pieces =
      charsOf owner.pieces ++ rest.flatMap ('.' :: ·) := by
  induction rest generalizing owner with
  | nil => simp
  | cons first rest ih =>
      rw [List.foldl_cons, ih]
      simp [Expr.pieces, Piece.chars]

theorem parts_join {mark : Char} {text first : List Char} {rest : List (List Char)}
    (h : Text.parts mark text = first :: rest) : first ++ rest.flatMap (mark :: ·) = text := by
  induction text generalizing first rest with
  | nil =>
      cases h
      rfl
  | cons c tail ih =>
      rw [Text.parts] at h
      cases htail : Text.parts mark tail with
      | nil => exact absurd htail (Text.parts_ne_nil mark tail)
      | cons part others =>
          have hjoin := ih htail
          rw [htail] at h
          split at h
          next hmark =>
            cases h
            simpa [beq_iff_eq.mp hmark] using hjoin
          · cases h
            simpa using hjoin

theorem charsOf_pathOf (path : String) : charsOf (pathOf path).pieces = path.toList := by
  cases hparts : Text.parts '.' path.toList with
  | nil => exact absurd hparts (Text.parts_ne_nil _ _)
  | cons first rest =>
      simp only [pathOf, hparts]
      rw [charsOf_foldl_attr, ← parts_join hparts]
      simp [Expr.pieces, Piece.chars]

theorem charsOf_memberOf (key : String) (value : Expr) :
    charsOf (memberOf key value).pieces =
      (literalText (.str key)).toList ++ ':' :: ' ' :: charsOf value.pieces := by
  simp [memberOf, Expr.pieces, Piece.chars, literalText, Source.literal, Text.written]

theorem toList_unlines_rows {α : Type} (width : Nat) (item : α → Expr) {head last : String}
    {items : List α} {line : α → String} (h : ∀ each ∈ items,
      (line each).toList = List.replicate width ' ' ++ charsOf (item each).pieces ++ [',']) :
    (unlines ([head] ++ items.map line ++ [last])).toList = head.toList ++
      charsOf (Expr.rows width (items.map item)) ++ '\n' :: last.toList ++ ['\n'] := by
  have hitems : '\n' :: (unlines (items.map line ++ [last])).toList =
      charsOf (Expr.rows width (items.map item)) ++ '\n' :: last.toList ++ ['\n'] := by
    induction items with
    | nil => simp [toList_unlines, Expr.rows]
    | cons first rest ih =>
        obtain ⟨hfirst, hrest⟩ := List.forall_mem_cons.mp h
        rw [List.map_cons, List.cons_append, toList_unlines_cons, hfirst, ih hrest, List.map_cons]
        simp [Expr.rows, Piece.chars]
  rw [List.append_assoc, List.singleton_append, toList_unlines_cons, hitems]
  simp

end Expressions

/-! ## The trees of a module -/

def headingTrees (heading : List String) : List Tree :=
  if heading.isEmpty then []
  else heading.map (fun line => .silent ("# " ++ line).toList) ++ [.silent []]

def importTree (name : String) : Tree :=
  .code (.imports true (nameOf name) [name.toList] none)

def fromTree (path : Expr) (names : List String) : Tree :=
  .code (.imports false path (names.map String.toList) none)

def constantTree (constant : Constant) : Tree :=
  .code (.assign constant.name.toList (.ofLiteral constant.value))

def noneExpr : Expr := .constant "None".toList

def startExpr : Start → Expr
  | .literal value => .ofLiteral value
  | .parsed operation value => callOf operation [.ofLiteral value]

def startTree? (field : FieldCode) : Option Tree :=
  field.start.map fun start => .code (.store field.attr.toList (startExpr start))

/-- The base class is given what the call was given. -/
def baseInit : Expr :=
  .spread (.attr (.call (nameOf "super") []) "__init__".toList) "values".toList

def anyMap : Expr := .item (nameOf "dict") [nameOf "str", nameOf "Any"]

def statementTree (attr : String) : Statement → Tree
  | .elements operation className renamed =>
    .code (.evaluate (callOf operation [nameOf attr, nameOf (ClassModule.localName className renamed)]))
  | .within operation minimum maximum =>
    .code (.evaluate (callOf operation [nameOf attr, .ofLiteral minimum, .ofLiteral maximum]))
  | .moment operation => .code (.assign attr.toList (callOf operation [nameOf attr]))
  | .oneOf operation values =>
    .code (.evaluate (callOf operation [nameOf attr, .list (some 8) (values.map Expr.ofLiteral)]))

def setterImportTree? : Statement → Option Tree
  | .elements _ className renamed => some (.code (.imports true (nameOf className)
      [className.toList] (if renamed then some (ClassModule.localName className true).toList else none)))
  | _ => none

def storedExpr (field : FieldCode) : Expr := callOf ("get_" ++ field.attr) []

def exportExpr (field : FieldCode) : Expr := match field.exported with
  | some operation => callOf operation [storedExpr field]
  | none => storedExpr field

namespace ClassModule

def importTrees (module : ClassModule) : List Tree :=
  let names := (if module.references.isEmpty then [] else ["TYPE_CHECKING"]) ++
    ["Any", "ClassVar", "final"]
  [fromTree (nameOf "__future__") ["annotations"], .silent []] ++
    (if module.usesMoment then [fromTree (nameOf "datetime") ["datetime"]] else []) ++
    [fromTree (nameOf "typing") names, .silent [],
      fromTree (pathOf module.baseModule) [module.baseClass]] ++
    (if module.references.isEmpty then []
      else [.silent [], .block none (.condition (nameOf "TYPE_CHECKING"))
        (module.references.map importTree)])

def documentationTree (module : ClassModule) : Tree :=
  .code (.evaluate (.block (Source.documentationBody module.documentation)))

def constantTrees (module : ClassModule) : List Tree :=
  if module.constants.isEmpty then [] else .silent [] :: module.constants.map constantTree

def nameTableTree (module : ClassModule) : Tree :=
  .code (.declare "_FIELDS".toList
    (.item (nameOf "ClassVar") [.item (nameOf "dict") [nameOf "str", nameOf "str"]])
    (some (.dict (layoutOf 4 module.fields)
      (module.fields.map fun field => memberOf field.attr (.ofLiteral (.str field.name))))))

def initTrees (module : ClassModule) : List Tree := [
  .silent [],
  .block none
    (.method "__init__".toList (some ⟨true, "values".toList, nameOf "Any"⟩) noneExpr)
    (module.fields.filterMap startTree? ++ [.code (.evaluate baseInit)])
]

def exportTrees (module : ClassModule) : List Tree := [
  .silent [],
  .block none (.method "to_dict".toList none anyMap)
    [.code (.returns (.dict (layoutOf 8 module.fields)
      (module.fields.map fun field => memberOf field.name (exportExpr field))))]
]

end ClassModule

section Typed

-- what a type text stands for
variable (typed : String → Expr)

def fieldTrees (field : FieldCode) : List Tree :=
  [.silent []] ++ field.comment.map (fun line => .silent ("    #: " ++ line).toList) ++
    [.code (.declare field.attr.toList (typed field.annotation) none)]

def setterTrees (className : String) (setter : SetterCode) : List Tree :=
  [.silent [],
    .block none (.method ("set_" ++ setter.attr).toList
        (some ⟨false, setter.attr.toList, typed setter.parameterType⟩) (nameOf className))
      (setter.statements.filterMap setterImportTree? ++
        (if (setter.statements.filterMap ClassModule.setterImport?).isEmpty then []
          else [.silent []]) ++
        setter.statements.map (statementTree setter.attr) ++
        [.code (.store setter.attr.toList (nameOf setter.attr)), .code (.returns Expr.receiver)])]

namespace ClassModule

def memberTrees (module : ClassModule) : List Tree :=
  [module.documentationTree] ++ module.constantTrees ++ [.silent []] ++ [module.nameTableTree] ++
    module.fields.flatMap (fieldTrees typed) ++ module.initTrees ++
    module.setters.flatMap (setterTrees typed module.name) ++ module.exportTrees

def classTree (module : ClassModule) : Tree :=
  .block (some "final".toList) (.subclass module.name.toList module.baseClass.toList)
    (module.memberTrees typed)

def trees (module : ClassModule) : List Tree :=
  headingTrees module.heading ++ module.importTrees ++ [.silent [], .silent []] ++
    [module.classTree typed]

end ClassModule

end Typed

/-- The trees of the file of a package. -/
def packageTrees (heading classNames : List String) : List Tree :=
  headingTrees heading ++ classNames.map importTree ++ [.silent [], .code (.assign "__all__".toList
    (.list (some 0) (classNames.map fun name => .quoted name.toList)))]

/-! ## Printing -/

section Printing

open Source.Piece (charsOf)

theorem prints_headingLines (heading : List String) :
    Prints 0 (headingLines heading) (headingTrees heading) :=
  .ite (fun _ => .nil 0) fun _ =>
    Prints.append (.map fun _ _ => .silent rfl) (.silent rfl)

theorem charsOf_nameOf (text : String) : charsOf (nameOf text).pieces = text.toList := by
  simp [nameOf, Expr.pieces, Piece.chars]

theorem charsOf_callOf (operation : String) (arguments : List Expr) :
    charsOf (callOf operation arguments).pieces =
      "self.".toList ++ operation.toList ++ '(' :: (charsOf (Expr.row arguments) ++ [')']) := by
  simp [callOf, Expr.stored, Expr.receiver, Expr.pieces, Piece.chars]

theorem charsOf_relativeImport (name : String) (renamed : Option (List Char)) :
    charsOf (Line.imports true (nameOf name) [name.toList] renamed).pieces =
      (importLine name).toList ++ charsOf (Line.renamedPieces renamed) := by
  simp [importLine, Line.pieces, Expr.row, Expr.rowRest, nameOf, Expr.pieces, Piece.chars]

theorem prints_importTree (name : String) : Prints 0 [importLine name] [importTree name] := by
  refine .code ?_
  rw [charsOf_relativeImport]
  simp [Line.renamedPieces]

theorem prints_fromTree (path : Expr) (name : String) :
    Prints 0 ["from " ++ String.ofList (charsOf path.pieces) ++ " import " ++ name]
      [fromTree path [name]] := by
  refine .code ?_
  simp [Line.pieces, Line.renamedPieces, Expr.row, Expr.rowRest, Expr.pieces, Piece.chars]

namespace ClassModule

variable {module : ClassModule}

theorem prints_importLines : Prints 0 module.importLines module.importTrees := by
  have hfuture : Prints 0 ["from __future__ import annotations", ""]
      [fromTree (nameOf "__future__") ["annotations"], .silent []] :=
    .cons (prints_fromTree (nameOf "__future__") "annotations") (.silent rfl)
  have htyping : Prints 0 ["from typing import " ++ ", ".intercalate
        ((if module.references.isEmpty then [] else ["TYPE_CHECKING"]) ++
          ["Any", "ClassVar", "final"])]
      [fromTree (nameOf "typing") ((if module.references.isEmpty then [] else ["TYPE_CHECKING"]) ++
        ["Any", "ClassVar", "final"])] := by
    refine .code ?_
    cases module.references.isEmpty <;> rfl
  have hbase : Prints 0 ["from " ++ module.baseModule ++ " import " ++ module.baseClass]
      [fromTree (pathOf module.baseModule) [module.baseClass]] := by
    have hpath := prints_fromTree (pathOf module.baseModule) module.baseClass
    rwa [charsOf_pathOf, String.ofList_toList] at hpath
  have hreference : ∀ name ∈ module.references,
      Prints 1 [(indent ∘ importLine) name] [importTree name] := by
    intro name _
    refine .code ?_
    rw [charsOf_relativeImport]
    simp [indent, Line.renamedPieces]
  unfold importLines importTrees
  refine .append (.append (.append hfuture (.ite (fun _ => ?_) fun _ => .nil 0))
    (.cons htyping (.cons (.silent rfl) hbase)))
      (.ite (fun _ => .nil 0) fun _ => .cons (.silent rfl) (.block rfl (.map hreference)))
  exact prints_fromTree (nameOf "datetime") "datetime"

theorem prints_documentationLines :
    Prints 1 module.documentationLines [module.documentationTree] := by
  refine .folded ?_
  have hlines : (unlines (module.documentation.map
      fun line => if line.isEmpty then "" else indent line)).toList =
        module.documentation.flatMap fun line =>
          (if line.isEmpty then "" else indent line).toList ++ ['\n'] := by
    rw [toList_unlines, List.flatMap_map]
  rw [documentationLines, unlines_append, unlines_append, String.toList_append,
    String.toList_append, hlines]
  simp [unlines, Line.pieces, Expr.pieces, Piece.chars, Source.documentationBody]

theorem prints_constantLines : Prints 1 module.constantLines module.constantTrees := by
  refine .ite (fun _ => .nil 1) fun _ => .cons (.silent rfl) (.map fun constant _ => .code ?_)
  simp [constantLine, indent, Line.pieces, Piece.chars, charsOf_ofLiteral]

theorem prints_nameTableLines : Prints 1 module.nameTableLines [module.nameTableTree] := by
  refine .folded ?_
  unfold nameTableLines
  simp only
  cases hfields : module.fields with
  | nil =>
      simp [unlines, Line.pieces, Expr.pieces, Expr.row, Expr.rowRest, Piece.chars, nameOf, layoutOf]
  | cons first rest =>
      rw [if_neg (by simp), toList_unlines_rows 8 fun field : FieldCode =>
        memberOf field.attr (.ofLiteral (.str field.name))]
      · simp [Line.pieces, Expr.pieces, Expr.row, Expr.rowRest, Piece.chars, nameOf, layoutOf]
      · intro field _
        simp [charsOf_memberOf, charsOf_ofLiteral]

theorem prints_startLine (field : FieldCode) :
    Prints 2 (startLine? field).toList (startTree? field).toList := by
  unfold startLine? startTree?
  cases field.start with
  | none => exact .nil 2
  | some start =>
      refine .code ?_
      cases start <;>
        simp [startText, startExpr, Line.pieces, Expr.stored, Expr.receiver, Expr.pieces,
          Piece.chars, charsOf_ofLiteral, charsOf_callOf, Expr.row, Expr.rowRest]

theorem prints_initLines : Prints 1 module.initLines module.initTrees :=
  .cons (.silent rfl)
    (.block rfl (.append (.filterMap fun field _ => prints_startLine field) (.code rfl)))

theorem charsOf_exportExpr (field : FieldCode) :
    charsOf (exportExpr field).pieces = (exportText field).toList := by
  unfold exportExpr exportText storedExpr
  cases field.exported <;> simp [charsOf_callOf, Expr.row, Expr.rowRest]

theorem prints_exportLines : Prints 1 module.exportLines module.exportTrees := by
  refine .cons (.silent rfl) (.block rfl (.folded ?_))
  rw [List.append_eq, List.nil_append]
  cases hfields : module.fields with
  | nil => simp [unlines, Line.pieces, Expr.pieces, Expr.row, Piece.chars, layoutOf]
  | cons first rest =>
      rw [if_neg (by simp), toList_unlines_rows 12 fun field : FieldCode =>
        memberOf field.name (exportExpr field)]
      · simp [Line.pieces, Expr.pieces, Piece.chars, layoutOf]
      · intro field _
        simp [charsOf_memberOf, charsOf_exportExpr]

theorem prints_setterImport (statement : Statement) :
    Prints 2 ((setterImport? statement).map ("        " ++ ·)).toList
      (setterImportTree? statement).toList := by
  cases statement with
  | elements operation className renamed =>
      refine .code ?_
      rw [charsOf_relativeImport]
      cases renamed <;> simp [Line.renamedPieces, Piece.chars]
  | _ => exact .nil 2

theorem prints_statementLines (attr : String) (statement : Statement) :
    Prints 2 ((statementLines attr statement).map ("        " ++ ·))
      [statementTree attr statement] := by
  cases statement with
  | oneOf operation values =>
      refine .folded ?_
      have hlines : (statementLines attr (.oneOf operation values)).map ("        " ++ ·) =
          ["        self." ++ operation ++ "(" ++ attr ++ ", ["] ++
            values.map (fun value => "        " ++ indent (literalText value ++ ",")) ++
              ["        ])"] := by
        simp [statementLines, ← String.append_assoc]
      rw [hlines, toList_unlines_rows 12 Expr.ofLiteral]
      · simp [Line.pieces, charsOf_callOf, charsOf_nameOf, Expr.row, Expr.rowRest, Expr.pieces,
          Piece.chars]
      · intro value _
        simp [indent, charsOf_ofLiteral]
  | _ =>
      refine .code ?_
      simp [Line.pieces, charsOf_callOf, charsOf_nameOf, charsOf_ofLiteral, Expr.row, Expr.rowRest,
        Piece.chars]

end ClassModule

section Typed

variable {typed : String → Expr}

theorem prints_fieldLines {field : FieldCode}
    (h : charsOf (typed field.annotation).pieces = field.annotation.toList) :
    Prints 1 (ClassModule.fieldLines field) (fieldTrees typed field) := by
  refine .append (.append (.silent rfl) (.map fun _ _ => .silent rfl)) (.code ?_)
  simp [indent, Line.pieces, Piece.chars, h]

theorem prints_setterLines {className : String} {setter : SetterCode}
    (h : charsOf (typed setter.parameterType).pieces = setter.parameterType.toList) :
    Prints 1 (ClassModule.setterLines className setter) (setterTrees typed className setter) := by
  unfold ClassModule.setterLines setterTrees
  simp only [List.cons_append, List.nil_append]
  refine .cons (.silent rfl) (.block ?_ ?_)
  · simp [Head.pieces, Head.receiverPieces, Parameter.pieces, Expr.receiver, Expr.pieces,
      Piece.chars, charsOf_nameOf, h]
  · rw [List.map_filterMap, List.map_flatMap, List.map_eq_flatMap]
    refine .append (.append (.append (.filterMap fun statement _ => ?_)
      (.ite (fun _ => .nil 2) fun _ => .silent rfl)) (.flatMap fun statement _ => ?_))
        (.cons (.code ?_) (.code rfl))
    · exact ClassModule.prints_setterImport statement
    · exact ClassModule.prints_statementLines setter.attr statement
    · simp [Line.pieces, Expr.stored, Expr.receiver, Expr.pieces, Piece.chars, charsOf_nameOf]

/-- The text of a module is the one of its trees, if that holds of the type texts in it. -/
theorem ClassModule.toList_text {module : ClassModule}
    (hfields : ∀ field ∈ module.fields,
      charsOf (typed field.annotation).pieces = field.annotation.toList)
    (hsetters : ∀ setter ∈ module.setters,
      charsOf (typed setter.parameterType).pieces = setter.parameterType.toList) :
    module.text.toList = Tree.text (module.trees typed) := by
  have hmembers : Prints 1 (module.documentationLines ++ module.constantLines ++ [""] ++
      module.nameTableLines ++ module.fields.flatMap fieldLines ++ module.initLines ++
      module.setters.flatMap (setterLines module.name) ++ module.exportLines)
      (module.memberTrees typed) := by
    have hbefore : Prints 1 (module.documentationLines ++ module.constantLines ++ [""] ++
        module.nameTableLines) ([module.documentationTree] ++ module.constantTrees ++
          [.silent []] ++ [module.nameTableTree]) :=
      .append (.append (.append prints_documentationLines prints_constantLines) (.silent rfl))
        prints_nameTableLines
    have hdeclared : Prints 1 (module.fields.flatMap fieldLines)
        (module.fields.flatMap (fieldTrees typed)) :=
      .flatMap fun field hfield => prints_fieldLines (hfields field hfield)
    have hchecked : Prints 1 (module.setters.flatMap (setterLines module.name))
        (module.setters.flatMap (setterTrees typed module.name)) :=
      .flatMap fun setter hsetter => prints_setterLines (hsetters setter hsetter)
    exact .append (.append (.append (.append hbefore hdeclared) prints_initLines) hchecked)
      prints_exportLines
  have hclass : Prints 0 module.classLines [module.classTree typed] := by
    unfold classLines
    simp only [List.append_assoc, List.cons_append, List.nil_append]
    simp only [List.append_assoc, List.cons_append, List.nil_append] at hmembers
    refine .decorated rfl (.block ?_ hmembers)
    simp [Head.pieces, Piece.chars]
  exact Prints.append (.append (.append (prints_headingLines module.heading) prints_importLines)
    (.cons (.silent rfl) (.silent rfl))) hclass

end Typed

theorem toList_packageText (heading classNames : List String) :
    (packageText heading classNames).toList = Tree.text (packageTrees heading classNames) := by
  have hnames : Prints 0 (["__all__ = ["] ++ classNames.map (fun name => "    \"" ++ name ++ "\",") ++
      ["]"]) [.code (.assign "__all__".toList
        (.list (some 0) (classNames.map fun name => .quoted name.toList)))] := by
    refine .folded ?_
    rw [toList_unlines_rows 4 fun name : String => .quoted name.toList]
    · simp [Line.pieces, Expr.pieces, Piece.chars]
    · intro name _
      simp [Expr.pieces, Piece.chars]
  have hlines := Prints.append (prints_headingLines heading)
    (Prints.append (.map fun name (_ : name ∈ classNames) => prints_importTree name)
      (.cons (.silent (show "".toList = [] from rfl)) hnames))
  simpa [Prints, packageText, packageTrees, Tree.text] using hlines

end Printing

end ModelMint.Emit
