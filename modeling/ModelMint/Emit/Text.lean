import ModelMint.Emit.ClassModule
import ModelMint.Source.Literal

/-!
# Modules as text

Each part of a module is a list of lines, and the text is the lines with an end after
each.  A line that holds a line end itself, as a free type name may, counts as one here.
-/

namespace ModelMint.Emit

open ModelMint.Blueprint

def literalText (value : Json) : String := String.ofList (Source.literal value)

def indent (line : String) : String := "    " ++ line

def unlines (lines : List String) : String := String.join (lines.map (· ++ "\n"))

theorem unlines_append (first second : List String) :
    unlines (first ++ second) = unlines first ++ unlines second := by
  simp [unlines, String.join_append]

theorem toList_unlines_cons (line : String) (rest : List String) :
    (unlines (line :: rest)).toList = line.toList ++ '\n' :: (unlines rest).toList := by
  simp [unlines, String.join_cons]

theorem toList_unlines (lines : List String) :
    (unlines lines).toList = lines.flatMap fun line => line.toList ++ ['\n'] := by
  induction lines with
  | nil => rfl
  | cons line rest ih => simp [toList_unlines_cons, ih]

/-- What stands at the top of a file, and an empty line below it. -/
def headingLines (heading : List String) : List String :=
  if heading.isEmpty then [] else heading.map ("# " ++ ·) ++ [""]

def importLine (name : String) : String := "from ." ++ name ++ " import " ++ name

namespace ClassModule

def importLines (module : ClassModule) : List String :=
  let names := (if module.references.isEmpty then [] else ["TYPE_CHECKING"]) ++
    ["Any", "ClassVar", "final"]
  ["from __future__ import annotations", ""] ++
    (if module.usesMoment then ["from datetime import datetime"] else []) ++
    ["from typing import " ++ ", ".intercalate names, "",
      "from " ++ module.baseModule ++ " import " ++ module.baseClass] ++
    (if module.references.isEmpty then []
      else ["", "if TYPE_CHECKING:"] ++ module.references.map (indent ∘ importLine))

def documentationLines (module : ClassModule) : List String :=
  ["    \"\"\""] ++
    module.documentation.map (fun line => if line.isEmpty then "" else indent line) ++
    ["    \"\"\""]

def constantLine (constant : Constant) : String :=
  indent (constant.name ++ " = " ++ literalText constant.value)

def constantLines (module : ClassModule) : List String :=
  if module.constants.isEmpty then [] else "" :: module.constants.map constantLine

def nameTableLines (module : ClassModule) : List String :=
  let head := "    _FIELDS: ClassVar[dict[str, str]] = \x7b"
  if module.fields.isEmpty then [head ++ "\x7d"]
  else
    [head] ++
      module.fields.map (fun field =>
        "        " ++ literalText (.str field.attr) ++ ": " ++ literalText (.str field.name) ++
          ",") ++
      ["    \x7d"]

def fieldLines (field : FieldCode) : List String :=
  [""] ++ field.comment.map ("    #: " ++ ·) ++ [indent (field.attr ++ ": " ++ field.annotation)]

def startText : Start → String
  | .literal value => literalText value
  | .parsed operation value => "self." ++ operation ++ "(" ++ literalText value ++ ")"

def startLine? (field : FieldCode) : Option String :=
  field.start.map fun start => "        self." ++ field.attr ++ " = " ++ startText start

def initLines (module : ClassModule) : List String :=
  ["", "    def __init__(self, **values: Any) -> None:"] ++
    module.fields.filterMap startLine? ++
    ["        super().__init__(**values)"]

/-- The name under which a setter knows an imported class. -/
def localName (className : String) (renamed : Bool) : String :=
  if renamed then "_" ++ className else className

def setterImport? : Statement → Option String
  | .elements _ className renamed =>
    some (importLine className ++ if renamed then " as " ++ localName className true else "")
  | _ => none

def statementLines (attr : String) : Statement → List String
  | .elements operation className renamed =>
    ["self." ++ operation ++ "(" ++ attr ++ ", " ++ localName className renamed ++ ")"]
  | .within operation minimum maximum =>
    ["self." ++ operation ++ "(" ++ attr ++ ", " ++ literalText minimum ++ ", " ++
      literalText maximum ++ ")"]
  | .moment operation => [attr ++ " = self." ++ operation ++ "(" ++ attr ++ ")"]
  | .oneOf operation values =>
    ["self." ++ operation ++ "(" ++ attr ++ ", ["] ++
      values.map (fun value => indent (literalText value ++ ",")) ++ ["])"]

def setterLines (className : String) (setter : SetterCode) : List String :=
  let imports := setter.statements.filterMap setterImport?
  ["", "    def set_" ++ setter.attr ++ "(self, " ++ setter.attr ++ ": " ++
      setter.parameterType ++ ") -> " ++ className ++ ":"] ++
    imports.map ("        " ++ ·) ++
    (if imports.isEmpty then [] else [""]) ++
    (setter.statements.flatMap (statementLines setter.attr)).map ("        " ++ ·) ++
    ["        self." ++ setter.attr ++ " = " ++ setter.attr, "        return self"]

def exportText (field : FieldCode) : String :=
  let stored := "self.get_" ++ field.attr ++ "()"
  match field.exported with
  | some operation => "self." ++ operation ++ "(" ++ stored ++ ")"
  | none => stored

def exportLines (module : ClassModule) : List String :=
  let head := "        return \x7b"
  ["", "    def to_dict(self) -> dict[str, Any]:"] ++
    if module.fields.isEmpty then [head ++ "\x7d"]
    else
      [head] ++
        module.fields.map (fun field =>
          "            " ++ literalText (.str field.name) ++ ": " ++ exportText field ++ ",") ++
        ["        \x7d"]

def classLines (module : ClassModule) : List String :=
  ["@final", "class " ++ module.name ++ "(" ++ module.baseClass ++ "):"] ++
    module.documentationLines ++ module.constantLines ++ [""] ++ module.nameTableLines ++
    module.fields.flatMap fieldLines ++ module.initLines ++
    module.setters.flatMap (setterLines module.name) ++ module.exportLines

def text (module : ClassModule) : String :=
  unlines (headingLines module.heading ++ module.importLines ++ ["", ""] ++ module.classLines)

end ClassModule

/-! ## The file of the package -/

/-- Makes every class of the package available from the package itself. -/
def packageText (heading : List String) (classNames : List String) : String :=
  unlines (headingLines heading ++ classNames.map importLine ++ ["", "__all__ = ["] ++
    classNames.map (fun name => "    \"" ++ name ++ "\",") ++ ["]"])

end ModelMint.Emit
