import ModelMint.Emit.Text
import ModelMint.Notice
import ModelMint.Settings.Basic
import ModelMint.Source.Validity

/-!
# Packages

A package has a file for each definition of a document that yields a class, and one that
makes the classes available.  A definition that fails is reported, and the run goes on
with the next one unless the settings say otherwise.
-/

namespace ModelMint

open ModelMint.Schema
open ModelMint.Blueprint

structure Package where
  /-- File names with their texts. -/
  files : List (String × String) := []
  /-- The modules of the classes, in the order of the document. -/
  modules : List Emit.ClassModule := []
  failures : List Failure := []

namespace Package

def classes (package : Package) : List String := package.modules.map (·.name)

def ok (package : Package) : Bool := package.failures.isEmpty

def fileOf (className : String) : String := className ++ ".py"

def packageFile : String := "__init__.py"

/-! ## One class -/

/-- The lines of a heading: the items of a list, or the characters of a text. -/
def headingLines (heading : Json) : Except Fault (List String) :=
  if !heading.truthy then .ok []
  else match heading with
    | .str text => .ok (text.toList.map fun c => String.ofList [c])
    | .arr items => .ok (items.map Emit.plainText)
    | .obj members => .ok (Entries.keys members)
    | _ => .error .unsuitable

def compose (settings : Settings) (heading : Json) (document : Document)
    (definition : Definition) : Except Stop Emit.ClassModule := do
  let plan ← Plan.ofDefinition document settings.wrapWidth definition
  let lines ← Stop.ofFault (headingLines heading)
  Stop.ofFault (Emit.ClassModule.ofPlan settings.base lines plan)

/-- Where the settings ask for it, only valid source is let through. -/
def checkSource (settings : Settings) (definition : Definition) (source : String) :
    Except Stop Unit :=
  if !settings.output.validate.truthy then .ok ()
  else match Source.validate source with
    | .error fault => .error (.fault fault)
    | .ok none => .ok ()
    | .ok (some failure) => .error (.failure (failure.inContext
        { definition := some definition.name, path := some definition.path }))

/-- A class as far as it got. -/
structure Attempt where
  composed : Bool
  module : Except Stop Emit.ClassModule

def attempt (settings : Settings) (heading : Json) (document : Document)
    (entry : Except Failure Definition) : Attempt :=
  match entry with
  | .error failure => ⟨false, .error (.failure failure)⟩
  | .ok definition => match compose settings heading document definition with
    | .error stop => ⟨false, .error stop⟩
    | .ok module => ⟨true, (checkSource settings definition module.text).map fun _ => module⟩

/-! ## The run -/

/-- Whether the settings leave a definition out: a list names whole names, a text is searched for
the name, and of an object the keys count. -/
def isIgnored (ignored : Json) (name : String) : Except Fault Bool :=
  match ignored with
  | .arr items => .ok (items.any (·.str? == some name))
  | .str text => .ok (Text.occursIn name.toList text.toList)
  | .obj members => .ok (Entries.contains name members)
  | _ => .error .unsuitable

def formatterNotice : Notice where
  level := .warning
  reporter := .formatter
  text := "Formatting requested but black is not installed; " ++
    "install json_schema_to_model[format]"

structure Run where
  package : Package := {}
  notices : List Notice := []

/-- A formatter that is asked for and missing is reported once. -/
def Run.noteFormatter (settings : Settings) (run : Run) : Run :=
  if settings.formatter.enabled.truthy && !run.notices.contains formatterNotice then
    { run with notices := run.notices ++ [formatterNotice] }
  else run

def Run.addClass (module : Emit.ClassModule) (run : Run) : Run :=
  { run with package := { run.package with
    files := Entries.insert (fileOf module.name) module.text run.package.files
    modules := run.package.modules ++ [module] } }

def Run.addFailure (name : String) (failure : Failure) (run : Run) : Run where
  package := { run.package with failures := run.package.failures ++ [failure] }
  notices := run.notices ++
    [{ level := .error, text := "Failed to generate " ++ name ++ ": " ++ failure.message }]

/-- A run that stops keeps what it reported before. -/
structure Halt where
  notices : List Notice
  stop : Stop

def Run.halt {α : Type} (run : Run) (stop : Stop) : Except Halt α :=
  .error ⟨run.notices, stop⟩

def Run.define (settings : Settings) (heading : Json) (document : Document) (name : String)
    (entry : Except Failure Definition) (run : Run) : Except Halt Run :=
  let attempt := attempt settings heading document entry
  let run := if attempt.composed then run.noteFormatter settings else run
  match attempt.module with
  | .ok module => .ok (run.addClass module)
  | .error (.fault fault) => run.halt (.fault fault)
  | .error (.failure failure) =>
    if settings.failFast.truthy then run.halt (.failure failure)
    else .ok (run.addFailure name failure)

/-- Whatever is no comment has an entry in the document. -/
def Run.step (settings : Settings) (heading : Json) (document : Document) (run : Run)
    (name : String) : Except Halt Run :=
  match isIgnored settings.ignored name with
  | .error fault => run.halt (.fault fault)
  | .ok true => .ok run
  | .ok false => match Entries.get? name document.entries with
    | none => .ok run
    | some entry => run.define settings heading document name entry

def Run.finish (settings : Settings) (heading : Json) (run : Run) : Except Halt Run :=
  if !settings.packageFile.truthy then .ok run
  else match headingLines heading with
    | .error fault => run.halt (.fault fault)
    | .ok lines =>
      let run := run.noteFormatter settings
      let text := Emit.packageText lines run.package.classes
      .ok { run with package := { run.package with
        files := Entries.insert packageFile text run.package.files } }

/-- The keys of the definitions, comments included. -/
def definitionNames (schema : Json) : List String :=
  match schema.get? "definitions" with
  | some (.obj members) => Entries.keys members
  | _ => []

def generate (settings : Settings) (comment : Json) (schema : Json) : Except Halt Run :=
  match Document.read schema with
  | .error failure => Run.halt {} (.failure failure)
  | .ok document => do
    let heading := if settings.comment.truthy then comment else .null
    let run ← (definitionNames schema).foldlM (Run.step settings heading document) {}
    run.finish settings heading

end Package

end ModelMint
