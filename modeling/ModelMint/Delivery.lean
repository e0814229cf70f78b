import ModelMint.Disk.Write
import ModelMint.Json.Reader
import ModelMint.Package

/-!
# Deliveries

The package of a schema file is delivered to a directory, a file at a time.  A file that
may not be written counts as a failure of its definition, and the others are written all
the same; where the disk itself fails the delivery ends.
-/

namespace ModelMint

open ModelMint.Schema
open ModelMint.Blueprint

/-! ## Source files -/

namespace Disk

/-- Where asked for, only valid source is written. -/
def writeSource (disk : Disk) (path : Path) (text : String) (validate : Bool) : Change Stop :=
  let written : Change Stop :=
    let change := disk.writeText path text
    ⟨change.disk, Stop.ofFault change.result⟩
  if !validate then written
  else match Source.validate text with
    | .error fault => .refuse disk (.fault fault)
    | .ok (some failure) =>
      .refuse disk (.failure (failure.inContext { path := some path.text }))
    | .ok none => written

/-- A path that is taken, whatever by, is left alone. -/
def writeNewSource (disk : Disk) (path : Path) (text : String) (validate : Bool) : Change Stop :=
  match disk.holds path with
  | .error fault => .refuse disk (.fault fault)
  | .ok true => .refuse disk (.failure {
      cause := .unwritable (.fileExists path.text), context := { path := some path.text } })
  | .ok false => disk.writeSource path text validate

end Disk

/-! ## Packages -/

/-- What was done so far. -/
structure Delivery where
  disk : Disk
  notices : List Notice := []
  failures : List Failure := []

namespace Delivery

def report (level : Level) (text : String) (delivery : Delivery) : Delivery :=
  { delivery with notices := delivery.notices ++ [{ level, text }] }

/-- The file of the package is always written anew. -/
def writeFile (settings : Settings) (path : Path) (source : String) (disk : Disk) :
    Disk.Change Stop :=
  if settings.output.mode = .error && path.name != Package.packageFile then
    disk.writeNewSource path source false
  else disk.writeSource path source false

def addFile (settings : Settings) (output : Path) (file : String × String)
    (delivery : Delivery) : Delivery × Except Fault Unit :=
  let path := output.child file.1
  let change := writeFile settings path file.2 delivery.disk
  let next := { delivery with disk := change.disk }
  match change.result with
  | .ok () => (next.report .info ("Wrote " ++ path.text), .ok ())
  | .error (.fault fault) => (next, .error fault)
  | .error (.failure failure) =>
    let definition := Path.stem file.1
    let next := next.report .error
      ("Failed to write " ++ definition ++ ": " ++ failure.message)
    let failure := failure.inContext { definition := some definition }
    ({ next with failures := next.failures ++ [failure] }, .ok ())

def addFiles (settings : Settings) (output : Path) :
    List (String × String) → Delivery → Delivery × Except Fault Unit
  | [], delivery => (delivery, .ok ())
  | file :: rest, delivery => match addFile settings output file delivery with
    | (delivery, .ok ()) => addFiles settings output rest delivery
    | (delivery, .error fault) => (delivery, .error fault)

end Delivery

/-! ## From a schema file -/

/-- The name of the program as it stands in files and on the command line. -/
def programName : String := "json_schema_to_model"

def programVersion : String := "1.0.0"

/-- What stands at the top of a file if nothing else is asked for. -/
def standardHeading (schemaPath : String) : Json := .arr [
  .str ("Generated by " ++ programName ++ " " ++ programVersion ++ " from " ++
    (Path.read schemaPath).name ++ "."),
  .str "Do not edit by hand, changes will be lost on the next generation."
]

/-- The status is 0 only if every definition has its file. -/
structure Outcome where
  disk : Disk
  notices : List Notice
  status : Except Fault Nat

inductive Load where
  | loaded (document : Json)
  /-- There is no such file, or it holds no document. -/
  | unreadable
  | broken (fault : Fault)

/-- A disk that gives no content is reported; content that is no text is a fault. -/
def loadSchema (disk : Disk) (path : Path) : Load :=
  match disk.read path with
  | .error .nulCharacter => .broken .nulCharacter
  | .error _ => .unreadable
  | .ok content => match Disk.decode content with
    | .error fault => .broken fault
    | .ok text => match Json.read text.toList with
      | .ok document => .loaded document
      | .error .malformed => .unreadable
      | .error .tooManyDigits => .broken .tooManyDigits

def definitionOf (failure : Failure) : String := failure.context.definition.getD "None"

def Delivery.finish (output : String) (package : Package) (delivery : Delivery) : Outcome :=
  if delivery.failures.isEmpty then
    let done := delivery.report .info ("Generated " ++ toString package.classes.length ++
      " model(s) in " ++ output)
    ⟨done.disk, done.notices, .ok 0⟩
  else
    let done := delivery.report .error (toString delivery.failures.length ++
      " definition(s) failed: " ++ ", ".intercalate (delivery.failures.map definitionOf))
    ⟨done.disk, done.notices, .ok 1⟩

def deliverDocument (settings : Settings) (heading schema : Json) (output : String)
    (disk : Disk) : Outcome :=
  match Package.generate settings heading schema with
  | .error halt => match halt.stop with
    | .fault fault => ⟨disk, halt.notices, .error fault⟩
    | .failure failure =>
      let aborted := { level := .error, text := "Generation aborted: " ++ failure.message }
      ⟨disk, halt.notices ++ [aborted], .ok 1⟩
  | .ok run =>
    let start : Delivery := ⟨disk, run.notices, run.package.failures⟩
    match Delivery.addFiles settings (Path.read output) run.package.files start with
    | (delivery, .error fault) => ⟨delivery.disk, delivery.notices, .error fault⟩
    | (delivery, .ok ()) => delivery.finish output run.package

def deliver (settings : Settings) (heading : Option Json) (schemaPath output : String)
    (disk : Disk) : Outcome :=
  match loadSchema disk (Path.readAsGiven schemaPath) with
  | .broken fault => ⟨disk, [], .error fault⟩
  | .unreadable =>
    ⟨disk, [{ level := .error, text := "Cannot load schema " ++ schemaPath }], .ok 1⟩
  | .loaded schema =>
    deliverDocument settings (heading.getD (standardHeading schemaPath)) schema output disk

end ModelMint
