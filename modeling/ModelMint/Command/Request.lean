import ModelMint.Command.Arguments
import ModelMint.Delivery

/-!
# Requests

Arguments become a request where their paths fit the disk: the schema and the settings
have to be there, the schema may not be a directory and the output may not be a file.
A request can be written as a line that does not depend on where it was made.
-/

namespace ModelMint.Command

structure Request where
  config : Option Place := none
  baseModule : Option String := none
  baseClass : Option String := none
  force : Option Bool := none
  failFast : Bool := false
  format : Bool := false
  verbose : Bool := false
  schema : Place
  output : Place
deriving DecidableEq, Repr

/-! ## Making a request -/

/-- Why arguments make no request: they are not as they should be, or a path is none. -/
inductive Refusal where
  | usage
  | fault (fault : Fault)
deriving DecidableEq, Repr

/-- The place that an argument names, and what is there. -/
def placeOf (disk : Disk) (text : String) : Except Refusal (Place × Option DiskEntry) :=
  let path := Path.read text
  if path.holdsNul then .error (.fault .nulCharacter)
  else
    let place := Place.resolve disk.here path
    .ok (place, (disk.look place.path).toOption)

/-- Something has to be there. -/
def configPlace (disk : Disk) (text : String) : Except Refusal Place := do
  match ← placeOf disk text with
  | (place, some _) => .ok place
  | (_, none) => .error .usage

def schemaPlace (disk : Disk) (text : String) : Except Refusal Place := do
  match ← placeOf disk text with
  | (place, some (.file _)) => .ok place
  | _ => .error .usage

def outputPlace (disk : Disk) (text : String) : Except Refusal Place := do
  match ← placeOf disk text with
  | (_, some (.file _)) => .error .usage
  | (place, _) => .ok place

def Request.ofArguments (disk : Disk) (arguments : Arguments) : Except Refusal Request := do
  let config ← match arguments.config with
    | none => pure none
    | some text => (configPlace disk text).map some
  match arguments.positional with
  | [] => .error .usage
  | schema :: others =>
    let schema ← schemaPlace disk schema
    match others with
    | [] => .error .usage
    | output :: extra =>
      let output ← outputPlace disk output
      if !extra.isEmpty then .error .usage
      else
        .ok {
          config, schema, output
          baseModule := arguments.baseModule
          baseClass := arguments.baseClass
          force := arguments.force
          failFast := arguments.failFast
          format := arguments.format
          verbose := arguments.verbose
        }

/-! ## The recorded line -/

def lastName (place : Place) : String := place.getLast?.getD ""

/-- A value that is a path of the disk, or starts at the root, is recorded by its last name. -/
def recordedValue (disk : Disk) (value : String) : Except Fault String :=
  let path := Path.read value
  if path.fromRoot then .ok path.name
  else (disk.holds path).map fun holds => if holds then path.name else value

/-- Empty values are not recorded. -/
def recordedOption (disk : Disk) (name : String) (value : Option String) :
    Except Fault (List String) :=
  match value with
  | none => .ok []
  | some value =>
    if value.isEmpty then .ok []
    else (recordedValue disk value).map fun text => [name, text]

/-- The line holds what decides the files: neither how much is reported nor what goes without
saying. -/
def Request.line (disk : Disk) (request : Request) : Except Fault String := do
  let baseModule ← recordedOption disk "--base-module" request.baseModule
  let baseClass ← recordedOption disk "--base-class" request.baseClass
  .ok (" ".intercalate ([programName, lastName request.schema, lastName request.output] ++
    (match request.config with
      | none => []
      | some place => ["--config", lastName place]) ++
    baseModule ++ baseClass ++
    (if request.force = some true then ["--force"] else []) ++
    (if request.failFast then ["--fail-fast"] else []) ++
    (if request.format then ["--format"] else [])))

/-- The line where there is no request. -/
def bareLine : String := programName

end ModelMint.Command
