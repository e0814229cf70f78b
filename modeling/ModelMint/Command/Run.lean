import ModelMint.Command.Request

/-!
# Running the command

The settings come from a file or are the standard ones; options of the command line go
before both.  Reports below a warning are shown only on demand.
-/

namespace ModelMint.Command

/-- How a run of the command ended; texts that explain the usage are not part of it. -/
structure Ending where
  disk : Disk
  status : Nat
  output : Option String := none
  fault : Option Fault := none

namespace Request

def loadSettings (disk : Disk) (place : Place) : Except Fault Settings := do
  let text ← disk.readText place.path
  match Json.read text.toList with
  | .ok document => Settings.read document
  | .error .malformed => .error .notJson
  | .error .tooManyDigits => .error .tooManyDigits

/-- The options of the command line in place of what the settings say. -/
def override (request : Request) (settings : Settings) : Settings :=
  let base := { settings.base with
    module := (request.baseModule.map Json.str).getD settings.base.module
    className := (request.baseClass.map Json.str).getD settings.base.className }
  let output := match request.force with
    | none => settings.output
    | some force => { settings.output with mode := if force then .force else .error }
  { settings with
    base, output
    failFast := if request.failFast then .bool true else settings.failFast
    formatter := if request.format then { settings.formatter with enabled := .bool true }
      else settings.formatter }

def settings (disk : Disk) (request : Request) : Except Fault Settings :=
  match request.config with
  | none => .ok (request.override {})
  | some place => (loadSettings disk place).map request.override

def heading (disk : Disk) (request : Request) : Except Fault Json :=
  (request.line disk).map fun line => .arr [
    .str ("Generated by " ++ programName ++ " " ++ programVersion ++ ", do not edit by hand."),
    .str line]

def shows (request : Request) (notice : Notice) : Bool :=
  request.verbose || notice.level != .info

def shownNotices (request : Request) (notices : List Notice) : String :=
  String.join ((notices.filter request.shows).map fun notice => notice.fullLine ++ "\n")

def failureLine : String := "Model generation failed, see the errors above.\n"

def run (disk : Disk) (request : Request) : Ending :=
  let prepared := do
    let settings ← request.settings disk
    let heading ← request.heading disk
    .ok (settings, heading)
  match prepared with
  | .error fault => { disk, status := 1, output := some "", fault := some fault }
  | .ok (settings, heading) =>
    let outcome := deliver settings (some heading) request.schema.path.text
      request.output.path.text disk
    let shown := request.shownNotices outcome.notices
    match outcome.status with
    | .error fault =>
      { disk := outcome.disk, status := 1, output := some shown, fault := some fault }
    | .ok status => {
        disk := outcome.disk
        status
        output := some (if status = 0 then shown else shown ++ failureLine) }

end Request

def versionLine : String := "json-schema-to-model, version " ++ programVersion ++ "\n"

def usageStatus : Nat := 2

def runArguments (disk : Disk) (arguments : Arguments) : Ending :=
  match arguments.inquiry with
  | some .version => { disk, status := 0, output := some versionLine }
  | some _ => { disk, status := 0 }
  | none => match Request.ofArguments disk arguments with
    | .error .usage => { disk, status := usageStatus }
    | .error (.fault fault) => { disk, status := 1, output := some "", fault := some fault }
    | .ok request => request.run disk

def run (disk : Disk) (arguments : List String) : Ending :=
  match Arguments.read arguments with
  | none => { disk, status := usageStatus }
  | some arguments => runArguments disk arguments

end ModelMint.Command
