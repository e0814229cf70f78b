import ModelMint.Settings.BaseNames

/-!
# Settings

Settings are read from an object, entry by entry; an entry that names no setting is
passed over.  Values are kept as they come and are judged where they are used.
-/

namespace ModelMint

/-- What happens to a class file that is there already. -/
inductive OutputMode where
  | force
  | error
deriving DecidableEq, Repr

namespace OutputMode

def name : OutputMode → String
  | .force => "force"
  | .error => "error"

def read (value : Json) : Except Fault OutputMode :=
  match value with
  | .str "force" => .ok .force
  | .str "error" => .ok .error
  | other => .error (.invalidMode (String.ofList other.shown))

end OutputMode

structure OutputSettings where
  mode : OutputMode := .force
  validate : Json := .bool true
deriving DecidableEq

structure FormatterSettings where
  enabled : Json := .bool false
  lineLength : Json := .int 120
  targetVersion : Json := .str "py312"
  stringNormalization : Json := .bool true
  magicTrailingComma : Json := .bool true
deriving DecidableEq

structure Settings where
  ignored : Json := .arr []
  base : BaseNames := {}
  wrapWidth : Json := .int 120
  comment : Json := .bool true
  packageFile : Json := .bool true
  failFast : Json := .bool false
  output : OutputSettings := {}
  formatter : FormatterSettings := {}
  /-- Whether an entry has hidden the writing of the settings. -/
  writeHidden : Bool := false
  /-- Parts that an entry has taken away, and what comes of asking for them. -/
  missing : List (String × Fault) := []
deriving DecidableEq

/-! ## Reading -/

def OutputSettings.read (value : Json) : Except Fault OutputSettings := do
  let members ← membersOf "get" value
  let mode ← OutputMode.read ((Entries.get? "mode" members).getD (.str "force"))
  .ok { mode, validate := (Entries.get? "validate_before_write" members).getD (.bool true) }

/-- Unlike the other settings, those of the formatter have to be known. -/
def FormatterSettings.set (settings : FormatterSettings) (key : String) (value : Json) :
    Except Fault FormatterSettings :=
  match key with
  | "enabled" => .ok { settings with enabled := value }
  | "line_length" => .ok { settings with lineLength := value }
  | "target_version" => .ok { settings with targetVersion := value }
  | "string_normalization" => .ok { settings with stringNormalization := value }
  | "magic_trailing_comma" => .ok { settings with magicTrailingComma := value }
  | _ => .error .unsuitable

def FormatterSettings.read (value : Json) : Except Fault FormatterSettings :=
  match value with
  | .obj members =>
    members.foldlM (fun settings (key, value) => settings.set key value) {}
  | _ => .error .unsuitable

namespace Settings

def setPlain (settings : Settings) (key : String) (value : Json) : Settings :=
  match key with
  | "ignore_classes" => { settings with ignored := value }
  | "wrap_width" => { settings with wrapWidth := value }
  | "add_generation_comment" => { settings with comment := value }
  | "write_package_init" => { settings with packageFile := value }
  | "fail_fast" => { settings with failFast := value }
  | "to_dict" => { settings with writeHidden := true }
  | _ => settings

/-- The parts that are there only once they have been set, with what is asked of those that are not
plain values. -/
def parts : List (String × Option String) := [
  ("ignore_classes", none), ("base", some "to_dict"), ("output", some "mode"),
  ("formatter", some "enabled")
]

/-- Why a part can not be used where it is given as it stands. -/
def missingPart? (given : List (String × Json)) (part : String × Option String) :
    Option (String × Fault) :=
  match Entries.get? part.1 given, part.2 with
  | none, _ => some (part.1, .noMember "CodeGeneratorConfig" part.1)
  | some value, some operation => some (part.1, .noMember value.typeName operation)
  | some _, none => none

/-- One entry gives all settings at once. -/
def ofGiven (given : List (String × Json)) : Settings :=
  let first : Settings := { missing := parts.filterMap (missingPart? given) }
  given.foldl (fun settings entry => settings.setPlain entry.1 entry.2) first

def isMissing (settings : Settings) (part : String) : Bool := Entries.contains part settings.missing

def found (settings : Settings) (part : String) : Settings :=
  { settings with missing := settings.missing.filter (·.1 != part) }

def set (settings : Settings) (key : String) (value : Json) : Except Fault Settings :=
  match key, value with
  | "base", _ => (BaseNames.read value).map fun base => { settings.found key with base }
  | "output", _ => (OutputSettings.read value).map fun output => { settings.found key with output }
  | "formatter", _ =>
    (FormatterSettings.read value).map fun formatter => { settings.found key with formatter }
  | "__dict__", .obj given => .ok (ofGiven given)
  | _, _ => match refusedEntry? key value with
    | some fault => .error fault
    | none => .ok (if settings.isMissing key then settings else settings.setPlain key value)

def read (value : Json) : Except Fault Settings := do
  (← membersOf "items" value).foldlM (fun settings (key, value) => settings.set key value) {}

/-! ## Writing -/

def writeOutput (settings : OutputSettings) : Json := .obj [
  ("mode", .str settings.mode.name),
  ("validate_before_write", settings.validate)
]

def writeFormatter (settings : FormatterSettings) : Json := .obj [
  ("enabled", settings.enabled),
  ("line_length", settings.lineLength),
  ("target_version", settings.targetVersion),
  ("string_normalization", settings.stringNormalization),
  ("magic_trailing_comma", settings.magicTrailingComma)
]

def ask (settings : Settings) (part : String) : Except Fault Unit :=
  match Entries.get? part settings.missing with
  | some fault => .error fault
  | none => .ok ()

def entries (settings : Settings) (base : Json) : List (String × Json) := [
  ("ignore_classes", settings.ignored),
  ("base", base),
  ("wrap_width", settings.wrapWidth),
  ("add_generation_comment", settings.comment),
  ("write_package_init", settings.packageFile),
  ("fail_fast", settings.failFast),
  ("output", writeOutput settings.output),
  ("formatter", writeFormatter settings.formatter)
]

def write (settings : Settings) : Except Fault Json :=
  if settings.writeHidden then .error .unsuitable
  else do
    settings.ask "ignore_classes"
    settings.ask "base"
    let base ← settings.base.write
    settings.ask "output"
    settings.ask "formatter"
    .ok (.obj (settings.entries base))

/-- The settings alone, with nothing hidden. -/
def visible (settings : Settings) : Settings :=
  { settings with base := settings.base.visible, writeHidden := false, missing := [] }

/-- Whether what is written reads back as the same settings; what is hidden is not written. -/
def readsBack (settings : Settings) : Except Fault Bool := do
  let again ← read (← settings.write)
  .ok (decide (again = settings.visible))

end Settings

end ModelMint
