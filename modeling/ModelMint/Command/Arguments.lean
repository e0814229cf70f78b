/-!
# Arguments

Options stand anywhere among the arguments; `--` ends them.  A value follows its option
as the next argument, behind `=` in the long form or directly in the short form, and
short options may share one dash.  Of an option that comes again the last value counts.
-/

namespace ModelMint.Command

inductive Switch where
  | config
  | baseModule
  | baseClass
  | force
  | noForce
  | failFast
  | format
  | verbose
  | version
  | help
deriving DecidableEq, Repr

namespace Switch

def ofLong? (name : String) : Option Switch :=
  match name with
  | "--config" => some .config
  | "--base-module" => some .baseModule
  | "--base-class" => some .baseClass
  | "--force" => some .force
  | "--no-force" => some .noForce
  | "--fail-fast" => some .failFast
  | "--format" => some .format
  | "--verbose" => some .verbose
  | "--version" => some .version
  | "--help" => some .help
  | _ => none

def ofShort? : Char → Option Switch
  | 'c' => some .config
  | 'v' => some .verbose
  | _ => none

def takesValue : Switch → Bool
  | .config | .baseModule | .baseClass => true
  | _ => false

end Switch

/-! ## Reading -/

inductive Item where
  | switch (switch : Switch)
  | setting (switch : Switch) (value : String)
  | positional (text : String)
deriving DecidableEq, Repr

/-- The items of one argument, and the option that waits for its value in the next one. -/
structure Reading where
  items : List Item := []
  pending : Option Switch := none

/-- Options that share a dash; what follows one that takes a value is its value. -/
def readShort : List Char → Option Reading
  | [] => some {}
  | c :: rest => match Switch.ofShort? c with
    | none => none
    | some switch =>
      if switch.takesValue then
        if rest.isEmpty then some { pending := some switch }
        else some { items := [.setting switch (String.ofList rest)] }
      else (readShort rest).map fun reading =>
        { reading with items := .switch switch :: reading.items }

def readLong (switch : Switch) (value : Option (List Char)) : Option Reading :=
  match switch.takesValue, value with
  | true, some value => some { items := [.setting switch (String.ofList value)] }
  | true, none => some { pending := some switch }
  | false, some _ => none
  | false, none => some { items := [.switch switch] }

/-- The parts before and behind the first `=`. -/
def splitValue (text : List Char) : List Char × Option (List Char) :=
  (text.takeWhile (· != '='), match text.dropWhile (· != '=') with
    | [] => none
    | _ :: value => some value)

def readOption (text : List Char) : Option Reading :=
  let (name, value) := splitValue text
  match Switch.ofLong? (String.ofList name) with
  | some switch => readLong switch value
  | none => if ['-', '-'].isPrefixOf text then none else readShort (text.drop 1)

/-- A dash alone is no option. -/
def isOption : List Char → Bool
  | '-' :: _ :: _ => true
  | _ => false

/-- No items where an option is unknown, has no value, or has one that it does not take. -/
def readItems : Option Switch → List String → Option (List Item)
  | none, [] => some []
  | some _, [] => none
  | some switch, value :: rest => (readItems none rest).map (.setting switch value :: ·)
  | none, argument :: rest =>
    if argument == "--" then some (rest.map Item.positional)
    else if isOption argument.toList then
      match readOption argument.toList with
      | none => none
      | some reading => (readItems reading.pending rest).map (reading.items ++ ·)
    else (readItems none rest).map (.positional argument :: ·)

/-! ## What the items say -/

structure Arguments where
  config : Option String := none
  baseModule : Option String := none
  baseClass : Option String := none
  force : Option Bool := none
  failFast : Bool := false
  format : Bool := false
  verbose : Bool := false
  /-- What is asked for instead of a run: the first of help and version. -/
  inquiry : Option Switch := none
  positional : List String := []
deriving DecidableEq, Repr

namespace Arguments

def withSwitch (arguments : Arguments) : Switch → Arguments
  | .force => { arguments with force := some true }
  | .noForce => { arguments with force := some false }
  | .failFast => { arguments with failFast := true }
  | .format => { arguments with format := true }
  | .verbose => { arguments with verbose := true }
  | .version => { arguments with inquiry := arguments.inquiry.or (some .version) }
  | .help => { arguments with inquiry := arguments.inquiry.or (some .help) }
  | _ => arguments

def withSetting (arguments : Arguments) (value : String) : Switch → Arguments
  | .config => { arguments with config := some value }
  | .baseModule => { arguments with baseModule := some value }
  | .baseClass => { arguments with baseClass := some value }
  | _ => arguments

def withItem (arguments : Arguments) : Item → Arguments
  | .switch switch => arguments.withSwitch switch
  | .setting switch value => arguments.withSetting value switch
  | .positional text => { arguments with positional := arguments.positional ++ [text] }

def read (arguments : List String) : Option Arguments :=
  (readItems none arguments).map fun items => items.foldl withItem {}

end Arguments

end ModelMint.Command
