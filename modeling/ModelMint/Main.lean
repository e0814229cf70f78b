import ModelMint.Command.Run

/-!
# The program

Takes the part of the disk that the arguments speak of, runs the command on it, and
writes what has changed.
-/

namespace ModelMint.Command

/-- The places on the way to a place, itself included. -/
def way (place : Place) : List Place :=
  (List.range place.length).map fun length => place.take (length + 1)

/-- What the arguments may name on the disk. -/
def namedPlaces (here : Place) (arguments : Arguments) : List Place :=
  (arguments.positional ++ arguments.config.toList ++ arguments.baseModule.toList ++
    arguments.baseClass.toList).map fun text => Place.resolve here (Path.read text)

def entryAt (place : Place) : IO (Option DiskEntry) := do
  let path := (← IO.currentDir) / place.path.text
  if ← path.isDir then return some .directory
  else if ← path.pathExists then return some (.file (← IO.FS.readBinFile path))
  else return none

def childrenOf (place : Place) : IO (List Place) := do
  let path := (← IO.currentDir) / place.path.text
  if ← path.isDir then
    return (← path.readDir).toList.map fun entry => place ++ [entry.fileName]
  else return []

def takePlace (disk : Disk) (place : Place) : IO Disk := do
  match ← entryAt place with
  | some entry => return disk.put place entry
  | none => return disk

def snapshot (here : Place) (arguments : Arguments) : IO Disk := do
  let named := namedPlaces here arguments
  let children ← named.mapM childrenOf
  ((here :: named).flatMap way ++ children.flatten).foldlM takePlace ⟨here, []⟩

/-- A file is written beside its place and then moved there. -/
def writeEntry (place : Place) : DiskEntry → IO Unit
  | .directory => IO.FS.createDirAll place.path.text
  | .file content => do
    let draft := place.path.text ++ ".draft"
    IO.FS.writeBinFile draft content
    IO.FS.rename draft place.path.text

def usageLine : String := "Usage: " ++ programName ++ " [OPTIONS] PATH OUTPUT\n"

def showEnding (ending : Ending) : IO Unit := do
  match ending.output with
  | none => IO.eprint usageLine
  | some output => if output == versionLine then IO.print output else IO.eprint output
  if let some message := ending.fault.bind Fault.message? then IO.eprintln message

end ModelMint.Command

open ModelMint in
def main (arguments : List String) : IO UInt32 := do
  let here := (Path.read (← IO.currentDir).toString).names
  let disk ← Command.snapshot here ((Command.Arguments.read arguments).getD {})
  let ending := Command.run disk arguments
  for (place, entry) in ending.disk.changesSince disk do
    Command.writeEntry place entry
  Command.showEnding ending
  return UInt32.ofNat ending.status
