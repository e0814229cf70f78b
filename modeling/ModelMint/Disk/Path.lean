import ModelMint.Text.Lines

/-!
# Paths

A path is a list of names, read from the root or from the working directory.  Reading
drops empty names and the name of the directory itself; the name of the directory above
is kept, as what it means depends on the disk.
-/

namespace ModelMint

structure Path where
  fromRoot : Bool := false
  names : List String := []
deriving DecidableEq, Repr

namespace Path

/-- The directory itself. -/
def self : String := "."

/-- The directory above. -/
def above : String := ".."

def startsAtRoot (text : String) : Bool := text.toList.head? == some '/'

def read (text : String) : Path where
  fromRoot := startsAtRoot text
  names := ((Text.parts '/' text.toList).map String.ofList).filter fun name =>
    !name.isEmpty && name != self

/-- The path as it stands: a slash at its end asks for a directory. -/
def readAsGiven (text : String) : Path where
  fromRoot := startsAtRoot text
  names := (Text.parts '/' text.toList).map fun part =>
    if part.isEmpty then self else String.ofList part

def text (path : Path) : String :=
  if path.fromRoot then "/" ++ "/".intercalate path.names
  else if path.names.isEmpty then self
  else "/".intercalate path.names

/-- The last name; the root and the working directory have none. -/
def name (path : Path) : String := path.names.getLast?.getD ""

/-- A name without its last ending. -/
def stem (name : String) : String :=
  let letters := name.toList.reverse
  let ending := letters.takeWhile (· != '.')
  let rest := (letters.dropWhile (· != '.')).drop 1
  if ending.isEmpty || rest.isEmpty then name else String.ofList rest.reverse

def parent (path : Path) : Path := { path with names := path.names.dropLast }

def child (path : Path) (name : String) : Path := { path with names := path.names ++ [name] }

def holdsNul (path : Path) : Bool := path.names.any (·.toList.contains '\x00')

@[simp] theorem parent_child (path : Path) (name : String) : (path.child name).parent = path := by
  simp [parent, child]

@[simp] theorem name_child (path : Path) (name : String) : (path.child name).name = name := by
  simp [Path.name, child]

end Path

end ModelMint
