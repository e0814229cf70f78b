import ModelMint.Disk.Basic

/-!
# Writing to a disk

A file is replaced as a whole or stays as it is.  The directories above it are made
first, and those that were made stay even where the file can not be written.
-/

namespace ModelMint.Disk

/-- The disk afterwards, and whether everything was done. -/
structure Change (ε : Type) where
  disk : Disk
  result : Except ε Unit

namespace Change

variable {ε : Type}

def done (disk : Disk) : Change ε := ⟨disk, .ok ()⟩

/-- Nothing is changed. -/
def refuse (disk : Disk) (error : ε) : Change ε := ⟨disk, .error error⟩

/-- A step that changes nothing where it fails. -/
def ofExcept (disk : Disk) : Except ε Disk → Change ε
  | .ok next => done next
  | .error error => refuse disk error

def andThen (change : Change ε) (next : Disk → Change ε) : Change ε :=
  match change.result with
  | .ok () => next change.disk
  | .error _ => change

end Change

/-! ## Directories -/

def makeDirectory (disk : Disk) (path : Path) : Except Fault Disk :=
  match disk.find path with
  | .error fault => .error fault
  | .ok place =>
    if (disk.get? place).isSome then .error .fileExists else .ok (disk.put place .directory)

/-- A directory that is there already is as good as a new one. -/
def unlessDirectory (disk : Disk) (path : Path) (fault : Fault) : Except Fault Disk :=
  match disk.holdsDirectory path with
  | .ok true => .ok disk
  | .ok false => .error fault
  | .error other => .error other

/-- The names are given from the last to the first; what is missing above is made before. -/
def makeDirectoriesTo (fromRoot : Bool) : List String → Disk → Change Fault
  | [], disk => .ofExcept disk (disk.unlessDirectory ⟨fromRoot, []⟩ .fileMissing)
  | name :: above, disk =>
    let path : Path := ⟨fromRoot, (name :: above).reverse⟩
    match disk.makeDirectory path with
    | .ok next => .done next
    | .error .fileMissing =>
      (makeDirectoriesTo fromRoot above disk).andThen fun disk =>
        match disk.makeDirectory path with
        | .ok next => .done next
        | .error .fileMissing => .refuse disk .fileMissing
        | .error fault => .ofExcept disk (disk.unlessDirectory path fault)
    | .error fault => .ofExcept disk (disk.unlessDirectory path fault)

def makeDirectories (disk : Disk) (path : Path) : Change Fault :=
  makeDirectoriesTo path.fromRoot path.names.reverse disk

/-! ## Files -/

/-- While it is written the content stands beside the file, under the name of the file and so many
bytes more. -/
def draftBytes : Nat := 14

/-- Only a proper last name is the name of a file. -/
def namesFile (path : Path) : Bool :=
  !path.name.isEmpty && path.name != Path.self && path.name != Path.above

def replace (disk : Disk) (path : Path) (content : ByteArray) : Except Fault Disk :=
  match disk.find path with
  | .error fault => .error fault
  | .ok place =>
    if path.name.utf8ByteSize + draftBytes > longestName then .error .nameTooLong
    else if !namesFile path then .error .busy
    else if disk.get? place = some .directory then .error .isDirectory
    else .ok (disk.put place (.file content))

def write (disk : Disk) (path : Path) (content : ByteArray) : Change Fault :=
  (disk.makeDirectories path.parent).andThen fun disk => .ofExcept disk (disk.replace path content)

def writeText (disk : Disk) (path : Path) (text : String) : Change Fault :=
  disk.write path text.toUTF8

/-! ## Differences -/

/-- What is new or changed. -/
def changesSince (disk before : Disk) : List (Place × DiskEntry) :=
  disk.entries.filter fun (place, entry) => before.get? place != some entry

/-- What was there before and is there no more, also as an entry of the other kind. -/
def lostSince (disk before : Disk) : List (Place × DiskEntry) :=
  before.entries.filter fun (place, entry) => match entry, disk.get? place with
    | .directory, some .directory => false
    | .file _, some (.file _) => false
    | _, _ => true

end ModelMint.Disk
