import ModelMint.Disk.Write

/-!
# Drafts

A file is replaced in steps.  A draft is made beside it, under a name that nothing has, the
content goes into the draft, and the draft takes the name of the file.  A step can fail for
what is on the disk and for reasons of its own; then the draft is taken away again.
-/

namespace ModelMint.Disk

/-- Letters tell the drafts of one file apart. -/
def draftName (name letters : String) : String := "." ++ name ++ "." ++ letters ++ ".tmp"

def draftPath (path : Path) (letters : String) : Path :=
  path.parent.child (draftName path.name letters)

/-- What fails although nothing on the disk is in the way. -/
structure Trouble where
  /-- No more than so many of the names on the way get directories. -/
  making : Option (Nat × Fault) := none
  opening : Option Fault := none
  /-- No more than so many bytes of the content are taken. -/
  filling : Option (Nat × Fault) := none
  moving : Option Fault := none

/-! ## Steps -/

def makeWay (disk : Disk) (path : Path) : Option (Nat × Fault) → Change Fault
  | some (names, fault) =>
    ⟨(disk.makeDirectories ⟨path.fromRoot, path.names.take names⟩).disk, .error fault⟩
  | none => disk.makeDirectories path

/-- The letters are tried in order until nothing has the name. -/
def findDraft (disk : Disk) (path : Path) : List String → Except Fault Place
  | [] => .error .fileExists
  | letters :: others => match disk.find (draftPath path letters) with
    | .error fault => .error fault
    | .ok place =>
      if (disk.get? place).isSome then disk.findDraft path others else .ok place

def openDraft (disk : Disk) (path : Path) (draws : List String) :
    Option Fault → Except Fault (Place × Disk)
  | some fault => .error fault
  | none => (disk.findDraft path draws).map fun place =>
    (place, disk.put place (.file .empty))

def fillDraft (disk : Disk) (draft : Place) (content : ByteArray) :
    Option (Nat × Fault) → Change Fault
  | some (bytes, fault) => ⟨disk.put draft (.file (content.extract 0 bytes)), .error fault⟩
  | none => .done (disk.put draft (.file content))

/-- Takes away what is at the place, and nothing else. -/
def unlink (disk : Disk) (place : Place) : Disk :=
  { disk with entries := disk.entries.filter (·.1 != place) }

/-- The draft takes the name of the file, whatever file had it before. -/
def moveDraft (disk : Disk) (draft : Place) (path : Path) : Option Fault → Except Fault Disk
  | some fault => .error fault
  | none => match disk.get? draft, disk.find path with
    | none, _ => .error .fileMissing
    | _, .error fault => .error fault
    | some entry, .ok place =>
      if !namesFile path then .error .busy
      else if disk.get? place = some .directory then .error .isDirectory
      else .ok ((disk.unlink draft).put place entry)

/-! ## Whole writes -/

/-- Where a step fails no draft is left. -/
def replaceBySteps (draws : List String) (trouble : Trouble) (disk : Disk) (path : Path)
    (content : ByteArray) : Change Fault :=
  match disk.openDraft path draws trouble.opening with
  | .error fault => .refuse disk fault
  | .ok (draft, disk) =>
    let change := (disk.fillDraft draft content trouble.filling).andThen fun disk =>
      .ofExcept disk (disk.moveDraft draft path trouble.moving)
    match change.result with
    | .ok () => change
    | .error fault => ⟨change.disk.unlink draft, .error fault⟩

def writeBySteps (draws : List String) (trouble : Trouble) (disk : Disk) (path : Path)
    (content : ByteArray) : Change Fault :=
  (disk.makeWay path.parent trouble.making).andThen fun disk =>
    disk.replaceBySteps draws trouble path content

end ModelMint.Disk
