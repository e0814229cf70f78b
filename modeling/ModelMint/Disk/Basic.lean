import ModelMint.Disk.Path
import ModelMint.Entries
import ModelMint.Fault

/-!
# Disks

A disk holds files and directories by place.  A path leads to a place by way of
directories that are there; its last name need not be.
-/

namespace ModelMint

/-- The names on the way from the root. -/
abbrev Place := List String

namespace Place

def path (place : Place) : Path := ⟨true, place⟩

def step (place : Place) (name : String) : Place :=
  if name == Path.self then place
  else if name == Path.above then place.dropLast
  else place ++ [name]

/-- Where the path leads if only its names are looked at. -/
def resolve (here : Place) (path : Path) : Place :=
  path.names.foldl step (if path.fromRoot then [] else here)

end Place

inductive DiskEntry where
  | directory
  | file (content : ByteArray)

instance : DecidableEq DiskEntry
  | .directory, .directory => isTrue rfl
  | .directory, .file _ => isFalse (by simp)
  | .file _, .directory => isFalse (by simp)
  | .file a, .file b =>
    decidable_of_iff (a.data.toList = b.data.toList) (by
      rw [DiskEntry.file.injEq, ByteArray.ext_iff, Array.toList_inj])

structure Disk where
  /-- Where paths start that do not start at the root. -/
  here : Place
  entries : List (Place × DiskEntry)

namespace Disk

/-- The root is always there. -/
def get? (disk : Disk) (place : Place) : Option DiskEntry :=
  if place = [] then some .directory else Entries.get? place disk.entries

def put (disk : Disk) (place : Place) (entry : DiskEntry) : Disk :=
  { disk with entries := Entries.insert place entry disk.entries }

/-- Takes away what is at the place and below it. -/
def remove (disk : Disk) (place : Place) : Disk :=
  { disk with entries := disk.entries.filter fun entry => !place.isPrefixOf entry.1 }

theorem get?_put_self (disk : Disk) {place : Place} (entry : DiskEntry) (h : place ≠ []) :
    (disk.put place entry).get? place = some entry := by
  simp [get?, put, h]

theorem get?_put_of_ne (disk : Disk) {place other : Place} (entry : DiskEntry)
    (h : other ≠ place) : (disk.put place entry).get? other = disk.get? other := by
  by_cases hroot : other = []
  · simp [get?, hroot]
  · simp [get?, put, hroot, Entries.get?_insert_of_ne h]

/-! ## Following paths -/

def longestName : Nat := 255

def follow (disk : Disk) : Place → List String → Except Fault Place
  | place, [] => .ok place
  | place, name :: rest => match disk.get? place with
    | none => .error .fileMissing
    | some (.file _) => .error .notADirectory
    | some .directory =>
      if name.utf8ByteSize > longestName then .error .nameTooLong
      else disk.follow (place.step name) rest

def find (disk : Disk) (path : Path) : Except Fault Place :=
  if path.holdsNul then .error .nulCharacter
  else disk.follow (if path.fromRoot then [] else disk.here) path.names

def look (disk : Disk) (path : Path) : Except Fault DiskEntry :=
  match disk.find path with
  | .error fault => .error fault
  | .ok place => match disk.get? place with
    | none => .error .fileMissing
    | some entry => .ok entry

/-- A path that leads nowhere is no fault here, only a name of no possible file is. -/
def look? (disk : Disk) (path : Path) : Except Fault (Option DiskEntry) :=
  match disk.look path with
  | .ok entry => .ok (some entry)
  | .error .nameTooLong => .error .nameTooLong
  | .error _ => .ok none

def holds (disk : Disk) (path : Path) : Except Fault Bool :=
  (disk.look? path).map Option.isSome

def holdsDirectory (disk : Disk) (path : Path) : Except Fault Bool :=
  (disk.look? path).map (· == some .directory)

/-! ## Reading -/

def read (disk : Disk) (path : Path) : Except Fault ByteArray :=
  match disk.look path with
  | .error fault => .error fault
  | .ok .directory => .error .isDirectory
  | .ok (.file content) => .ok content

def decode (content : ByteArray) : Except Fault String :=
  match String.fromUTF8? content with
  | some text => .ok text
  | none => .error .notUnicode

def readText (disk : Disk) (path : Path) : Except Fault String :=
  match disk.read path with
  | .error fault => .error fault
  | .ok content => decode content

end Disk

end ModelMint
