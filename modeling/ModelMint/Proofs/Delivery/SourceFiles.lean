import ModelMint.Delivery
import ModelMint.Proofs.Delivery.Spared
import ModelMint.Proofs.Disk.Drafts

/-!
# Source files

A source file is written as a whole or not at all, in steps as in one go, whichever step
fails.  Nothing is made for a text that is no valid source, or where a file is to be spared.
A file that is there is spared with one exception: its path leads through a directory that
is still missing, and back.
-/

namespace ModelMint.Disk

open ModelMint.Schema
open ModelMint.Blueprint

variable {disk after : Disk} {path : Path} {text : String} {validate : Bool}
  {change write : Change Stop}

/-! ## Guards -/

/-- The change is made unless the text has to be valid source and is not. -/
def guardSource (disk : Disk) (path : Path) (text : String) (validate : Bool)
    (change : Change Fault) : Change Stop :=
  if !validate then ⟨change.disk, Stop.ofFault change.result⟩
  else match Source.validate text with
    | .error fault => .refuse disk (.fault fault)
    | .ok (some failure) =>
      .refuse disk (.failure (failure.inContext { path := some path.text }))
    | .ok none => ⟨change.disk, Stop.ofFault change.result⟩

/-- A path that something has. -/
def takenPath (path : Path) : Failure where
  cause := .unwritable (.fileExists path.text)
  context := { path := some path.text }

/-- The change is made unless something has the path. -/
def guardPath (disk : Disk) (path : Path) (change : Change Stop) : Change Stop :=
  match disk.holds path with
  | .error fault => .refuse disk (.fault fault)
  | .ok true => .refuse disk (.failure (takenPath path))
  | .ok false => change

def writeSourceBySteps (draws : List String) (trouble : Trouble) (disk : Disk) (path : Path)
    (text : String) (validate : Bool) : Change Stop :=
  disk.guardSource path text validate (disk.writeBySteps draws trouble path text.toUTF8)

def writeNewSourceBySteps (draws : List String) (trouble : Trouble) (disk : Disk) (path : Path)
    (text : String) (validate : Bool) : Change Stop :=
  disk.guardPath path (disk.writeSourceBySteps draws trouble path text validate)

theorem writeSource_eq (disk : Disk) (path : Path) (text : String) (validate : Bool) :
    disk.writeSource path text validate =
      disk.guardSource path text validate (disk.write path text.toUTF8) := rfl

theorem writeNewSource_eq (disk : Disk) (path : Path) (text : String) (validate : Bool) :
    disk.writeNewSource path text validate =
      disk.guardPath path (disk.writeSource path text validate) := rfl

/-! ## Whole files -/

/-- What a write of a source file leaves: the file as a whole and the directories above it, or no
more than some of the directories, and nothing at all if it is refused. -/
inductive SettlesSource (disk : Disk) (path : Path) (text : String) : Change Stop → Prop
  | written {after : Disk}
      (clears : Clears path.parent [Place.resolve disk.here path] disk after)
      (file : disk.get? (Place.resolve disk.here path) ≠ some .directory)
      (there : after.get? (Place.resolve disk.here path) = some (.file text.toUTF8))
      (read : after.read path = .ok text.toUTF8) :
      SettlesSource disk path text ⟨after, .ok ()⟩
  | failed {after : Disk} (fault : Fault) (clears : Clears path.parent [] disk after) :
      SettlesSource disk path text ⟨after, .error (.fault fault)⟩
  | refused (failure : Failure) : SettlesSource disk path text (.refuse disk (.failure failure))

theorem Settles.source {change : Change Fault} (h : Settles disk path text.toUTF8 change) :
    SettlesSource disk path text ⟨change.disk, Stop.ofFault change.result⟩ := by
  cases h with
  | written clears file find there =>
      exact .written clears file there (by simp [read, look_eq_ok.mpr ⟨_, find, there⟩])
  | failed fault clears => exact .failed fault clears

theorem settlesSource_guardSource {change : Change Fault} (validate : Bool)
    (h : Settles disk path text.toUTF8 change) :
    SettlesSource disk path text (disk.guardSource path text validate change) := by
  unfold guardSource
  split
  · exact h.source
  · split
    · exact .failed _ (Clears.refl _ _ _)
    · exact .refused _
    · exact h.source

theorem settlesSource_guardPath (h : SettlesSource disk path text write) :
    SettlesSource disk path text (disk.guardPath path write) := by
  unfold guardPath
  split
  · exact .failed _ (Clears.refl _ _ _)
  · exact .refused _
  · exact h

theorem guardSource_of_invalid (disk : Disk) (path : Path)
    (hinvalid : Source.validate text ≠ .ok none) (change : Change Fault) :
    ∃ stop, disk.guardSource path text true change = .refuse disk stop := by
  unfold guardSource
  simp only [Bool.not_true, Bool.false_eq_true, if_false]
  split
  · exact ⟨_, rfl⟩
  · exact ⟨_, rfl⟩
  next hvalid => contradiction

theorem guardPath_of_refuse {stop : Stop} (h : write = .refuse disk stop) :
    ∃ stop, disk.guardPath path write = .refuse disk stop := by
  unfold guardPath
  split
  · exact ⟨_, rfl⟩
  · exact ⟨_, rfl⟩
  · exact ⟨stop, h⟩

/-! ## Files that are spared -/

/-- Whatever is on the disk stays what it is. -/
def KeepsAll (before after : Disk) : Prop :=
  ∀ place entry, before.get? place = some entry → after.get? place = some entry

/-- The path leads nowhere, and when its directories have been made it leads to another file. -/
def LeadsAstray (disk : Disk) (path : Path) (text : String) : Prop :=
  disk.holds path = .ok false ∧ ∃ content, content ≠ text.toUTF8 ∧
    disk.get? (Place.resolve disk.here path) = some (.file content)

theorem keepsAll_guardPath_iff (h : SettlesSource disk path text write) :
    KeepsAll disk (disk.guardPath path write).disk ↔
      ¬ ((disk.guardPath path write).result = .ok () ∧ LeadsAstray disk path text) := by
  constructor
  · rintro hkeeps ⟨hdone, hholds, content, hdiffer, hfile⟩
    have hkept := hkeeps _ _ hfile
    rw [guardPath, hholds] at hdone hkept
    cases h with
    | written clears file there read =>
        rw [there] at hkept
        cases hkept
        exact hdiffer rfl
    | failed => cases hdone
    | refused => cases hdone
  · intro hsafe place entry hentry
    unfold guardPath at hsafe ⊢
    split
    · exact hentry
    · exact hentry
    next hholds =>
      rw [hholds] at hsafe
      cases h with
      | refused => exact hentry
      | failed fault clears => exact clears.get? List.not_mem_nil hentry
      | written clears file there read =>
          by_cases hsame : place = Place.resolve disk.here path
          · rw [hsame] at hentry ⊢
            cases entry with
            | directory => contradiction
            | file content =>
                by_cases hcontent : content = text.toUTF8
                · rw [hcontent]
                  exact there
                · exact absurd ⟨rfl, hholds, content, hcontent, hentry⟩ hsafe
          · exact clears.get? (by simpa using hsame) hentry

theorem holdsNul_of_result {disk : Disk} (h : SettlesSource disk path text change)
    (hdone : change.result = .ok ()) : path.holdsNul = false := by
  cases h with
  | written clears file there hread =>
      unfold read at hread
      split at hread
      · cases hread
      · cases hread
      next hlook =>
        obtain ⟨place, hfind, -⟩ := look_eq_ok.mp hlook
        exact holdsNul_of_find hfind
  | failed => cases hdone
  | refused => cases hdone

theorem not_leadsAstray_of_directory (hpath : path.holdsNul = false)
    (hparent : disk.look path.parent = .ok .directory) : ¬ LeadsAstray disk path text := by
  rintro ⟨hholds, content, -, hfile⟩
  have hnul : '\x00' ∉ path.name.toList := by
    intro hmem
    rw [holdsNul_of_mem_name hmem] at hpath
    cases hpath
  have hfind := find_of_parent hparent hnul
  split at hfind
  · simp [holds, look?, look, hfind, Except.map] at hholds
  · rw [holds_eq_false hholds hfind] at hfile
    cases hfile

/-- On the way down nothing is looked for in vain. -/
theorem not_leadsAstray_of_tree (hpath : path.holdsNul = false) (htree : disk.IsTree)
    (hdown : ∀ name ∈ path.names, name ≠ Path.self ∧ name ≠ Path.above) :
    ¬ LeadsAstray disk path text := by
  rintro ⟨hholds, content, -, hfile⟩
  have hfind := find_eq_follow disk hpath
  rw [Place.resolve, Delivery.foldl_step hdown] at hfile
  rcases htree.follow hdown hfile with hfollow | hlong
  · rw [holds_eq_false hholds (hfind.trans hfollow)] at hfile
    cases hfile
  · simp [holds, look?, look, hfind.trans hlong, Except.map] at hholds

/-! ## Both ways of writing -/

/-- What is promised of a write of a source file, and of one that is to spare what is there. -/
structure WritesSafely (disk : Disk) (path : Path) (text : String) (validate : Bool)
    (write writeNew : Change Stop) : Prop where
  settles : SettlesSource disk path text write
  settlesNew : SettlesSource disk path text writeNew
  invalid : validate = true → Source.validate text ≠ .ok none →
    (∃ stop, write = .refuse disk stop) ∧ ∃ stop, writeNew = .refuse disk stop
  taken : disk.holds path = .ok true → writeNew = .refuse disk (.failure (takenPath path))
  spares : KeepsAll disk writeNew.disk ↔
    ¬ (writeNew.result = .ok () ∧ LeadsAstray disk path text)
  sparesInDirectory : disk.look path.parent = .ok .directory → KeepsAll disk writeNew.disk
  sparesBelow : disk.IsTree → (∀ name ∈ path.names, name ≠ Path.self ∧ name ≠ Path.above) →
    KeepsAll disk writeNew.disk

theorem writesSafely_of_settles {change : Change Fault} (validate : Bool)
    (h : Settles disk path text.toUTF8 change) :
    WritesSafely disk path text validate (disk.guardSource path text validate change)
      (disk.guardPath path (disk.guardSource path text validate change)) := by
  have hwrite := settlesSource_guardSource validate h
  have hnew := settlesSource_guardPath hwrite
  have hspares := keepsAll_guardPath_iff hwrite
  refine ⟨hwrite, hnew, ?_, ?_, hspares, ?_, ?_⟩
  · rintro rfl hinvalid
    obtain ⟨stop, hstop⟩ := guardSource_of_invalid disk path hinvalid change
    exact ⟨⟨stop, hstop⟩, guardPath_of_refuse hstop⟩
  · intro hholds
    rw [guardPath, hholds]
  · intro hparent
    refine hspares.mpr fun ⟨hdone, hastray⟩ => ?_
    exact not_leadsAstray_of_directory (holdsNul_of_result hnew hdone) hparent hastray
  · intro htree hdown
    refine hspares.mpr fun ⟨hdone, hastray⟩ => ?_
    exact not_leadsAstray_of_tree (holdsNul_of_result hnew hdone) htree hdown hastray

/-- Whichever step fails, a source file is written safely.  With nothing in the way the steps come
to what is done in one go, which is as safe. -/
theorem source_files_written_safely (draws : List String) (trouble : Trouble) (disk : Disk)
    (path : Path) (text : String) (validate : Bool) :
    WritesSafely disk path text validate
      (disk.writeSourceBySteps draws trouble path text validate)
      (disk.writeNewSourceBySteps draws trouble path text validate) ∧
    WritesSafely disk path text validate (disk.writeSource path text validate)
      (disk.writeNewSource path text validate) ∧
    ((disk.makeDirectories path.parent).disk.HasDraft path draws →
      disk.writeSourceBySteps draws {} path text validate = disk.writeSource path text validate ∧
      disk.writeNewSourceBySteps draws {} path text validate =
        disk.writeNewSource path text validate) := by
  refine ⟨writesSafely_of_settles validate (settles_writeBySteps draws trouble disk path _),
    writesSafely_of_settles validate (settles_write disk path _), fun hdraft => ?_⟩
  have hsteps : disk.writeSourceBySteps draws {} path text validate =
      disk.writeSource path text validate := by
    rw [writeSourceBySteps, writeBySteps_eq disk path _ hdraft, writeSource_eq]
  exact ⟨hsteps, by rw [writeNewSourceBySteps, hsteps, writeNewSource_eq]⟩

/-! ## A directory that is missing -/

def soleFile : Disk := ⟨[], [(["Room.py"], .file "mine".toUTF8)]⟩

/-- Behind a directory that is missing the file is found when it is too late to spare it. -/
theorem missing_directory_not_spared :
    ¬ KeepsAll soleFile
      (soleFile.writeNewSource (Path.read "attic/../Room.py") "nights = 3\n" true).disk := by
  intro hkeeps
  have hfile : soleFile.get? ["Room.py"] = some (.file "mine".toUTF8) := by decide +kernel
  have hlost : (soleFile.writeNewSource (Path.read "attic/../Room.py") "nights = 3\n"
      true).disk.get? ["Room.py"] ≠ some (.file "mine".toUTF8) := by decide +kernel
  exact hlost (hkeeps _ _ hfile)

end ModelMint.Disk
