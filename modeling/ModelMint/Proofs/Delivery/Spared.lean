import ModelMint.Proofs.Delivery.Files

/-!
# Files that are spared

Where files that are there are to be spared they are, with one exception: the output
directory is named by way of a directory that is still missing.  Then the first file is
looked for in vain, and found when the directory has been made.
-/

namespace ModelMint.Delivery

open ModelMint.Schema
open ModelMint.Blueprint
open ModelMint.Disk
open ModelMint.Package (IsFileName fileOf fileNames packageFile)

variable {settings : Settings} {output : Path} {file : String × String}
  {files : List (String × String)} {before : Delivery}

/-! ## Sparing -/

/-- Every file but that of the package holds what it held. -/
def KeepsEarlier (here : Place) (output : Path) (before after : Disk) : Prop :=
  ∀ place, place ≠ placeOf here output packageFile → ∀ content,
    before.get? place = some (.file content) → after.get? place = some (.file content)

/-- The path of the first file leads nowhere, and when its directories have been made it leads to
another file, which the first one replaces. -/
def Overwrites (disk : Disk) (output : Path) (files : List (String × String)) : Prop :=
  ∃ file rest content, files = file :: rest ∧ file.1 ≠ packageFile ∧
    disk.holds (output.child file.1) = .ok false ∧
    disk.get? (placeOf disk.here output file.1) = some (.file content) ∧
    content ≠ file.2.toUTF8 ∧
    (disk.writeText (output.child file.1) file.2).result = .ok ()

theorem KeepsEarlier.trans {here : Place} {before middle after : Disk}
    (h : KeepsEarlier here output before middle) (hlater : KeepsEarlier here output middle after) :
    KeepsEarlier here output before after :=
  fun place hplace content hfile => hlater place hplace content (h place hplace content hfile)

/-- A file that is written replaces no other, if nothing stands where its path leads. -/
theorem Added.keepsEarlier {result : Delivery × Except Fault Unit}
    (h : Added settings output file before result) (hmode : settings.output.mode = .error)
    (hfree : file.1 ≠ packageFile → before.disk.holds (output.child file.1) = .ok false →
      (before.disk.writeText (output.child file.1) file.2).result = .ok () → ∀ content,
        before.disk.get? (placeOf before.disk.here output file.1) = some (.file content) →
          content = file.2.toUTF8) :
    KeepsEarlier before.disk.here output before.disk result.1.disk := by
  intro place hplace content hfile
  cases h with
  | wrote free done keeps there directory failures =>
      by_cases hsame : place = placeOf before.disk.here output file.1
      · rw [hsame] at hplace hfile ⊢
        have hclass : file.1 ≠ packageFile := by
          intro hpackage
          rw [hpackage] at hplace
          exact hplace rfl
        rw [hfree hclass (free ⟨hmode, hclass⟩) done content hfile]
        exact there
      · exact keeps.file (by simpa using hsame) hfile
  | refused spares held disk named failures =>
      rw [disk]
      exact hfile
  | stopped keeps undone failures => exact keeps.file List.not_mem_nil hfile

theorem not_held_of_directory {disk : Disk} (hdirectory : disk.look output = .ok .directory)
    {name : String} (hname : IsFileName name)
    (hholds : disk.holds (output.child name) = .ok false) :
    disk.get? (placeOf disk.here output name) = none := by
  rw [holds_child hdirectory hname.not_mem] at hholds
  split at hholds
  · cases hholds
  · rw [placeOf, Place.resolve_child]
    simpa using hholds

theorem keepsEarlier_of_directory (hmode : settings.output.mode = .error)
    (hnames : ∀ file ∈ files, IsFileName file.1)
    (hdirectory : before.disk.look output = .ok .directory) :
    KeepsEarlier before.disk.here output before.disk
      (addFiles settings output files before).1.disk := by
  induction files generalizing before with
  | nil => exact fun place hplace content hfile => hfile
  | cons file rest ih =>
      obtain ⟨hname, hrest⟩ := List.forall_mem_cons.mp hnames
      have hadded := added_addFile settings output file before
      have hkeeps := hadded.keeps
      have hfirst : KeepsEarlier before.disk.here output before.disk
          (addFile settings output file before).1.disk := by
        apply hadded.keepsEarlier hmode
        intro _ hholds _ content hfile
        rw [not_held_of_directory hdirectory hname hholds] at hfile
        cases hfile
      unfold addFiles
      generalize addFile settings output file before = result at hkeeps hfirst
      obtain ⟨middle, answer⟩ := result
      cases answer with
      | error fault => exact hfirst
      | ok done =>
          have hlater := ih hrest (hkeeps.directory hdirectory)
          rw [hkeeps.here] at hlater
          exact hfirst.trans hlater

/-- Only the first file can replace another: behind it the directories are there. -/
theorem keepsEarlier_iff (before : Delivery) (hmode : settings.output.mode = .error)
    (hnames : ∀ file ∈ files, IsFileName file.1) (hdistinct : (Entries.keys files).Nodup) :
    KeepsEarlier before.disk.here output before.disk
        (addFiles settings output files before).1.disk ↔
      ¬ Overwrites before.disk output files := by
  cases files with
  | nil =>
      constructor
      · rintro - ⟨file, rest, content, hfiles, -⟩
        cases hfiles
      · exact fun _ place hplace content hfile => hfile
  | cons file rest =>
      obtain ⟨hname, hrest⟩ := List.forall_mem_cons.mp hnames
      obtain ⟨hnew, -⟩ := List.nodup_cons.mp hdistinct
      have hadded := added_addFile settings output file before
      constructor
      · rintro hkeeps ⟨first, others, content, hfiles, hclass, hholds, hfile, hdiffer, hdone⟩
        cases hfiles
        unfold addFiles at hkeeps
        generalize addFile settings output file before = result at hadded hkeeps
        cases hadded with
        | wrote free done keeps there directory failures =>
            rename_i middle
            -- the others have places of their own, so that the new text is there at the end
            have hplaces : placeOf before.disk.here output file.1 ∉
                placesOf middle.disk.here output rest := by
              rw [keeps.here, placeOf_mem_placesOf hname hrest]
              exact hnew
            have hlast := (addFiles_keeps settings output rest middle).file hplaces there
            have hplace : placeOf before.disk.here output file.1 ≠
                placeOf before.disk.here output packageFile := by
              have hpackage : IsFileName packageFile := ⟨"__init__", rfl, by decide⟩
              rw [Ne, placeOf_inj hname hpackage]
              exact hclass
            have hkept := hkeeps _ hplace content hfile
            simp only at hkept
            rw [hlast] at hkept
            cases hkept
            exact hdiffer rfl
        | refused spares held disk named failures =>
            rw [hholds] at held
            cases held
        | stopped keeps undone failures => exact undone hholds hdone
      · intro hsafe
        have hfirst : KeepsEarlier before.disk.here output before.disk
            (addFile settings output file before).1.disk := by
          apply hadded.keepsEarlier hmode
          intro hclass hholds hdone content hfile
          by_contra hdiffer
          exact hsafe ⟨file, rest, content, rfl, hclass, hholds, hfile, hdiffer, hdone⟩
        have hkeeps := hadded.keeps
        unfold addFiles
        generalize addFile settings output file before = result at hadded hkeeps hfirst
        obtain ⟨middle, answer⟩ := result
        cases answer with
        | error fault => exact hfirst
        | ok done =>
            have hlater : KeepsEarlier middle.disk.here output middle.disk
                (addFiles settings output rest middle).1.disk :=
              keepsEarlier_of_directory hmode hrest hadded.directory
            rw [hkeeps.here] at hlater
            exact hfirst.trans hlater

theorem not_overwrites_of_directory (hnames : ∀ file ∈ files, IsFileName file.1) {disk : Disk}
    (hdirectory : disk.look output = .ok .directory) : ¬ Overwrites disk output files := by
  rintro ⟨file, rest, content, rfl, -, hholds, hfile, -⟩
  rw [not_held_of_directory hdirectory (hnames file List.mem_cons_self) hholds] at hfile
  cases hfile

/-! ## Paths that only go down -/

theorem foldl_step {names : List String} (h : ∀ name ∈ names, name ≠ Path.self ∧ name ≠ Path.above)
    (place : Place) : names.foldl Place.step place = place ++ names := by
  induction names generalizing place with
  | nil => simp
  | cons name rest ih =>
      obtain ⟨⟨hself, habove⟩, hrest⟩ := List.forall_mem_cons.mp h
      have hstep : place.step name = place ++ [name] := by simp [Place.step, hself, habove]
      rw [List.foldl_cons, hstep, ih hrest]
      simp

theorem self_not_mem_read (text : String) : Path.self ∉ (Path.read text).names := by
  unfold Path.read
  intro h
  have := (List.mem_filter.mp h).2
  simp at this

/-- A file that could be written has a path that can be followed. -/
theorem holdsNul_of_written {disk : Disk} {name text : String} (hname : '\x00' ∉ name.toList)
    (hdone : (disk.writeText (output.child name) text).result = .ok ()) :
    (output.child name).holdsNul = false := by
  have hwritten := written_write disk (output.child name) text.toUTF8
  unfold writeText at hdone
  generalize disk.write (output.child name) text.toUTF8 = change at hwritten hdone
  cases hwritten with
  | done keeps parent there =>
      obtain ⟨place, hfind, -⟩ := look_eq_ok.mp parent
      rw [Path.parent_child] at hfind
      exact Path.holdsNul_child.mpr ⟨holdsNul_of_find hfind, hname⟩
  | failed keeps => cases hdone

theorem not_overwrites_of_tree (hnames : ∀ file ∈ files, IsFileName file.1) {disk : Disk}
    (htree : disk.IsTree)
    (hdown : ∀ name ∈ output.names, name ≠ Path.self ∧ name ≠ Path.above) :
    ¬ Overwrites disk output files := by
  rintro ⟨⟨_, text⟩, rest, content, rfl, -, hholds, hfile, -, hdone⟩
  have hproper := (hnames _ List.mem_cons_self).not_mem
  obtain ⟨name, rfl, -⟩ := hnames _ List.mem_cons_self
  simp only at hholds hfile hdone hproper
  have hchild : ∀ part ∈ (output.child (fileOf name)).names,
      part ≠ Path.self ∧ part ≠ Path.above := by
    intro part hpart
    rcases List.mem_append.mp hpart with hold | hlast
    · exact hdown part hold
    · rw [List.mem_singleton.mp hlast]
      exact ⟨Package.fileOf_ne (by decide), Package.fileOf_ne (by decide)⟩
  have hfind := find_eq_follow disk (holdsNul_of_written hproper hdone)
  rw [placeOf, Place.resolve, foldl_step hchild] at hfile
  rcases htree.follow hchild hfile with hfollow | hlong
  · rw [holds_eq_false hholds (hfind.trans hfollow)] at hfile
    cases hfile
  · have hlost := hfind.trans hlong
    simp [Disk.holds, Disk.look?, Disk.look, hlost, Except.map] at hholds

end ModelMint.Delivery
