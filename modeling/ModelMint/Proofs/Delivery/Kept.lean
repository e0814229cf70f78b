import ModelMint.Proofs.Delivery.Spared

/-!
# What a delivery keeps

A delivery writes the files of its package and no others, and where no package is made it
leaves the disk as it is.  The file of a definition that fails is not touched.
-/

namespace ModelMint.Delivery

open ModelMint.Schema
open ModelMint.Blueprint
open ModelMint.Disk
open ModelMint.Package (IsFileName fileOf fileNames packageFile)

variable {settings : Settings} {output : Path} {files : List (String × String)}
  {before : Delivery} {disk : Disk} {run : Package.Run}

/-! ## Failures -/

theorem stem_fileOf {name : String} (hname : name ≠ "") : Path.stem (fileOf name) = name := by
  have hletters : (fileOf name).toList.reverse = 'y' :: 'p' :: '.' :: name.toList.reverse := by
    simp [fileOf, String.toList_append]
  unfold Path.stem
  rw [hletters]
  simp [hname]

/-- A failure that the delivery adds is that of a file which it leaves alone. -/
theorem addFiles_failures {failure : Schema.Failure}
    (h : failure ∈ (addFiles settings output files before).1.failures) :
    failure ∈ before.failures ∨ ∃ earlier file later, files = earlier ++ file :: later ∧
      failure.context.definition = some (Path.stem file.1) ∧
      Keeps (placesOf before.disk.here output (earlier ++ later)) before.disk
        (addFiles settings output files before).1.disk := by
  induction files generalizing before with
  | nil => exact .inl h
  | cons file rest ih =>
      have hadded := added_addFile settings output file before
      have hfirst := hadded.keeps
      have hlater := addFiles_keeps settings output rest
      unfold addFiles at h ⊢
      generalize addFile settings output file before = result at hadded hfirst h
      cases hadded with
      | wrote free done keeps there directory failures =>
          simp only at h ⊢ hfirst
          rcases ih h with hold | ⟨earlier, other, later, hrest, hnamed, hkeeps⟩
          · rw [failures] at hold
            exact .inl hold
          · refine .inr ⟨file :: earlier, other, later, by rw [hrest]; rfl, hnamed, ?_⟩
            rw [hfirst.here] at hkeeps
            exact (hfirst.mono (by simp [placesOf])).trans (hkeeps.mono (by simp [placesOf]))
      -- the failure is this file's, or that of one behind it
      | refused spares held disk named failures =>
          simp only at h ⊢ hfirst
          rename_i middle refusal
          have hothers := hlater middle
          rw [disk] at hothers
          rcases ih h with hold | ⟨earlier, other, later, hrest, hnamed, hkeeps⟩
          · rw [failures, List.mem_append, List.mem_singleton] at hold
            rcases hold with hold | rfl
            · exact .inl hold
            · exact .inr ⟨[], file, rest, rfl, named, hothers⟩
          · refine .inr ⟨file :: earlier, other, later, by rw [hrest]; rfl, hnamed, ?_⟩
            rw [disk] at hkeeps
            exact hkeeps.mono (by simp [placesOf])
      | stopped keeps undone failures =>
          simp only at h
          rw [failures] at h
          exact .inl h

theorem not_mem_classes {comment schema : Json}
    (hrun : Package.generate settings comment schema = .ok run) {failure : Failure}
    (hfailure : failure ∈ run.package.failures) {name : String}
    (hname : failure.context.definition = some name) : name ∉ run.package.classes := by
  obtain ⟨document, added, hran⟩ := Package.generate_eq_ok hrun
  intro hclass
  obtain ⟨module, hmodule, rfl⟩ := List.mem_map.mp hclass
  obtain ⟨entry, hentry, hmade⟩ := hran.made hmodule
  rw [hran.failures] at hfailure
  obtain ⟨out, hout, hfailure⟩ := List.mem_flatMap.mp hfailure
  obtain ⟨other, -, houtcome⟩ := exists_left_of_mem hran.outcomes hout
  generalize out.1 = modules at houtcome
  generalize out.2 = failures at houtcome hfailure
  cases houtcome with
  | passed => cases hfailure
  | made => cases hfailure
  | failed hignored hfound hattempt =>
      obtain rfl := List.mem_singleton.mp hfailure
      obtain ⟨definitions, body, -, -, -, rfl⟩ := exists_body_of_get? hran.read hfound
      have hother : failure.context.definition = some other := Package.attempt_assigned _ hattempt
      rw [hname] at hother
      obtain rfl := Option.some.inj hother
      rw [hfound] at hentry
      obtain rfl := Option.some.inj hentry
      rw [hattempt] at hmade
      cases hmade

theorem delivered_keeps {comment schema : Json}
    (hrun : Package.generate settings comment schema = .ok run) :
    Keeps ((fileNames run.package).map (placeOf disk.here output)) disk
      (delivered settings output disk run).disk := by
  have hkeeps := addFiles_keeps settings output run.package.files
    ⟨disk, run.notices, run.package.failures⟩
  refine hkeeps.mono fun place hplace => ?_
  obtain ⟨file, hfile, rfl⟩ := List.mem_map.mp hplace
  exact List.mem_map.mpr
    ⟨file.1, Package.keys_subset_fileNames hrun (List.mem_map.mpr ⟨file, hfile, rfl⟩), rfl⟩

/-- The file of a definition that fails is as it was, whether its class or its file could not be
made. -/
theorem delivered_failing {comment schema : Json}
    (hrun : Package.generate settings comment schema = .ok run) {failure : Failure}
    (hfailure : failure ∈ (delivered settings output disk run).failures) {name : String}
    (hname : failure.context.definition = some name) (hpackage : name ≠ "__init__") :
    ∃ places, placeOf disk.here output (fileOf name) ∉ places ∧
      Keeps places disk (delivered settings output disk run).disk := by
  have hnames := isFileName_of_mem_files hrun
  rcases addFiles_failures hfailure with hold | ⟨earlier, file, later, hfiles, hnamed, hkeeps⟩
  · refine ⟨_, ?_, delivered_keeps hrun⟩
    intro hmem
    obtain ⟨file, hfile, hsame⟩ := List.mem_map.mp hmem
    obtain ⟨other, rfl, -⟩ := Package.isFileName_of_mem hrun hfile
    rw [placeOf_fileOf, placeOf_fileOf] at hsame
    have hsame := Package.fileOf_inj.mp (List.cons.inj (List.append_cancel_left hsame)).1
    rw [fileNames, List.mem_append, List.mem_singleton, Package.packageFile_eq] at hfile
    rcases hfile with hclass | hlast
    · obtain ⟨again, hagain, hequal⟩ := List.mem_map.mp hclass
      rw [Package.fileOf_inj.mp hequal, hsame] at hagain
      exact not_mem_classes hrun hold hname hagain
    · exact hpackage (hsame.symm.trans (Package.fileOf_inj.mp hlast))
  · have hdistinct := Package.nodup_files hrun
    simp only [hfiles, Entries.keys, List.map_append, List.map_cons] at hdistinct
    have hnew : file.1 ∉ (earlier ++ later).map Prod.fst := by
      rw [List.map_append]
      exact (List.nodup_cons.mp (List.nodup_middle.mp hdistinct)).1
    have hothers : ∀ other ∈ earlier ++ later, IsFileName other.1 := by
      intro other hother
      refine hnames other ?_
      rw [hfiles]
      rcases List.mem_append.mp hother with hearlier | hlater
      · exact List.mem_append_left _ hearlier
      · exact List.mem_append_right _ (List.mem_cons_of_mem _ hlater)
    refine ⟨_, ?_, hkeeps⟩
    obtain ⟨stem, hstem, hplain⟩ := hnames file (by simp [hfiles])
    have hnonempty : stem ≠ "" := by
      rintro rfl
      cases hplain
    rw [hname, hstem, stem_fileOf hnonempty] at hnamed
    obtain rfl := Option.some.inj hnamed
    rw [placeOf_mem_placesOf ⟨name, rfl, hplain⟩ hothers, ← hstem]
    exact hnew

/-- What a delivery of the package of a run leaves as it is: every file but those of the package,
the file of a definition that fails, and, where files are to be spared, all that were there, unless
the first of the new ones overwrites another. -/
structure Kept (settings : Settings) (output : Path) (before : Disk) (run : Package.Run)
    (after : Delivery) : Prop where
  others : Keeps ((fileNames run.package).map (placeOf before.here output)) before after.disk
  failing : ∀ failure ∈ after.failures, ∀ name, failure.context.definition = some name →
    name ≠ "__init__" → ∀ content,
      after.disk.get? (placeOf before.here output (fileOf name)) = some (.file content) ↔
        before.get? (placeOf before.here output (fileOf name)) = some (.file content)
  spared : settings.output.mode = .error →
    (KeepsEarlier before.here output before after.disk ↔
      ¬ Overwrites before output run.package.files)
  sparedInDirectory : settings.output.mode = .error → before.look output = .ok .directory →
    KeepsEarlier before.here output before after.disk
  sparedBelow : settings.output.mode = .error → before.IsTree → Path.above ∉ output.names →
    KeepsEarlier before.here output before after.disk

theorem kept_delivered {comment schema : Json} {text : String}
    (hrun : Package.generate settings comment schema = .ok run) :
    Kept settings (Path.read text) disk run (delivered settings (Path.read text) disk run) := by
  have hnames := isFileName_of_mem_files hrun
  have hspared (hmode : settings.output.mode = .error) :
      KeepsEarlier disk.here (Path.read text) disk
          (delivered settings (Path.read text) disk run).disk ↔
        ¬ Overwrites disk (Path.read text) run.package.files :=
    keepsEarlier_iff ⟨disk, run.notices, run.package.failures⟩ hmode hnames
      (Package.nodup_files hrun)
  refine ⟨delivered_keeps hrun, ?_, hspared, ?_, ?_⟩
  · intro failure hfailure name hname hpackage content
    obtain ⟨places, hplace, hkeeps⟩ := delivered_failing hrun hfailure hname hpackage
    exact hkeeps.files _ hplace content
  · intro hmode hdirectory
    exact (hspared hmode).mpr (not_overwrites_of_directory hnames hdirectory)
  · intro hmode htree hdown
    refine (hspared hmode).mpr (not_overwrites_of_tree hnames htree fun name hname => ⟨?_, ?_⟩)
    · rintro rfl
      exact self_not_mem_read text hname
    · rintro rfl
      exact hdown hname

/-- Without a package the disk is as it was, with one the delivery keeps what it is to keep. -/
theorem delivery_keeps_files (settings : Settings) (heading : Option Json)
    (schemaPath text : String) (disk : Disk) :
    match runFor settings heading schemaPath disk with
    | none => (deliver settings heading schemaPath text disk).disk = disk
    | some run =>
      (deliver settings heading schemaPath text disk).disk =
        (delivered settings (Path.read text) disk run).disk ∧
      Kept settings (Path.read text) disk run (delivered settings (Path.read text) disk run) := by
  cases hfor : runFor settings heading schemaPath disk with
  | none => exact deliver_of_none text hfor
  | some run =>
      obtain ⟨schema, -, hrun⟩ := runFor_eq_some hfor
      exact ⟨deliver_disk text hfor, kept_delivered hrun⟩

/-! ## A directory that is missing -/

/-- A schema of one class, and a file of the name that its own is to have. -/
def occupiedDisk : Disk := ⟨[], [
  (["schema.json"], .file "\x7b\"definitions\": \x7b\"Room\": \x7b\x7d\x7d\x7d".toUTF8),
  (["Room.py"], .file "mine".toUTF8)]⟩

/-- Behind a directory that is missing the file is found when it is too late to spare it. -/
theorem missing_directory_overwrites :
    ¬ KeepsEarlier [] (Path.read "attic/..") occupiedDisk
      (deliver (plainSettings .error) none "schema.json" "attic/.." occupiedDisk).disk := by
  intro hkeeps
  have hother : ["Room.py"] ≠ placeOf [] (Path.read "attic/..") packageFile := by decide +kernel
  have hfile : occupiedDisk.get? ["Room.py"] = some (.file "mine".toUTF8) := by decide +kernel
  have hlost : (deliver (plainSettings .error) none "schema.json" "attic/.." occupiedDisk).disk.get?
      ["Room.py"] ≠ some (.file "mine".toUTF8) := by decide +kernel
  exact hlost (hkeeps _ hother _ hfile)

end ModelMint.Delivery
