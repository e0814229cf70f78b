import ModelMint.Delivery
import ModelMint.Proofs.Disk.Frame
import ModelMint.Proofs.Entries
import ModelMint.Proofs.Package.Layout

/-!
# The files of a delivery

Every file of a package has a place of its own in the output directory.  A delivery takes
them in order: each is written as a whole or refused without a trace, until the disk fails.
-/

namespace ModelMint.Package

variable {settings : Settings} {comment schema : Json} {run : Run}

/-! ## Names of files -/

theorem packageFile_eq : packageFile = fileOf "__init__" := rfl

theorem three_le_length_fileOf (name : String) : 3 ≤ (fileOf name).length := by
  have hending : ".py".length = 3 := rfl
  rw [fileOf, String.length_append, hending]
  omega

theorem fileOf_ne {name other : String} (h : other.length < 3) : fileOf name ≠ other := by
  intro hsame
  have := three_le_length_fileOf name
  rw [hsame] at this
  omega

theorem step_fileOf (place : Place) (name : String) :
    place.step (fileOf name) = place ++ [fileOf name] := by
  have hself : fileOf name ≠ Path.self := fileOf_ne (by decide)
  have habove : fileOf name ≠ Path.above := fileOf_ne (by decide)
  simp [Place.step, hself, habove]

theorem namesFile_fileOf (path : Path) (name : String) :
    Disk.namesFile (path.child (fileOf name)) = true := by
  have hempty : fileOf name ≠ "" := fileOf_ne (by decide)
  have hself : fileOf name ≠ Path.self := fileOf_ne (by decide)
  have habove : fileOf name ≠ Path.above := fileOf_ne (by decide)
  simp [Disk.namesFile, hempty, hself, habove]

/-- The name of a file, made of a class name or of the word for the package. -/
def IsFileName (file : String) : Prop :=
  ∃ name, file = fileOf name ∧ Text.isPlainName name.toList = true

theorem IsFileName.not_mem {file : String} (h : IsFileName file) : '\x00' ∉ file.toList := by
  obtain ⟨name, rfl, hplain⟩ := h
  have hname : '\x00' ∉ name.toList := not_mem_of_isPlainName hplain (by decide) (by decide)
  rw [fileOf, String.toList_append, List.mem_append, not_or]
  exact ⟨hname, by decide⟩

/-! ## The files of a run -/

/-- The files that the classes of a package and the package itself may have. -/
def fileNames (package : Package) : List String := package.classes.map fileOf ++ [packageFile]

theorem mem_keys_foldl_addFile {modules : List Emit.ClassModule} {files : List (String × String)}
    {file : String} (h : file ∈ Entries.keys (modules.foldl addFile files)) :
    file ∈ Entries.keys files ∨ file ∈ modules.map fun module => fileOf module.name := by
  induction modules generalizing files with
  | nil => exact .inl h
  | cons first rest ih =>
      rw [List.map_cons, List.mem_cons]
      rcases ih h with hadded | hrest
      · rcases Entries.mem_keys_insert.mp hadded with hfirst | hold
        · exact .inr (.inl hfirst)
        · exact .inl hold
      · exact .inr (.inr hrest)

theorem keys_subset_fileNames (hrun : generate settings comment schema = .ok run) :
    Entries.keys run.package.files ⊆ fileNames run.package := by
  obtain ⟨document, added, hran⟩ := generate_eq_ok hrun
  have hclasses : ∀ file ∈ Entries.keys (run.package.modules.foldl addFile []),
      file ∈ run.package.classes.map fileOf := by
    intro file hfile
    rw [classes, List.map_map]
    exact (mem_keys_foldl_addFile hfile).resolve_left (by simp [Entries.keys])
  intro file hfile
  rw [fileNames, List.mem_append, List.mem_singleton]
  cases hpackage : settings.packageFile.truthy with
  | false =>
      rw [hran.files hpackage] at hfile
      exact .inl (hclasses file hfile)
  | true =>
      obtain ⟨lines, -, hfiles⟩ := hran.filesOfPackage hpackage
      rw [hfiles, Entries.mem_keys_insert] at hfile
      rcases hfile with rfl | hclass
      · exact .inr rfl
      · exact .inl (hclasses file hclass)

theorem isFileName_of_mem (hrun : generate settings comment schema = .ok run) {file : String}
    (hfile : file ∈ fileNames run.package) : IsFileName file := by
  obtain ⟨document, added, hran⟩ := generate_eq_ok hrun
  rcases List.mem_append.mp hfile with hclass | hpackage
  · obtain ⟨name, hname, rfl⟩ := List.mem_map.mp hclass
    exact ⟨name, rfl, hran.plain_of_mem_classes name hname⟩
  · obtain rfl := List.mem_singleton.mp hpackage
    exact ⟨"__init__", rfl, by decide⟩

theorem nodup_files (hrun : generate settings comment schema = .ok run) :
    (Entries.keys run.package.files).Nodup := by
  obtain ⟨document, added, hran⟩ := generate_eq_ok hrun
  have hfold : ∀ (modules : List Emit.ClassModule) (files : List (String × String)),
      (Entries.keys files).Nodup → (Entries.keys (modules.foldl addFile files)).Nodup := by
    intro modules
    induction modules with
    | nil => exact fun files hfiles => hfiles
    | cons first rest ih => exact fun files hfiles => ih _ (Entries.nodup_keys_insert hfiles)
  have hmodules := hfold run.package.modules [] List.nodup_nil
  cases hpackage : settings.packageFile.truthy with
  | false => rwa [hran.files hpackage]
  | true =>
      obtain ⟨lines, -, hfiles⟩ := hran.filesOfPackage hpackage
      rw [hfiles]
      exact Entries.nodup_keys_insert hmodules

end ModelMint.Package

namespace ModelMint.Delivery

open ModelMint.Blueprint
open ModelMint.Disk
open ModelMint.Package (IsFileName fileOf packageFile)

variable {settings : Settings} {output : Path} {file : String × String} {before after : Delivery}

/-! ## Places -/

/-- The place of a file in the output directory. -/
def placeOf (here : Place) (output : Path) (file : String) : Place :=
  Place.resolve here (output.child file)

theorem placeOf_fileOf (here : Place) (output : Path) (name : String) :
    placeOf here output (fileOf name) = Place.resolve here output ++ [fileOf name] := by
  rw [placeOf, Place.resolve_child, Package.step_fileOf]

theorem placeOf_inj {here : Place} {file other : String} (hfile : IsFileName file)
    (hother : IsFileName other) :
    placeOf here output file = placeOf here output other ↔ file = other := by
  obtain ⟨name, rfl, -⟩ := hfile
  obtain ⟨second, rfl, -⟩ := hother
  rw [placeOf_fileOf, placeOf_fileOf]
  constructor
  · intro hsame
    exact (List.cons.inj (List.append_cancel_left hsame)).1
  · intro hsame
    rw [hsame]

/-! ## One file -/

/-- Whether a file that is there is left alone. -/
def Spares (settings : Settings) (file : String) : Prop :=
  settings.output.mode = .error ∧ file ≠ packageFile

instance (settings : Settings) (file : String) : Decidable (Spares settings file) :=
  inferInstanceAs (Decidable (_ ∧ _))

/-- What comes of a file: it stands in its place, or it is refused because something stands there,
or the disk fails and the delivery ends. -/
inductive Added (settings : Settings) (output : Path) (file : String × String)
    (before : Delivery) : Delivery × Except Fault Unit → Prop
  | wrote {after : Delivery}
      (free : Spares settings file.1 → before.disk.holds (output.child file.1) = .ok false)
      (done : (before.disk.writeText (output.child file.1) file.2).result = .ok ())
      (keeps : Keeps [placeOf before.disk.here output file.1] before.disk after.disk)
      (there : after.disk.get? (placeOf before.disk.here output file.1) =
        some (.file file.2.toUTF8))
      (directory : after.disk.look output = .ok .directory)
      (failures : after.failures = before.failures) :
      Added settings output file before (after, .ok ())
  | refused {after : Delivery} {failure : Schema.Failure} (spares : Spares settings file.1)
      (held : before.disk.holds (output.child file.1) = .ok true)
      (disk : after.disk = before.disk)
      (named : failure.context.definition = some (Path.stem file.1))
      (failures : after.failures = before.failures ++ [failure]) :
      Added settings output file before (after, .ok ())
  | stopped {after : Delivery} {fault : Fault} (keeps : Keeps [] before.disk after.disk)
      (undone : before.disk.holds (output.child file.1) = .ok false →
        (before.disk.writeText (output.child file.1) file.2).result ≠ .ok ())
      (failures : after.failures = before.failures) :
      Added settings output file before (after, .error fault)

theorem writeFile_eq (settings : Settings) (output : Path) (file : String × String) (disk : Disk) :
    writeFile settings (output.child file.1) file.2 disk =
      if Spares settings file.1 then disk.writeNewSource (output.child file.1) file.2 false
      else disk.writeSource (output.child file.1) file.2 false := by
  unfold writeFile
  rw [Path.name_child]
  by_cases hspares : Spares settings file.1
  · rw [if_pos hspares, if_pos (by simpa [Spares] using hspares)]
  · rw [if_neg hspares, if_neg (by simpa [Spares] using hspares)]

theorem added_of_write
    (hfree : Spares settings file.1 → before.disk.holds (output.child file.1) = .ok false)
    (hwrite : writeFile settings (output.child file.1) file.2 before.disk =
      before.disk.writeSource (output.child file.1) file.2 false) :
    Added settings output file before (addFile settings output file before) := by
  have hwritten := written_write before.disk (output.child file.1) file.2.toUTF8
  have hdone : (before.disk.writeText (output.child file.1) file.2).result =
      (before.disk.write (output.child file.1) file.2.toUTF8).result := rfl
  unfold addFile
  simp only
  rw [hwrite]
  simp only [writeSource, writeText, Bool.not_false, if_true]
  generalize before.disk.write (output.child file.1) file.2.toUTF8 = change at hwritten hdone
  cases hwritten with
  | done keeps parent there =>
      rw [Path.parent_child] at parent
      exact .wrote hfree hdone keeps there parent rfl
  | failed keeps => exact .stopped keeps (fun _ => by simp [hdone]) rfl

theorem added_addFile (settings : Settings) (output : Path) (file : String × String)
    (before : Delivery) :
    Added settings output file before (addFile settings output file before) := by
  by_cases hspares : Spares settings file.1
  · have hwrite := writeFile_eq settings output file before.disk
    rw [if_pos hspares] at hwrite
    unfold writeNewSource at hwrite
    cases hholds : before.disk.holds (output.child file.1) with
    | error fault =>
        rw [hholds] at hwrite
        unfold addFile
        simp only [hwrite]
        exact .stopped (Keeps.refl _ _) (by simp [hholds]) rfl
    | ok held =>
        rw [hholds] at hwrite
        cases held with
        | false => exact added_of_write (fun _ => hholds) hwrite
        | true =>
            unfold addFile
            simp only [hwrite]
            exact .refused hspares hholds rfl rfl rfl
  · refine added_of_write (fun h => absurd h hspares) ?_
    rw [writeFile_eq, if_neg hspares]

theorem Added.keeps {result : Delivery × Except Fault Unit}
    (h : Added settings output file before result) :
    Keeps [placeOf before.disk.here output file.1] before.disk result.1.disk := by
  cases h with
  | wrote free done keeps there directory failures => exact keeps
  | refused spares held disk named failures =>
      rw [disk]
      exact Keeps.refl _ _
  | stopped keeps undone failures => exact keeps.mono (List.nil_subset _)

/-- A file that was not stopped at leaves the output directory behind, if it was there or not. -/
theorem Added.directory (h : Added settings output file before (after, .ok ())) :
    after.disk.look output = .ok .directory := by
  cases h with
  | wrote free done keeps there directory failures => exact directory
  | refused spares held disk named failures =>
      obtain ⟨entry, hentry⟩ := holds_eq_true held
      rw [disk]
      exact look_of_child hentry

/-! ## All files -/

def placesOf (here : Place) (output : Path) (files : List (String × String)) : List Place :=
  files.map fun file => placeOf here output file.1

theorem placeOf_mem_placesOf {here : Place} {name : String} {files : List (String × String)}
    (hname : IsFileName name) (hnames : ∀ file ∈ files, IsFileName file.1) :
    placeOf here output name ∈ placesOf here output files ↔ name ∈ Entries.keys files := by
  constructor
  · intro hmem
    obtain ⟨other, hother, hsame⟩ := List.mem_map.mp hmem
    rw [placeOf_inj (hnames other hother) hname] at hsame
    exact List.mem_map.mpr ⟨other, hother, hsame⟩
  · intro hmem
    obtain ⟨other, hother, rfl⟩ := List.mem_map.mp hmem
    exact List.mem_map.mpr ⟨other, hother, rfl⟩

theorem addFiles_keeps (settings : Settings) (output : Path) (files : List (String × String))
    (before : Delivery) :
    Keeps (placesOf before.disk.here output files) before.disk
      (addFiles settings output files before).1.disk := by
  induction files generalizing before with
  | nil => exact Keeps.refl _ _
  | cons file rest ih =>
      have hadded := added_addFile settings output file before
      have hfirst := hadded.keeps
      have hhead : Keeps (placesOf before.disk.here output (file :: rest)) before.disk
          (addFile settings output file before).1.disk :=
        hfirst.mono (by simp [placesOf])
      unfold addFiles
      generalize addFile settings output file before = result at hfirst hhead
      obtain ⟨middle, answer⟩ := result
      cases answer with
      | error fault => exact hhead
      | ok done =>
          have hlater := ih middle
          rw [hfirst.here] at hlater
          exact hhead.trans (hlater.mono (List.subset_cons_self _ _))

/-! ## Whole deliveries -/

variable {heading : Option Json} {schemaPath : String} {disk : Disk} {run : Package.Run}

/-- The run whose package is delivered, where there is one. -/
def runFor (settings : Settings) (heading : Option Json) (schemaPath : String) (disk : Disk) :
    Option Package.Run :=
  match loadSchema disk (Path.readAsGiven schemaPath) with
  | .loaded schema =>
    (Package.generate settings (heading.getD (standardHeading schemaPath)) schema).toOption
  | _ => none

theorem isFileName_of_mem_files {comment schema : Json}
    (hrun : Package.generate settings comment schema = .ok run) :
    ∀ file ∈ run.package.files, IsFileName file.1 := fun file hfile =>
  Package.isFileName_of_mem hrun
    (Package.keys_subset_fileNames hrun (List.mem_map.mpr ⟨file, hfile, rfl⟩))

/-- What was done when the files of the run had been taken, or the disk had failed. -/
def delivered (settings : Settings) (output : Path) (disk : Disk) (run : Package.Run) : Delivery :=
  (addFiles settings output run.package.files ⟨disk, run.notices, run.package.failures⟩).1

/-- Settings for the files of the classes alone, whose texts are not checked. -/
def plainSettings (mode : OutputMode) : Settings :=
  { output := { mode, validate := .bool false }, packageFile := .bool false }

theorem runFor_eq_some (h : runFor settings heading schemaPath disk = some run) :
    ∃ schema, loadSchema disk (Path.readAsGiven schemaPath) = .loaded schema ∧
      Package.generate settings (heading.getD (standardHeading schemaPath)) schema = .ok run := by
  unfold runFor at h
  split at h
  next schema hload =>
    refine ⟨schema, hload, ?_⟩
    cases hrun : Package.generate settings (heading.getD (standardHeading schemaPath)) schema with
    | error halt =>
        rw [hrun] at h
        cases h
    | ok made =>
        rw [hrun] at h
        cases h
        rfl
  · cases h

theorem deliver_of_none (text : String) (h : runFor settings heading schemaPath disk = none) :
    (deliver settings heading schemaPath text disk).disk = disk := by
  unfold runFor at h
  unfold deliver
  generalize loadSchema disk (Path.readAsGiven schemaPath) = load at h
  cases load with
  | broken fault => rfl
  | unreadable => rfl
  | loaded schema =>
      simp only at h ⊢
      unfold deliverDocument
      cases hrun : Package.generate settings (heading.getD (standardHeading schemaPath)) schema with
      | error halt =>
          simp only
          split <;> rfl
      | ok made =>
          rw [hrun] at h
          cases h

theorem deliver_of_run (text : String) (h : runFor settings heading schemaPath disk = some run) :
    deliver settings heading schemaPath text disk =
      match addFiles settings (Path.read text) run.package.files
        ⟨disk, run.notices, run.package.failures⟩ with
      | (delivery, .error fault) => ⟨delivery.disk, delivery.notices, .error fault⟩
      | (delivery, .ok ()) => delivery.finish text run.package := by
  obtain ⟨schema, hload, hrun⟩ := runFor_eq_some h
  unfold deliver deliverDocument
  generalize hresult : addFiles settings (Path.read text) run.package.files
    ⟨disk, run.notices, run.package.failures⟩ = result
  obtain ⟨last, answer⟩ := result
  cases answer with
  | error fault => simp only [hload, hrun, hresult]
  | ok done => simp only [hload, hrun, hresult]

theorem finish_disk (text : String) (package : Package) (delivery : Delivery) :
    (delivery.finish text package).disk = delivery.disk := by
  unfold finish
  split <;> rfl

theorem finish_status (text : String) (package : Package) (delivery : Delivery) :
    (delivery.finish text package).status = .ok (if delivery.failures.isEmpty then 0 else 1) := by
  unfold finish
  split <;> rfl

theorem deliver_disk (text : String) (h : runFor settings heading schemaPath disk = some run) :
    (deliver settings heading schemaPath text disk).disk =
      (delivered settings (Path.read text) disk run).disk := by
  rw [deliver_of_run text h, delivered]
  split
  next hresult => rw [hresult]
  next hresult => rw [hresult, finish_disk]

end ModelMint.Delivery
