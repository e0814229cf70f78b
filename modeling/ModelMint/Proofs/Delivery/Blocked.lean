import ModelMint.Proofs.Delivery.Files

/-!
# Files that can not be written

In a directory that is there the files of a delivery are taken one by one.  What is to be
spared is passed over, and the files behind it are written all the same.  A directory where a
file is to stand, or a name that is too long, is left to the disk, and there the delivery ends.
-/

namespace ModelMint.Delivery

open ModelMint.Blueprint
open ModelMint.Disk
open ModelMint.Package (IsFileName)

variable {settings : Settings} {output : Path} {file : String × String}
  {files : List (String × String)} {before : Delivery} {disk : Disk} {name : String}

/-! ## What stands in the way -/

/-- What stands in the place of a file can not be replaced: it is to be spared, or it is a
directory. -/
def Blocked (settings : Settings) (disk : Disk) (output : Path) (name : String) : Prop :=
  Spares settings name ∧ (disk.get? (placeOf disk.here output name)).isSome ∨
    disk.get? (placeOf disk.here output name) = some .directory

/-- Something is to be spared, and the disk can tell that it is there. -/
def Refused (settings : Settings) (disk : Disk) (output : Path) (name : String) : Prop :=
  Spares settings name ∧ name.utf8ByteSize ≤ longestName ∧
    (disk.get? (placeOf disk.here output name)).isSome

/-- It is left to the disk to write the file, and the disk can not: the name is too long for the
draft of the file, or a directory has it. -/
def Stuck (settings : Settings) (disk : Disk) (output : Path) (name : String) : Prop :=
  ¬ Refused settings disk output name ∧ (name.utf8ByteSize + draftBytes > longestName ∨
    disk.get? (placeOf disk.here output name) = some .directory)

instance : Decidable (Blocked settings disk output name) := inferInstanceAs (Decidable (_ ∨ _))

instance : Decidable (Refused settings disk output name) := inferInstanceAs (Decidable (_ ∧ _))

instance : Decidable (Stuck settings disk output name) := inferInstanceAs (Decidable (_ ∧ _))

theorem Refused.blocked (h : Refused settings disk output name) :
    Blocked settings disk output name :=
  .inl ⟨h.1, h.2.2⟩

/-- What blocks a file is found in time, or not before the disk is asked to write. -/
theorem Blocked.refused (h : Blocked settings disk output name)
    (hstuck : ¬ Stuck settings disk output name) : Refused settings disk output name := by
  by_contra hrefused
  have hfits : ¬ name.utf8ByteSize + draftBytes > longestName :=
    fun hlong => hstuck ⟨hrefused, .inl hlong⟩
  rcases h with ⟨hspares, hheld⟩ | hdirectory
  · exact hrefused ⟨hspares, by omega, hheld⟩
  · exact hstuck ⟨hrefused, .inr hdirectory⟩

/-- What becomes of a file hangs on its own place only. -/
theorem refused_congr {other : Disk} (hhere : other.here = disk.here)
    (hplace : other.get? (placeOf disk.here output name) =
      disk.get? (placeOf disk.here output name)) :
    Refused settings other output name ↔ Refused settings disk output name := by
  unfold Refused
  rw [hhere, hplace]

theorem stuck_congr {other : Disk} (hhere : other.here = disk.here)
    (hplace : other.get? (placeOf disk.here output name) =
      disk.get? (placeOf disk.here output name)) :
    Stuck settings other output name ↔ Stuck settings disk output name := by
  unfold Stuck
  rw [refused_congr hhere hplace, hhere, hplace]

/-! ## One file -/

/-- What comes of a file in a directory that is there. -/
inductive Taken (settings : Settings) (output : Path) (file : String × String)
    (before : Delivery) : Delivery × Except Fault Unit → Prop
  | wrote {after : Delivery} (free : ¬ Refused settings before.disk output file.1)
      (writable : ¬ Stuck settings before.disk output file.1)
      (disk : after.disk =
        before.disk.put (placeOf before.disk.here output file.1) (.file file.2.toUTF8))
      (failures : after.failures = before.failures) :
      Taken settings output file before (after, .ok ())
  | refused {after : Delivery} {failure : Schema.Failure}
      (held : Refused settings before.disk output file.1) (disk : after.disk = before.disk)
      (failures : after.failures = before.failures ++ [failure]) :
      Taken settings output file before (after, .ok ())
  | stuck {after : Delivery} {fault : Fault} (held : Stuck settings before.disk output file.1) :
      Taken settings output file before (after, .error fault)

theorem taken_of_write (hdirectory : before.disk.look output = .ok .directory)
    (hname : IsFileName file.1) (hfree : ¬ Refused settings before.disk output file.1)
    (hwrite : writeFile settings (output.child file.1) file.2 before.disk =
      before.disk.writeSource (output.child file.1) file.2 false) :
    Taken settings output file before (addFile settings output file before) := by
  have hproper : namesFile (output.child file.1) = true := by
    obtain ⟨stem, hstem, -⟩ := hname
    rw [hstem]
    exact Package.namesFile_fileOf output stem
  have hchild := write_child file.2.toUTF8 hdirectory hname.not_mem hproper
  rw [← Place.resolve_child, ← placeOf] at hchild
  unfold addFile
  simp only
  rw [hwrite]
  simp only [writeSource, writeText, Bool.not_false, if_true]
  rw [hchild]
  by_cases hlong : file.1.utf8ByteSize + draftBytes > longestName
  · rw [if_pos hlong]
    exact .stuck ⟨hfree, .inl hlong⟩
  · rw [if_neg hlong]
    by_cases htaken :
        before.disk.get? (placeOf before.disk.here output file.1) = some .directory
    · rw [if_pos htaken]
      exact .stuck ⟨hfree, .inr htaken⟩
    · rw [if_neg htaken]
      exact .wrote hfree (fun hstuck => hstuck.2.elim hlong htaken) rfl rfl

theorem taken_addFile (settings : Settings) (hdirectory : before.disk.look output = .ok .directory)
    (hname : IsFileName file.1) :
    Taken settings output file before (addFile settings output file before) := by
  have hwrite := writeFile_eq settings output file before.disk
  by_cases hspares : Spares settings file.1
  · rw [if_pos hspares] at hwrite
    unfold writeNewSource at hwrite
    rw [holds_child hdirectory hname.not_mem, ← Place.resolve_child, ← placeOf] at hwrite
    by_cases hlong : file.1.utf8ByteSize > longestName
    · rw [if_pos hlong] at hwrite
      unfold addFile
      simp only [hwrite]
      refine .stuck ⟨fun hrefused => ?_, .inl (by omega)⟩
      exact absurd hrefused.2.1 (by omega)
    · rw [if_neg hlong] at hwrite
      cases hheld : (before.disk.get? (placeOf before.disk.here output file.1)).isSome with
      | true =>
          rw [hheld] at hwrite
          unfold addFile
          simp only [hwrite]
          exact .refused ⟨hspares, by omega, hheld⟩ rfl rfl
      | false =>
          rw [hheld] at hwrite
          refine taken_of_write hdirectory hname (fun hrefused => ?_) hwrite
          rw [hrefused.2.2] at hheld
          cases hheld
  · rw [if_neg hspares] at hwrite
    exact taken_of_write hdirectory hname (fun hrefused => hspares hrefused.1) hwrite

/-! ## All files -/

theorem addFiles_failures_prefix (settings : Settings) (output : Path)
    (files : List (String × String)) (before : Delivery) :
    before.failures <+: (addFiles settings output files before).1.failures := by
  induction files generalizing before with
  | nil => exact List.prefix_refl _
  | cons file rest ih =>
      have hadded := added_addFile settings output file before
      unfold addFiles
      generalize addFile settings output file before = result at hadded
      cases hadded with
      | wrote free done keeps there directory failures =>
          rw [← failures]
          exact ih _
      | refused spares held disk named failures =>
          refine List.IsPrefix.trans ?_ (ih _)
          rw [failures]
          exact List.prefix_append _ _
      | stopped keeps undone failures =>
          simp only
          rw [failures]

/-- What comes of files in a directory that is there: the delivery ends before the first file that
the disk can not write, and up to there it writes what it does not refuse. -/
structure Gone (settings : Settings) (output : Path) (files : List (String × String))
    (before : Delivery) (result : Delivery × Except Fault Unit) : Prop where
  finished : result.2 = .ok () ↔ ∀ file ∈ files, ¬ Stuck settings before.disk output file.1
  written : ∀ earlier file later, files = earlier ++ file :: later →
    (∀ other ∈ earlier, ¬ Stuck settings before.disk output other.1) →
    ¬ Stuck settings before.disk output file.1 → ¬ Refused settings before.disk output file.1 →
    result.1.disk.get? (placeOf before.disk.here output file.1) = some (.file file.2.toUTF8)
  reported : result.2 = .ok () → (∃ file ∈ files, Refused settings before.disk output file.1) →
    result.1.failures ≠ []

/-- A file that does not end the delivery leaves the places of the others as they were. -/
theorem Gone.cons {rest : List (String × String)} {middle : Delivery}
    {result : Delivery × Except Fault Unit} (h : Gone settings output rest middle result)
    (hhere : middle.disk.here = before.disk.here)
    (hplaces : ∀ other ∈ rest, middle.disk.get? (placeOf before.disk.here output other.1) =
      before.disk.get? (placeOf before.disk.here output other.1))
    (hfile : ¬ Stuck settings before.disk output file.1)
    (hwritten : ¬ Refused settings before.disk output file.1 →
      result.1.disk.get? (placeOf before.disk.here output file.1) = some (.file file.2.toUTF8))
    (hreported : Refused settings before.disk output file.1 → result.1.failures ≠ []) :
    Gone settings output (file :: rest) before result where
  finished := by
    rw [h.finished, List.forall_mem_cons]
    have hsame : (∀ other ∈ rest, ¬ Stuck settings middle.disk output other.1) ↔
        ∀ other ∈ rest, ¬ Stuck settings before.disk output other.1 :=
      forall₂_congr fun other hother => not_congr (stuck_congr hhere (hplaces other hother))
    rw [hsame]
    exact ⟨fun hrest => ⟨hfile, hrest⟩, And.right⟩
  written := by
    intro earlier other later hfiles hearlier hother hfree
    cases earlier with
    | nil =>
        obtain ⟨rfl, rfl⟩ := List.cons.inj hfiles
        exact hwritten hfree
    | cons first earlier =>
        obtain ⟨rfl, rfl⟩ := List.cons.inj hfiles
        have hmember : other ∈ earlier ++ other :: later := by simp
        rw [← stuck_congr hhere (hplaces other hmember)] at hother
        rw [← refused_congr hhere (hplaces other hmember)] at hfree
        rw [← hhere]
        refine h.written earlier other later rfl (fun before hbefore => ?_) hother hfree
        rw [stuck_congr hhere (hplaces before (List.mem_append_left _ hbefore))]
        exact hearlier before (List.mem_cons_of_mem _ hbefore)
  reported := by
    rintro hdone ⟨other, hother, hrefused⟩
    rcases List.mem_cons.mp hother with rfl | hother
    · exact hreported hrefused
    · rw [← refused_congr hhere (hplaces other hother)] at hrefused
      exact h.reported hdone ⟨other, hother, hrefused⟩

/-- Nothing is done about the first file that the disk can not write, nor about those behind it. -/
theorem Gone.of_stuck {rest : List (String × String)} {after : Delivery} {fault : Fault}
    (hstuck : Stuck settings before.disk output file.1) :
    Gone settings output (file :: rest) before (after, .error fault) where
  finished := ⟨nofun, fun hall => absurd hstuck (hall file List.mem_cons_self)⟩
  written := by
    intro earlier other later hfiles hearlier hother hfree
    cases earlier with
    | nil =>
        obtain ⟨rfl, rfl⟩ := List.cons.inj hfiles
        exact absurd hstuck hother
    | cons first earlier =>
        obtain ⟨rfl, rfl⟩ := List.cons.inj hfiles
        exact absurd hstuck (hearlier file List.mem_cons_self)
  reported := nofun

theorem gone_addFiles (hdirectory : before.disk.look output = .ok .directory)
    (hnames : ∀ file ∈ files, IsFileName file.1) (hdistinct : (Entries.keys files).Nodup) :
    Gone settings output files before (addFiles settings output files before) := by
  induction files generalizing before with
  | nil =>
      refine ⟨by simp [addFiles], ?_, ?_⟩
      · intro earlier file later hfiles
        simp at hfiles
      · rintro - ⟨file, hfile, -⟩
        cases hfile
  | cons file rest ih =>
      obtain ⟨hname, hrest⟩ := List.forall_mem_cons.mp hnames
      obtain ⟨hnew, hdistinct⟩ := List.nodup_cons.mp hdistinct
      -- each file has a place of its own, so what is done to one does not block another
      have hplace : placeOf before.disk.here output file.1 ∉
          placesOf before.disk.here output rest := by
        rw [placeOf_mem_placesOf hname hrest]
        exact hnew
      have hplaces : ∀ other ∈ rest, placeOf before.disk.here output other.1 ≠
          placeOf before.disk.here output file.1 :=
        fun other hother hsame => hplace (List.mem_map.mpr ⟨other, hother, hsame⟩)
      have htaken := taken_addFile settings hdirectory hname
      have hadded := added_addFile settings output file before
      unfold addFiles
      generalize addFile settings output file before = result at htaken hadded
      cases htaken with
      | wrote free writable disk failures =>
          rename_i middle
          have hhere : middle.disk.here = before.disk.here := by
            rw [disk]
            rfl
          have hroot : placeOf before.disk.here output file.1 ≠ [] := by
            obtain ⟨stem, hstem, -⟩ := hname
            rw [hstem, placeOf_fileOf]
            exact List.append_ne_nil_of_right_ne_nil _ (List.cons_ne_nil _ _)
          refine (ih hadded.directory hrest hdistinct).cons hhere ?_ writable ?_ ?_
          · intro other hother
            rw [disk, get?_put_of_ne _ _ (hplaces other hother)]
          · intro _
            refine (addFiles_keeps settings output rest middle).file ?_ ?_
            · rw [hhere]
              exact hplace
            · rw [disk, get?_put_self _ _ hroot]
          · exact fun hrefused => absurd hrefused free
      | refused held disk failures =>
          rename_i middle failure
          have hsame : middle.disk.here = before.disk.here := by rw [disk]
          refine (ih hadded.directory hrest hdistinct).cons hsame ?_
            (fun hstuck => hstuck.1 held) ?_ ?_
          · intro other hother
            rw [disk]
          · exact fun hfree => absurd held hfree
          · intro _ hnone
            have hprefix := addFiles_failures_prefix settings output rest middle
            rw [hnone, failures] at hprefix
            simp at hprefix
      | stuck held => exact .of_stuck held

/-! ## Whole deliveries -/

/-- A delivery tells of failures if it has any and the disk wrote whatever it was asked to. -/
theorem status_eq_one_iff {heading : Option Json} {schemaPath : String} (text : String)
    {run : Package.Run} (hfor : runFor settings heading schemaPath disk = some run) :
    (deliver settings heading schemaPath text disk).status = .ok 1 ↔
      (addFiles settings (Path.read text) run.package.files
        ⟨disk, run.notices, run.package.failures⟩).2 = .ok () ∧
      (delivered settings (Path.read text) disk run).failures ≠ [] := by
  rw [deliver_of_run text hfor, delivered]
  split
  next hresult => simp [hresult]
  next hresult =>
    rw [finish_status, hresult]
    simp

/-- The file stands in its place with the text that it is to have. -/
def Stands (here : Place) (output : Path) (after : Disk) (file : String × String) : Prop :=
  after.get? (placeOf here output file.1) = some (.file file.2.toUTF8)

/-- Where some files are blocked, all the others are written and the status is 1 if and only if the
disk can write every file that it is asked to.  In any case the files before the first one that it
can not write are. -/
theorem others_written_iff {heading : Option Json} {schemaPath text : String} {run : Package.Run}
    (hfor : runFor settings heading schemaPath disk = some run)
    (hdirectory : disk.holdsDirectory (Path.read text) = .ok true)
    (hblocked : ∃ file ∈ run.package.files, Blocked settings disk (Path.read text) file.1) :
    ((∀ file ∈ run.package.files, ¬ Blocked settings disk (Path.read text) file.1 →
          Stands disk.here (Path.read text)
            (deliver settings heading schemaPath text disk).disk file) ∧
        (deliver settings heading schemaPath text disk).status = .ok 1 ↔
      ∀ file ∈ run.package.files, ¬ Stuck settings disk (Path.read text) file.1) ∧
    ∀ earlier file later, run.package.files = earlier ++ file :: later →
      (∀ other ∈ earlier, ¬ Stuck settings disk (Path.read text) other.1) →
      ¬ Stuck settings disk (Path.read text) file.1 →
      ¬ Blocked settings disk (Path.read text) file.1 →
      Stands disk.here (Path.read text)
        (deliver settings heading schemaPath text disk).disk file := by
  obtain ⟨schema, -, hrun⟩ := runFor_eq_some hfor
  have hlook := holdsDirectory_eq_true.mp hdirectory
  have hgone : Gone settings (Path.read text) run.package.files
      ⟨disk, run.notices, run.package.failures⟩
      (addFiles settings (Path.read text) run.package.files
        ⟨disk, run.notices, run.package.failures⟩) :=
    gone_addFiles hlook (isFileName_of_mem_files hrun) (Package.nodup_files hrun)
  have hwritten : ∀ earlier file later, run.package.files = earlier ++ file :: later →
      (∀ other ∈ earlier, ¬ Stuck settings disk (Path.read text) other.1) →
      ¬ Stuck settings disk (Path.read text) file.1 →
      ¬ Blocked settings disk (Path.read text) file.1 →
      Stands disk.here (Path.read text)
        (deliver settings heading schemaPath text disk).disk file := by
    intro earlier file later hfiles hearlier hfile hfree
    rw [deliver_disk text hfor]
    exact hgone.written earlier file later hfiles hearlier hfile
      fun hrefused => hfree hrefused.blocked
  refine ⟨⟨?_, ?_⟩, hwritten⟩
  · rintro ⟨-, hone⟩
    exact hgone.finished.mp ((status_eq_one_iff text hfor).mp hone).1
  · intro hall
    constructor
    · intro file hfile hfree
      obtain ⟨earlier, later, hfiles⟩ := List.append_of_mem hfile
      refine hwritten earlier file later hfiles (fun other hother => hall other ?_)
        (hall file hfile) hfree
      rw [hfiles]
      exact List.mem_append_left _ hother
    · have hdone := hgone.finished.mpr hall
      obtain ⟨file, hfile, hheld⟩ := hblocked
      have hrefused := hheld.refused (hall file hfile)
      exact (status_eq_one_iff text hfor).mpr ⟨hdone, hgone.reported hdone ⟨file, hfile, hrefused⟩⟩

/-! ## Two classes, one in the way -/

/-- A schema of two classes, and something that has the name of the first file. -/
def guestDisk (held : DiskEntry) : Disk := ⟨[], [
  (["schema.json"], .file
    "\x7b\"definitions\": \x7b\"Guest\": \x7b\x7d, \"Room\": \x7b\x7d\x7d\x7d".toUTF8),
  (["out"], .directory),
  (["out", "Guest.py"], held)]⟩

/-- A run for the disk, with its two files. -/
theorem exists_guestRun (mode : OutputMode) (held : DiskEntry)
    (h : ((runFor (plainSettings mode) none "schema.json" (guestDisk held)).map
      fun run => Entries.keys run.package.files) = some ["Guest.py", "Room.py"]) :
    ∃ run guest room, runFor (plainSettings mode) none "schema.json" (guestDisk held) = some run ∧
      run.package.files = [("Guest.py", guest), ("Room.py", room)] := by
  obtain ⟨run, hrun, hkeys⟩ := Option.map_eq_some_iff.mp h
  have hlength : run.package.files.length = 2 := by
    simpa [Entries.keys] using congrArg List.length hkeys
  obtain ⟨⟨first, guest⟩, ⟨second, room⟩, hfiles⟩ := List.length_eq_two.mp hlength
  rw [hfiles] at hkeys
  simp only [Entries.keys, List.map_cons, List.map_nil] at hkeys
  cases hkeys
  exact ⟨run, guest, room, hrun, hfiles⟩

theorem others_written_iff_guest :
    ∃ run room, runFor (plainSettings .error) none "schema.json"
        (guestDisk (.file "mine".toUTF8)) = some run ∧
      (∃ file ∈ run.package.files, Blocked (plainSettings .error)
        (guestDisk (.file "mine".toUTF8)) (Path.read "out") file.1) ∧
      ("Room.py", room) ∈ run.package.files ∧
      Stands [] (Path.read "out") (deliver (plainSettings .error) none "schema.json" "out"
        (guestDisk (.file "mine".toUTF8))).disk ("Room.py", room) ∧
      (deliver (plainSettings .error) none "schema.json" "out"
        (guestDisk (.file "mine".toUTF8))).status = .ok 1 := by
  obtain ⟨run, guest, room, hfor, hfiles⟩ := exists_guestRun .error (.file "mine".toUTF8)
    (by decide +kernel)
  have hdirectory : (guestDisk (.file "mine".toUTF8)).holdsDirectory (Path.read "out") =
      .ok true := by decide +kernel
  have hguest : Blocked (plainSettings .error) (guestDisk (.file "mine".toUTF8))
      (Path.read "out") "Guest.py" := by decide +kernel
  have hroom : ¬ Blocked (plainSettings .error) (guestDisk (.file "mine".toUTF8))
      (Path.read "out") "Room.py" := by decide +kernel
  have hwritable : ∀ name ∈ ["Guest.py", "Room.py"], ¬ Stuck (plainSettings .error)
      (guestDisk (.file "mine".toUTF8)) (Path.read "out") name := by decide +kernel
  have hblocked : ∃ file ∈ run.package.files, Blocked (plainSettings .error)
      (guestDisk (.file "mine".toUTF8)) (Path.read "out") file.1 :=
    ⟨("Guest.py", guest), by simp [hfiles], hguest⟩
  obtain ⟨hwritten, hstatus⟩ := (others_written_iff hfor hdirectory hblocked).1.mpr (by
    rw [hfiles]
    intro file hfile
    exact hwritable file.1 (List.mem_map.mpr ⟨file, hfile, rfl⟩))
  have hmember : ("Room.py", room) ∈ run.package.files := by simp [hfiles]
  exact ⟨run, room, hfor, hblocked, hmember, hwritten _ hmember hroom, hstatus⟩

/-- A directory in the place of a file ends the delivery, and what is behind it is not written. -/
theorem directory_ends_delivery :
    ∃ run room, runFor (plainSettings .force) none "schema.json" (guestDisk .directory) = some run ∧
      (guestDisk .directory).holdsDirectory (Path.read "out") = .ok true ∧
      (∃ file ∈ run.package.files, Blocked (plainSettings .force) (guestDisk .directory)
        (Path.read "out") file.1) ∧
      ("Room.py", room) ∈ run.package.files ∧
      ¬ Blocked (plainSettings .force) (guestDisk .directory) (Path.read "out") "Room.py" ∧
      ¬ Stands [] (Path.read "out")
        (deliver (plainSettings .force) none "schema.json" "out" (guestDisk .directory)).disk
        ("Room.py", room) ∧
      (deliver (plainSettings .force) none "schema.json" "out" (guestDisk .directory)).status =
        .error .isDirectory := by
  obtain ⟨run, guest, room, hfor, hfiles⟩ := exists_guestRun .force .directory
    (by decide +kernel)
  have hmissing : (deliver (plainSettings .force) none "schema.json" "out"
      (guestDisk .directory)).disk.get? ["out", "Room.py"] = none := by decide +kernel
  have hguest : Blocked (plainSettings .force) (guestDisk .directory) (Path.read "out")
      "Guest.py" := by decide +kernel
  refine ⟨run, room, hfor, by decide +kernel, ⟨("Guest.py", guest), by simp [hfiles], hguest⟩,
    by simp [hfiles], by decide +kernel, ?_, by decide +kernel⟩
  intro hstands
  have hplace : placeOf [] (Path.read "out") "Room.py" = ["out", "Room.py"] := by decide +kernel
  rw [Stands, hplace, hmissing] at hstands
  cases hstands

end ModelMint.Delivery
