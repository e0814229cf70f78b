import Mathlib.Data.List.Basic
import ModelMint.Disk.Write

/-!
# What writing leaves alone

A path is followed to the place that its names spell.  Making directories changes no file,
and writing a file changes no other; where it fails every file is as it was.
-/

namespace ModelMint

theorem Place.resolve_child (here : Place) (path : Path) (name : String) :
    Place.resolve here (path.child name) = (Place.resolve here path).step name := by
  simp only [Place.resolve, Path.child, List.foldl_append]
  rfl

theorem Path.holdsNul_child {path : Path} {name : String} :
    (path.child name).holdsNul = false ↔ path.holdsNul = false ∧ '\x00' ∉ name.toList := by
  simp [holdsNul, child, List.any_append]

namespace Disk

variable {disk before middle after next : Disk} {places others : List Place} {path : Path}
  {place target : Place} {fault : Fault}

/-! ## Frames -/

/-- Outside of some places the files are those from before, and no directory is lost. -/
structure Keeps (places : List Place) (before after : Disk) : Prop where
  here : after.here = before.here
  files : ∀ place, place ∉ places → ∀ content,
    after.get? place = some (.file content) ↔ before.get? place = some (.file content)
  directories : ∀ place, before.get? place = some .directory → after.get? place = some .directory

theorem Keeps.refl (places : List Place) (disk : Disk) : Keeps places disk disk :=
  ⟨rfl, fun _ _ _ => Iff.rfl, fun _ h => h⟩

theorem Keeps.mono (h : Keeps places before after) (hsubset : places ⊆ others) :
    Keeps others before after where
  here := h.here
  files place hplace := h.files place fun hmem => hplace (hsubset hmem)
  directories := h.directories

theorem Keeps.trans (h : Keeps places before middle) (hlater : Keeps places middle after) :
    Keeps places before after where
  here := hlater.here.trans h.here
  files place hplace content :=
    (hlater.files place hplace content).trans (h.files place hplace content)
  directories place hplace := hlater.directories place (h.directories place hplace)

theorem Keeps.file (h : Keeps places before after) (hplace : place ∉ places) {content : ByteArray}
    (hfile : before.get? place = some (.file content)) :
    after.get? place = some (.file content) :=
  (h.files place hplace content).mpr hfile

theorem get?_root (disk : Disk) : disk.get? [] = some .directory := rfl

theorem ne_root_of_get? (disk : Disk) (h : disk.get? place ≠ some .directory) : place ≠ [] := by
  rintro rfl
  exact h disk.get?_root

/-- Where there is no directory, a new entry changes nothing else. -/
theorem keeps_put (entry : DiskEntry) (h : disk.get? place ≠ some .directory) :
    Keeps [place] disk (disk.put place entry) where
  here := rfl
  files other hother content := by
    rw [get?_put_of_ne disk entry (by simpa using hother)]
  directories other hother := by
    by_cases hsame : other = place
    · rw [hsame] at hother
      contradiction
    · rw [get?_put_of_ne disk entry hsame]
      exact hother

theorem keeps_put_directory (h : disk.get? place = none) :
    Keeps [] disk (disk.put place .directory) where
  here := rfl
  files other _ content := by
    by_cases hsame : other = place
    · have hroot : place ≠ [] := ne_root_of_get? disk (by simp [h])
      rw [hsame, h, get?_put_self disk _ hroot]
      simp
    · rw [get?_put_of_ne disk _ hsame]
  directories := (keeps_put .directory (by simp [h])).directories

/-! ## Following paths -/

theorem follow_eq_ok {names : List String} (h : disk.follow place names = .ok target) :
    target = names.foldl Place.step place := by
  induction names generalizing place with
  | nil =>
      cases h
      rfl
  | cons name rest ih =>
      unfold follow at h
      split at h
      · cases h
      · cases h
      · split at h
        · cases h
        · exact ih h

theorem find_eq_follow (disk : Disk) (h : path.holdsNul = false) :
    disk.find path = disk.follow (if path.fromRoot then [] else disk.here) path.names := by
  rw [find, h]
  rfl

theorem holdsNul_of_find (h : disk.find path = .ok place) : path.holdsNul = false := by
  cases hnul : path.holdsNul with
  | false => rfl
  | true =>
      rw [find, hnul] at h
      cases h

theorem find_eq_ok (h : disk.find path = .ok place) : place = Place.resolve disk.here path := by
  rw [find_eq_follow disk (holdsNul_of_find h)] at h
  exact follow_eq_ok h

/-- The last name of a path is looked for in a directory. -/
theorem follow_above {names : List String} {name : String}
    (h : disk.follow place (names ++ [name]) = .ok target) :
    ∃ middle, disk.follow place names = .ok middle ∧ disk.get? middle = some .directory := by
  -- on the names before the last one, from any place
  induction names generalizing place with
  | nil =>
      rw [List.nil_append] at h
      unfold follow at h
      split at h
      · cases h
      · cases h
      next hstart => exact ⟨place, rfl, hstart⟩
  | cons first rest ih =>
      rw [List.cons_append] at h
      unfold follow at h ⊢
      split at h
      · cases h
      · cases h
      · split at h
        · cases h
        next hshort =>
          simp only [if_neg hshort]
          exact ih h

theorem follow_append {names : List String} (hfollow : disk.follow place names = .ok target)
    (hdirectory : disk.get? target = some .directory) (name : String) :
    disk.follow place (names ++ [name]) =
      if name.utf8ByteSize > longestName then .error .nameTooLong else .ok (target.step name) := by
  induction names generalizing place with
  | nil =>
      cases hfollow
      simp [follow, hdirectory]
  | cons first rest ih =>
      rw [List.cons_append]
      unfold follow at hfollow ⊢
      split at hfollow
      · cases hfollow
      · cases hfollow
      · split at hfollow
        · cases hfollow
        next hshort =>
          rw [if_neg hshort]
          exact ih hfollow

/-- Directories stay, and so does the way that leads through them. -/
theorem Keeps.follow (h : Keeps places before after) {names : List String}
    (hfollow : before.follow place names = .ok target) : after.follow place names = .ok target := by
  induction names generalizing place with
  | nil => exact hfollow
  | cons name rest ih =>
      unfold Disk.follow at hfollow ⊢
      split at hfollow
      · cases hfollow
      · cases hfollow
      next hdirectory =>
        rw [h.directories place hdirectory]
        split at hfollow
        · cases hfollow
        next hshort =>
          rw [if_neg hshort]
          exact ih hfollow

theorem Keeps.find (h : Keeps places before after) (hfind : before.find path = .ok place) :
    after.find path = .ok place := by
  have hproper := holdsNul_of_find hfind
  rw [find_eq_follow _ hproper] at hfind ⊢
  rw [h.here]
  exact h.follow hfind

theorem look_eq_ok {entry : DiskEntry} :
    disk.look path = .ok entry ↔
      ∃ place, disk.find path = .ok place ∧ disk.get? place = some entry := by
  unfold look
  cases disk.find path with
  | error fault => simp
  | ok place => cases hentry : disk.get? place <;> simp [hentry]

theorem holds_eq_false (h : disk.holds path = .ok false) (hfind : disk.find path = .ok place) :
    disk.get? place = none := by
  cases hentry : disk.get? place with
  | none => rfl
  | some entry =>
      have hlook : disk.look path = .ok entry := look_eq_ok.mpr ⟨place, hfind, hentry⟩
      simp [holds, look?, hlook, Except.map] at h

theorem holds_eq_true (h : disk.holds path = .ok true) : ∃ entry, disk.look path = .ok entry := by
  unfold holds look? at h
  split at h
  next entry hlook => exact ⟨entry, hlook⟩
  · cases h
  · cases h

theorem holdsDirectory_eq_true :
    disk.holdsDirectory path = .ok true ↔ disk.look path = .ok .directory := by
  unfold holdsDirectory look?
  cases hlook : disk.look path with
  | ok entry => simp [Except.map]
  | error fault => cases fault <;> simp [Except.map]

theorem Keeps.directory (h : Keeps places before after)
    (hlook : before.look path = .ok .directory) : after.look path = .ok .directory := by
  obtain ⟨place, hfind, hplace⟩ := look_eq_ok.mp hlook
  exact look_eq_ok.mpr ⟨place, h.find hfind, h.directories place hplace⟩

/-! ## In a directory that is there -/

section Child

variable {name : String}

theorem find_child (h : disk.look path = .ok .directory) (hname : '\x00' ∉ name.toList) :
    disk.find (path.child name) = if name.utf8ByteSize > longestName then .error .nameTooLong
      else .ok ((Place.resolve disk.here path).step name) := by
  obtain ⟨place, hfind, hplace⟩ := look_eq_ok.mp h
  obtain rfl := find_eq_ok hfind
  have hpath := holdsNul_of_find hfind
  rw [find_eq_follow disk hpath] at hfind
  rw [find_eq_follow disk (Path.holdsNul_child.mpr ⟨hpath, hname⟩)]
  exact follow_append hfind hplace name

theorem holds_child (h : disk.look path = .ok .directory) (hname : '\x00' ∉ name.toList) :
    disk.holds (path.child name) = if name.utf8ByteSize > longestName then .error .nameTooLong
      else .ok (disk.get? ((Place.resolve disk.here path).step name)).isSome := by
  have hfind := find_child h hname
  unfold holds look? look
  rw [hfind]
  by_cases hlong : name.utf8ByteSize > longestName
  · simp only [if_pos hlong]
    rfl
  · simp only [if_neg hlong]
    cases disk.get? ((Place.resolve disk.here path).step name) <;> rfl

theorem look_of_child {entry : DiskEntry} (h : disk.look (path.child name) = .ok entry) :
    disk.look path = .ok .directory := by
  obtain ⟨place, hfind, -⟩ := look_eq_ok.mp h
  have hchild := holdsNul_of_find hfind
  rw [find_eq_follow disk hchild] at hfind
  obtain ⟨middle, hmiddle, hdirectory⟩ := follow_above hfind
  refine look_eq_ok.mpr ⟨middle, ?_, hdirectory⟩
  rw [find_eq_follow disk (Path.holdsNul_child.mp hchild).1]
  exact hmiddle

end Child

/-! ## Making directories -/

theorem makeDirectory_eq_ok (h : disk.makeDirectory path = .ok next) :
    Keeps [] disk next ∧ next.look path = .ok .directory := by
  unfold makeDirectory at h
  split at h
  · cases h
  next place hfind =>
    split at h
    · cases h
    next hfree =>
      cases h
      have hnone : disk.get? place = none := by simpa using hfree
      have hkeeps := keeps_put_directory hnone
      have hroot : place ≠ [] := ne_root_of_get? disk (by simp [hnone])
      exact ⟨hkeeps, look_eq_ok.mpr ⟨place, hkeeps.find hfind, get?_put_self disk _ hroot⟩⟩

theorem unlessDirectory_eq_ok (h : disk.unlessDirectory path fault = .ok next) :
    next = disk ∧ disk.look path = .ok .directory := by
  unfold unlessDirectory at h
  split at h
  next hheld =>
    cases h
    exact ⟨rfl, holdsDirectory_eq_true.mp hheld⟩
  · cases h
  · cases h

/-- Making directories changes no file, and where it is done the directory is there. -/
structure Makes (path : Path) (before : Disk) (change : Change Fault) : Prop where
  keeps : Keeps [] before change.disk
  there : change.result = .ok () → change.disk.look path = .ok .directory

theorem makes_unlessDirectory (disk : Disk) (path : Path) (fault : Fault) :
    Makes path disk (.ofExcept disk (disk.unlessDirectory path fault)) := by
  cases h : disk.unlessDirectory path fault with
  | error other => exact ⟨Keeps.refl _ _, nofun⟩
  | ok next =>
      obtain ⟨rfl, hlook⟩ := unlessDirectory_eq_ok h
      exact ⟨Keeps.refl _ _, fun _ => hlook⟩

theorem makes_makeDirectoriesTo (fromRoot : Bool) (names : List String) (disk : Disk) :
    Makes ⟨fromRoot, names.reverse⟩ disk (makeDirectoriesTo fromRoot names disk) := by
  induction names generalizing disk with
  | nil => exact makes_unlessDirectory disk _ _
  | cons name above ih =>
      have hmade : ∀ {disk next : Disk} {path}, disk.makeDirectory path = .ok next →
          Makes path disk (.done next) := fun hnext =>
        ⟨(makeDirectory_eq_ok hnext).1, fun _ => (makeDirectory_eq_ok hnext).2⟩
      unfold makeDirectoriesTo
      simp only
      split
      next next hnext => exact hmade hnext
      · -- something above is missing, and is made before
        have habove := (ih disk).keeps
        unfold Change.andThen
        split
        · have hlater : ∀ {change}, Makes ⟨fromRoot, (name :: above).reverse⟩
              (makeDirectoriesTo fromRoot above disk).disk change →
              Makes ⟨fromRoot, (name :: above).reverse⟩ disk change :=
            fun hchange => ⟨habove.trans hchange.keeps, hchange.there⟩
          beta_reduce
          split
          next next hnext => exact hlater (hmade hnext)
          · exact hlater ⟨Keeps.refl _ _, nofun⟩
          · exact hlater (makes_unlessDirectory _ _ _)
        next failed hfailed =>
          refine ⟨habove, fun hdone => ?_⟩
          rw [hfailed] at hdone
          cases hdone
      · exact makes_unlessDirectory disk _ _

theorem makes_makeDirectories (disk : Disk) (path : Path) :
    Makes path disk (disk.makeDirectories path) := by
  have h := makes_makeDirectoriesTo path.fromRoot path.names.reverse disk
  rwa [List.reverse_reverse] at h

theorem makeDirectories_of_directory (h : disk.look path = .ok .directory) :
    disk.makeDirectories path = .done disk := by
  have hheld : ∀ fault, disk.unlessDirectory path fault = .ok disk := by
    intro fault
    simp [unlessDirectory, holdsDirectory_eq_true.mpr h]
  obtain ⟨place, hfind, hplace⟩ := look_eq_ok.mp h
  have hmake : disk.makeDirectory path = .error .fileExists := by
    simp [makeDirectory, hfind, hplace]
  unfold makeDirectories
  cases hnames : path.names.reverse with
  | nil =>
      have hpath : path = ⟨path.fromRoot, []⟩ := by
        rw [← List.reverse_eq_nil_iff.mp hnames]
      unfold makeDirectoriesTo
      rw [← hpath, hheld]
      rfl
  | cons name above =>
      have hpath : path = ⟨path.fromRoot, (name :: above).reverse⟩ := by
        rw [← hnames, List.reverse_reverse]
      unfold makeDirectoriesTo
      simp only
      rw [← hpath, hmake]
      simp only [hheld]
      rfl

/-! ## Writing a file -/

theorem replace_eq_ok {content : ByteArray} (h : disk.replace path content = .ok next) :
    ∃ place, disk.find path = .ok place ∧ disk.get? place ≠ some .directory ∧
      next = disk.put place (.file content) := by
  unfold replace at h
  split at h
  · cases h
  next place hfind =>
    split at h
    · cases h
    · split at h
      · cases h
      · split at h
        · cases h
        next hplace =>
          cases h
          exact ⟨place, hfind, hplace, rfl⟩

/-- What writing a file comes to: the file is there as a whole, or every file is as it was. -/
inductive Written (path : Path) (content : ByteArray) (before : Disk) : Change Fault → Prop
  | done {after : Disk} (keeps : Keeps [Place.resolve before.here path] before after)
      (parent : after.look path.parent = .ok .directory)
      (file : after.get? (Place.resolve before.here path) = some (.file content)) :
      Written path content before ⟨after, .ok ()⟩
  | failed {after : Disk} {fault : Fault} (keeps : Keeps [] before after) :
      Written path content before ⟨after, .error fault⟩

theorem written_write (disk : Disk) (path : Path) (content : ByteArray) :
    Written path content disk (disk.write path content) := by
  have hmakes := makes_makeDirectories disk path.parent
  unfold write
  generalize disk.makeDirectories path.parent = change at hmakes
  obtain ⟨middle, result⟩ := change
  cases result with
  | error fault => exact .failed hmakes.keeps
  | ok made =>
      simp only [Change.andThen]
      cases hreplace : middle.replace path content with
      | error fault => exact .failed hmakes.keeps
      | ok after =>
          obtain ⟨place, hfind, hplace, rfl⟩ := replace_eq_ok hreplace
          obtain rfl := find_eq_ok hfind
          rw [hmakes.keeps.here] at hplace ⊢
          have hput := keeps_put (.file content) hplace
          refine .done ((hmakes.keeps.mono (List.nil_subset _)).trans hput) ?_ ?_
          · exact hput.directory (hmakes.there rfl)
          · exact get?_put_self middle _ (ne_root_of_get? middle hplace)

/-- A file of a proper name in a directory that is there is written unless its name is too long
or stands for a directory. -/
theorem write_child {name : String} (content : ByteArray) (h : disk.look path = .ok .directory)
    (hname : '\x00' ∉ name.toList) (hproper : namesFile (path.child name) = true) :
    disk.write (path.child name) content =
      if name.utf8ByteSize + draftBytes > longestName then .refuse disk .nameTooLong
      else if disk.get? ((Place.resolve disk.here path).step name) = some .directory then
        .refuse disk .isDirectory
      else .done (disk.put ((Place.resolve disk.here path).step name) (.file content)) := by
  unfold write
  rw [Path.parent_child, makeDirectories_of_directory h]
  simp only [Change.done, Change.andThen]
  unfold replace
  rw [find_child h hname]
  by_cases hlong : name.utf8ByteSize > longestName
  · have hdraft : name.utf8ByteSize + draftBytes > longestName := by omega
    simp [hlong, hdraft, Change.ofExcept]
  · simp only [if_neg hlong, Path.name_child, hproper, Bool.not_true, Bool.false_eq_true, if_false]
    split
    · rfl
    · split <;> rfl

/-! ## Trees -/

/-- Whatever is there is in a directory. -/
def IsTree (disk : Disk) : Prop :=
  ∀ place name entry, disk.get? (place ++ [name]) = some entry → disk.get? place = some .directory

theorem IsTree.above (h : disk.IsTree) {below : Place} (hbelow : below ≠ []) {entry : DiskEntry}
    (hentry : disk.get? (place ++ below) = some entry) : disk.get? place = some .directory := by
  induction below generalizing place with
  | nil => contradiction
  | cons name rest ih =>
      cases rest with
      | nil => exact h place name entry hentry
      | cons second rest =>
          rw [List.append_cons] at hentry
          exact h place name _ (ih (List.cons_ne_nil _ _) hentry)

/-- On the way down to what is there only a name can be too long. -/
theorem IsTree.follow (h : disk.IsTree) {names : List String} {entry : DiskEntry}
    (hdown : ∀ name ∈ names, name ≠ Path.self ∧ name ≠ Path.above)
    (hentry : disk.get? (place ++ names) = some entry) :
    disk.follow place names = .ok (place ++ names) ∨
      disk.follow place names = .error .nameTooLong := by
  induction names generalizing place with
  | nil => exact .inl (by rw [List.append_nil]; rfl)
  | cons name rest ih =>
      obtain ⟨⟨hself, habove⟩, hrest⟩ := List.forall_mem_cons.mp hdown
      have hstep : place.step name = place ++ [name] := by simp [Place.step, hself, habove]
      unfold Disk.follow
      simp only [h.above (List.cons_ne_nil _ _) hentry]
      split
      · exact .inr rfl
      · rw [List.append_cons] at hentry ⊢
        rw [hstep]
        exact ih hrest hentry

end Disk

end ModelMint
