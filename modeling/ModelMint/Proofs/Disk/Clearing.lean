import ModelMint.Proofs.Disk.Frame

/-!
# What writing adds

All that making the directories of a path adds to a disk are directories on the way of the
path, where nothing was.  Writing a file adds these and the file.
-/

namespace ModelMint.Disk

variable {disk before middle after next : Disk} {path : Path} {place : Place}
  {places : List Place} {content : ByteArray} {fault : Fault}

/-- A place that the path leads through, or leads to. -/
def IsOnWay (here : Place) (path : Path) (place : Place) : Prop :=
  ∃ names, names <+: path.names ∧ place = Place.resolve here ⟨path.fromRoot, names⟩

/-- Outside of some places nothing is other than before, except that there are directories on the
way of the path where nothing was. -/
structure Clears (path : Path) (places : List Place) (before after : Disk) : Prop where
  here : after.here = before.here
  made : ∀ place, place ∉ places → after.get? place ≠ before.get? place →
    before.get? place = none ∧ after.get? place = some .directory ∧
      IsOnWay before.here path place

theorem Clears.refl (path : Path) (places : List Place) (disk : Disk) :
    Clears path places disk disk :=
  ⟨rfl, fun _ _ hother => absurd rfl hother⟩

theorem Clears.trans (h : Clears path [] before middle) (hlater : Clears path places middle after) :
    Clears path places before after where
  here := hlater.here.trans h.here
  made place hplace hother := by
    by_cases hsame : middle.get? place = before.get? place
    · rw [← hsame] at hother ⊢
      rw [← h.here]
      exact hlater.made place hplace hother
    · obtain ⟨hnone, hdirectory, hway⟩ := h.made place List.not_mem_nil hsame
      refine ⟨hnone, ?_, hway⟩
      -- what has been made stays, as nothing is made where something is
      by_contra hlost
      have hbetween : after.get? place ≠ middle.get? place := by rwa [hdirectory]
      rw [(hlater.made place hplace hbetween).1] at hdirectory
      cases hdirectory

theorem Clears.get? (h : Clears path places before after) (hplace : place ∉ places)
    {entry : DiskEntry} (hentry : before.get? place = some entry) :
    after.get? place = some entry := by
  by_contra hlost
  have hother : after.get? place ≠ before.get? place := by rwa [hentry]
  rw [(h.made place hplace hother).1] at hentry
  cases hentry

/-- New directories change no file, and no directory is lost to them. -/
theorem Clears.keeps (h : Clears path [] before after) : Keeps [] before after where
  here := h.here
  files place _ content := by
    refine ⟨fun hfile => ?_, h.get? List.not_mem_nil⟩
    by_contra hlost
    have hother : after.get? place ≠ before.get? place := by
      rw [hfile]
      exact fun hsame => hlost hsame.symm
    rw [(h.made place List.not_mem_nil hother).2.1] at hfile
    cases hfile
  directories _ := h.get? List.not_mem_nil

theorem Clears.longer {fromRoot : Bool} {names longer : List String}
    (h : Clears ⟨fromRoot, names⟩ places before after) (hlonger : names <+: longer) :
    Clears ⟨fromRoot, longer⟩ places before after where
  here := h.here
  made place hplace hother := by
    obtain ⟨hnone, hdirectory, way, hway, hplace⟩ := h.made place hplace hother
    exact ⟨hnone, hdirectory, way, hway.trans hlonger, hplace⟩

/-! ## Making directories -/

theorem clears_makeDirectory (h : disk.makeDirectory path = .ok next) :
    Clears path [] disk next := by
  unfold makeDirectory at h
  split at h
  · cases h
  next target hfind =>
    split at h
    · cases h
    next hfree =>
      cases h
      have hnone : disk.get? target = none := by simpa using hfree
      refine ⟨rfl, fun place _ hother => ?_⟩
      have hsame : place = target := by
        by_contra hne
        exact hother (get?_put_of_ne disk _ hne)
      rw [hsame]
      exact ⟨hnone, get?_put_self disk _ (ne_root_of_get? disk (by simp [hnone])),
        path.names, List.prefix_refl _, find_eq_ok hfind⟩

theorem clears_unlessDirectory (disk : Disk) (path other : Path) (fault : Fault) :
    Clears path [] disk (Change.ofExcept disk (disk.unlessDirectory other fault)).disk := by
  cases h : disk.unlessDirectory other fault with
  | error found => exact Clears.refl _ _ _
  | ok next =>
      obtain ⟨rfl, -⟩ := unlessDirectory_eq_ok h
      exact Clears.refl _ _ _

theorem clears_makeDirectoriesTo (fromRoot : Bool) (names : List String) (disk : Disk) :
    Clears ⟨fromRoot, names.reverse⟩ [] disk (makeDirectoriesTo fromRoot names disk).disk := by
  induction names generalizing disk with
  | nil => exact clears_unlessDirectory disk _ _ _
  | cons name above ih =>
      unfold makeDirectoriesTo
      simp only
      split
      next next hnext => exact clears_makeDirectory hnext
      -- the directories above come first, and then the last one is tried again
      · have habove : Clears ⟨fromRoot, (name :: above).reverse⟩ [] disk
            (makeDirectoriesTo fromRoot above disk).disk :=
          (ih disk).longer (by simp)
        unfold Change.andThen
        split
        · refine habove.trans ?_
          beta_reduce
          split
          next next hnext => exact clears_makeDirectory hnext
          · exact Clears.refl _ _ _
          · exact clears_unlessDirectory _ _ _ _
        · exact habove
      · exact clears_unlessDirectory disk _ _ _

theorem clears_makeDirectories (disk : Disk) (path : Path) :
    Clears path [] disk (disk.makeDirectories path).disk := by
  have h := clears_makeDirectoriesTo path.fromRoot path.names.reverse disk
  rwa [List.reverse_reverse] at h

/-! ## Writing files -/

/-- The file is put in its place at once, or not at all. -/
inductive PutsWhole (disk : Disk) (path : Path) (content : ByteArray) : Change Fault → Prop
  | put {place : Place} (find : disk.find path = .ok place)
      (file : disk.get? place ≠ some .directory) :
      PutsWhole disk path content (.done (disk.put place (.file content)))
  | refused (fault : Fault) : PutsWhole disk path content (.refuse disk fault)

theorem putsWhole_replace (disk : Disk) (path : Path) (content : ByteArray) :
    PutsWhole disk path content (.ofExcept disk (disk.replace path content)) := by
  cases hreplace : disk.replace path content with
  | error fault => exact .refused fault
  | ok next =>
      obtain ⟨place, hfind, hfile, rfl⟩ := replace_eq_ok hreplace
      exact .put hfind hfile

/-- What a write of a file leaves: the file as a whole and the directories above it, or no more
than some of the directories. -/
inductive Settles (disk : Disk) (path : Path) (content : ByteArray) : Change Fault → Prop
  | written {after : Disk}
      (clears : Clears path.parent [Place.resolve disk.here path] disk after)
      (file : disk.get? (Place.resolve disk.here path) ≠ some .directory)
      (find : after.find path = .ok (Place.resolve disk.here path))
      (there : after.get? (Place.resolve disk.here path) = some (.file content)) :
      Settles disk path content ⟨after, .ok ()⟩
  | failed {after : Disk} (fault : Fault) (clears : Clears path.parent [] disk after) :
      Settles disk path content ⟨after, .error fault⟩

theorem settles_andThen {made : Change Fault} {replaced : Disk → Change Fault}
    (hclears : Clears path.parent [] disk made.disk)
    (h : ∀ disk, PutsWhole disk path content (replaced disk)) :
    Settles disk path content (made.andThen replaced) := by
  have hkeeps := hclears.keeps
  obtain ⟨middle, result⟩ := made
  cases result with
  | error fault => exact .failed fault hclears
  | ok made =>
      simp only [Change.andThen]
      have hput := h middle
      generalize replaced middle = change at hput
      cases hput with
      | refused fault => exact .failed fault hclears
      | put hfind hfile =>
          obtain rfl := find_eq_ok hfind
          have hfound := (keeps_put (.file content) hfile).find hfind
          have hheld := get?_put_self middle (.file content) (ne_root_of_get? middle hfile)
          have hhere : Clears path.parent [Place.resolve middle.here path] middle
              (middle.put (Place.resolve middle.here path) (.file content)) :=
            ⟨rfl, fun place hplace hother =>
              absurd (get?_put_of_ne middle _ (by simpa using hplace)) hother⟩
          rw [show middle.here = disk.here from hkeeps.here] at hfile hfound hheld hhere ⊢
          exact .written (hclears.trans hhere)
            (fun hdirectory => hfile (hkeeps.directories _ hdirectory)) hfound hheld

theorem settles_write (disk : Disk) (path : Path) (content : ByteArray) :
    Settles disk path content (disk.write path content) :=
  settles_andThen (clears_makeDirectories disk path.parent)
    fun disk => putsWhole_replace disk path content

end ModelMint.Disk
