import ModelMint.Disk.Draft
import ModelMint.Proofs.Disk.Clearing
import ModelMint.Proofs.Results

/-!
# Drafts leave no trace

Whatever the letters of a draft are and whichever step fails, a file is replaced as a whole
or the disk is as it was.  With nothing in the way the steps come to what writing in one go
comes to.
-/

namespace ModelMint.Disk

variable {disk before middle after next : Disk} {path : Path} {place draft : Place}
  {content : ByteArray} {draws : List String} {trouble : Trouble} {fault : Fault}

/-! ## Taking away -/

theorem put_put (disk : Disk) (place : Place) (entry other : DiskEntry) :
    (disk.put place entry).put place other = disk.put place other := by
  unfold put
  congr 1
  induction disk.entries with
  | nil => simp [Entries.insert]
  | cons first rest ih =>
      obtain ⟨held, old⟩ := first
      by_cases hsame : held = place
      · simp [Entries.insert, hsame]
      · simp [Entries.insert, hsame, ih]

/-- A draft that was taken away again was never there. -/
theorem unlink_put (h : disk.get? place = none) (entry : DiskEntry) :
    (disk.put place entry).unlink place = disk := by
  have hroot : place ≠ [] := ne_root_of_get? disk (by simp [h])
  rw [get?, if_neg hroot] at h
  have hcontains : Entries.contains place disk.entries = false := by simp [Entries.contains, h]
  have hentries : disk.entries.filter (·.1 != place) = disk.entries := by
    rw [List.filter_eq_self]
    intro entry hentry
    simp only [bne_iff_ne, ne_eq]
    rintro rfl
    exact Entries.get?_eq_none_iff.mp h (List.mem_map_of_mem hentry)
  rw [unlink, put, Entries.insert_of_not_contains entry hcontains]
  simp [hentries]

/-- Without a file that is no directory every way is as it was. -/
theorem keeps_unput (h : disk.get? place = none) (content : ByteArray) :
    Keeps [place] (disk.put place (.file content)) disk where
  here := rfl
  files other hother held := by
    rw [get?_put_of_ne disk _ (by simpa using hother)]
  directories other hother := by
    by_cases hsame : other = place
    · have hroot : place ≠ [] := ne_root_of_get? disk (by simp [h])
      rw [hsame, get?_put_self disk _ hroot] at hother
      cases hother
    · rwa [get?_put_of_ne disk _ hsame] at hother

/-! ## Steps -/

theorem clears_makeWay (disk : Disk) (path : Path) (making : Option (Nat × Fault)) :
    Clears path [] disk (disk.makeWay path making).disk := by
  cases making with
  | none => exact clears_makeDirectories disk path
  | some refusal => exact (clears_makeDirectories disk _).longer (List.take_prefix _ _)

theorem findDraft_eq_ok (h : disk.findDraft path draws = .ok draft) :
    disk.get? draft = none ∧ ∃ letters ∈ draws, disk.find (draftPath path letters) = .ok draft := by
  induction draws with
  | nil => cases h
  | cons letters others ih =>
      rw [findDraft] at h
      split at h
      · cases h
      next place hfind =>
        split at h
        · obtain ⟨hfree, other, hother, hfound⟩ := ih h
          exact ⟨hfree, other, List.mem_cons_of_mem _ hother, hfound⟩
        next hfree =>
          cases h
          exact ⟨by simpa using hfree, letters, List.mem_cons_self, hfind⟩

theorem openDraft_eq_ok {opening : Option Fault}
    (h : disk.openDraft path draws opening = .ok (draft, next)) :
    disk.get? draft = none ∧ next = disk.put draft (.file .empty) := by
  cases opening with
  | some fault => cases h
  | none =>
      obtain ⟨place, hplace, hpair⟩ := map_eq_ok.mp h
      cases hpair
      exact ⟨(findDraft_eq_ok hplace).1, rfl⟩

theorem moveDraft_eq_ok {moving : Option Fault} (h : disk.moveDraft draft path moving = .ok next) :
    ∃ entry place, disk.get? draft = some entry ∧ disk.find path = .ok place ∧
      namesFile path = true ∧ disk.get? place ≠ some .directory ∧
      next = (disk.unlink draft).put place entry := by
  cases moving with
  | some fault => cases h
  | none =>
      unfold moveDraft at h
      simp only at h
      split at h
      · cases h
      · cases h
      next entry place hentry hfind =>
        split at h
        · cases h
        next hname =>
          split at h
          · cases h
          next hplace =>
            cases h
            exact ⟨entry, place, hentry, hfind, by simpa using hname, hplace, rfl⟩

/-! ## Whole replacements -/

/-- A file is replaced as a whole, or nothing is changed, whatever fails. -/
theorem putsWhole_replaceBySteps (draws : List String) (trouble : Trouble) (disk : Disk)
    (path : Path) (content : ByteArray) :
    PutsWhole disk path content (disk.replaceBySteps draws trouble path content) := by
  unfold replaceBySteps
  cases hopen : disk.openDraft path draws trouble.opening with
  | error fault => exact .refused fault
  | ok opened =>
      obtain ⟨draft, opened⟩ := opened
      obtain ⟨hfree, rfl⟩ := openDraft_eq_ok hopen
      simp only
      unfold fillDraft
      cases trouble.filling with
      | some refusal =>
          simp only [put_put, Change.andThen, unlink_put hfree]
          exact .refused refusal.2
      | none =>
          simp only [put_put, Change.done, Change.andThen]
          cases hmove : (disk.put draft (.file content)).moveDraft draft path trouble.moving with
          | error fault =>
              simp only [Change.ofExcept, Change.refuse, unlink_put hfree]
              exact .refused fault
          | ok next =>
              obtain ⟨entry, place, hentry, hfind, -, hplace, rfl⟩ := moveDraft_eq_ok hmove
              rw [get?_put_self _ _ (ne_root_of_get? disk (by simp [hfree]))] at hentry
              cases hentry
              have hfilled : Keeps [draft] disk (disk.put draft (.file content)) :=
                keeps_put (.file content) (by simp [hfree])
              simp only [Change.ofExcept, Change.done, unlink_put hfree]
              exact .put ((keeps_unput hfree content).find hfind)
                fun hdirectory => hplace (hfilled.directories place hdirectory)

theorem settles_writeBySteps (draws : List String) (trouble : Trouble) (disk : Disk) (path : Path)
    (content : ByteArray) :
    Settles disk path content (disk.writeBySteps draws trouble path content) :=
  settles_andThen (clears_makeWay disk path.parent trouble.making)
    fun disk => putsWhole_replaceBySteps draws trouble disk path content

/-! ## With nothing in the way -/

/-- Letters of which the name of a draft is as long as it is meant to be. -/
def IsDraw (letters : String) : Prop :=
  '\x00' ∉ letters.toList ∧ letters.utf8ByteSize = 8

theorem utf8ByteSize_draftName {letters : String} (h : IsDraw letters) (name : String) :
    (draftName name letters).utf8ByteSize = name.utf8ByteSize + draftBytes := by
  have hdot : ".".utf8ByteSize = 1 := rfl
  have hending : ".tmp".utf8ByteSize = 4 := rfl
  simp only [draftName, String.utf8ByteSize_append, hdot, hending, h.2, draftBytes]
  omega

theorem not_mem_draftName {letters name : String} (h : IsDraw letters) :
    '\x00' ∉ (draftName name letters).toList ↔ '\x00' ∉ name.toList := by
  simp [draftName, String.toList_append, h.1]

/-- The draft of a file is found in a directory that is there, unless its name is too long. -/
theorem find_draftPath {letters : String} (hparent : disk.look path.parent = .ok .directory)
    (hdraw : IsDraw letters) :
    disk.find (draftPath path letters) =
      if '\x00' ∈ path.name.toList then .error .nulCharacter
      else if path.name.utf8ByteSize + draftBytes > longestName then .error .nameTooLong
      else .ok (Place.resolve disk.here (draftPath path letters)) := by
  split
  next hnul =>
    have hholds : (draftPath path letters).holdsNul = true := by
      rw [← Bool.not_eq_false, draftPath, Path.holdsNul_child, not_and, not_mem_draftName hdraw]
      exact fun _ hnot => hnot hnul
    rw [find, if_pos hholds]
  next hnul =>
    rw [draftPath, find_child hparent ((not_mem_draftName hdraw).mpr hnul),
      utf8ByteSize_draftName hdraw, Place.resolve_child]

/-- One of the names for a draft of the file is free. -/
def HasDraft (disk : Disk) (path : Path) (draws : List String) : Prop :=
  (∀ letters ∈ draws, IsDraw letters) ∧
    ∃ letters ∈ draws, disk.get? (Place.resolve disk.here (draftPath path letters)) = none

theorem exists_findDraft (hparent : disk.look path.parent = .ok .directory)
    (hdraft : disk.HasDraft path draws) :
    if '\x00' ∈ path.name.toList then disk.findDraft path draws = .error .nulCharacter
    else if path.name.utf8ByteSize + draftBytes > longestName then
      disk.findDraft path draws = .error .nameTooLong
    else ∃ draft, disk.findDraft path draws = .ok draft := by
  obtain ⟨hdraws, hfree⟩ := hdraft
  induction draws with
  | nil =>
      obtain ⟨letters, hletters, -⟩ := hfree
      cases hletters
  | cons letters others ih =>
      obtain ⟨hfirst, hothers⟩ := List.forall_mem_cons.mp hdraws
      rw [findDraft, find_draftPath hparent hfirst]
      split
      · rfl
      · split
        · rfl
        next hnul hlong =>
          simp only
          split
          -- a name that is taken is not the free one, so that is among the others
          next htaken =>
            obtain ⟨other, hother, hnone⟩ := hfree
            have hrest : other ∈ others := by
              rcases List.mem_cons.mp hother with rfl | hrest
              · simp [hnone] at htaken
              · exact hrest
            have := ih hothers ⟨other, hrest, hnone⟩
            rwa [if_neg hnul, if_neg hlong] at this
          · exact ⟨_, rfl⟩

theorem parent_child_name (h : path.names ≠ []) : path.parent.child path.name = path := by
  obtain ⟨fromRoot, names⟩ := path
  simp only [Path.parent, Path.child, Path.name, Path.mk.injEq, true_and]
  rw [List.getLast?_eq_some_getLast h, Option.getD_some, List.dropLast_concat_getLast h]

theorem holdsNul_of_mem_name (h : '\x00' ∈ path.name.toList) : path.holdsNul = true := by
  have hnames : path.names ≠ [] := by
    intro hnames
    simp [Path.name, hnames] at h
  rw [← parent_child_name hnames, ← Bool.not_eq_false, Path.holdsNul_child, not_and]
  exact fun _ hnot => hnot h

/-- The path of a file is found where its directory is there and its name can be one. -/
theorem find_of_parent (hparent : disk.look path.parent = .ok .directory)
    (hnul : '\x00' ∉ path.name.toList) :
    disk.find path = if path.name.utf8ByteSize > longestName then .error .nameTooLong
      else .ok (Place.resolve disk.here path) := by
  by_cases hnames : path.names = []
  · have hname : path.name = "" := by simp [Path.name, hnames]
    have hself : path.parent = path := by
      obtain ⟨fromRoot, names⟩ := path
      simp_all [Path.parent]
    obtain ⟨place, hfind, -⟩ := look_eq_ok.mp hparent
    rw [hself] at hfind
    rw [hfind, find_eq_ok hfind, hname]
    rfl
  · have hfind := find_child hparent hnul
    rwa [← Place.resolve_child, parent_child_name hnames] at hfind

/-- With nothing in the way the steps come to a replacement in one go. -/
theorem replaceBySteps_eq (hparent : disk.look path.parent = .ok .directory)
    (hdraft : disk.HasDraft path draws) (content : ByteArray) :
    disk.replaceBySteps draws {} path content = .ofExcept disk (disk.replace path content) := by
  have hfound := exists_findDraft hparent hdraft
  unfold replaceBySteps replace
  by_cases hnul : '\x00' ∈ path.name.toList
  · rw [if_pos hnul] at hfound
    simp [openDraft, hfound, find, holdsNul_of_mem_name hnul, Except.map, Change.ofExcept]
  · have hfind := find_of_parent hparent hnul
    rw [if_neg hnul] at hfound
    by_cases hlong : path.name.utf8ByteSize + draftBytes > longestName
    · rw [if_pos hlong] at hfound
      rw [hfind]
      by_cases htoo : path.name.utf8ByteSize > longestName
      · simp [openDraft, hfound, Except.map, Change.ofExcept, htoo]
      · simp [openDraft, hfound, Except.map, Change.ofExcept, htoo, hlong]
    · rw [if_neg hlong] at hfound
      obtain ⟨draft, hopen⟩ := hfound
      have hshort : ¬ path.name.utf8ByteSize > longestName := by omega
      rw [if_neg hshort] at hfind
      have hfree := (findDraft_eq_ok hopen).1
      have hfilled : Keeps [draft] disk (disk.put draft (.file content)) :=
        keeps_put (.file content) (by simp [hfree])
      have hemptied := keeps_unput hfree content
      generalize Place.resolve disk.here path = place at hfind
      have hdirectory : (disk.put draft (.file content)).get? place = some .directory ↔
          disk.get? place = some .directory :=
        ⟨hemptied.directories place, hfilled.directories place⟩
      have hroot : draft ≠ [] := ne_root_of_get? disk (by simp [hfree])
      have hheld := get?_put_self disk (.file content) hroot
      simp only [openDraft, hopen, Except.map, fillDraft, put_put, Change.done, Change.andThen,
        moveDraft, hheld, hfilled.find hfind, hfind, hdirectory, if_neg hlong, unlink_put hfree]
      cases hname : namesFile path with
      | false => simp [Change.ofExcept, Change.refuse, unlink_put hfree]
      | true =>
          by_cases hplace : disk.get? place = some .directory
          · simp [hplace, Change.ofExcept, Change.refuse, unlink_put hfree]
          · simp [hplace, Change.ofExcept, Change.done]

theorem writeBySteps_eq (disk : Disk) (path : Path) (content : ByteArray)
    (hdraft : (disk.makeDirectories path.parent).disk.HasDraft path draws) :
    disk.writeBySteps draws {} path content = disk.write path content := by
  have hthere := (makes_makeDirectories disk path.parent).there
  unfold writeBySteps write Change.andThen
  rw [show disk.makeWay path.parent none = disk.makeDirectories path.parent from rfl]
  split
  next hdone => exact replaceBySteps_eq (hthere hdone) hdraft content
  · rfl

end ModelMint.Disk
