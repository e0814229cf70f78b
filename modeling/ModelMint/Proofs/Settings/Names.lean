import ModelMint.Proofs.Entries
import ModelMint.Proofs.Results
import ModelMint.Settings.Basic

/-!
# Reading base names

The names are read entry by entry.  Those that are read depend on the entries alone that
name one of them, unless an entry has the name of an operation and hides it.
-/

namespace ModelMint

open Entries (keys)

variable {key : String} {value : Json} {members : List (String × Json)}

/-! ## Entries that name settings -/

def BaseNames.settingKeys : List String := keys ({} : BaseNames).entries

def OutputSettings.settingKeys : List String := ["mode", "validate_before_write"]

/-- The entries that have one of the names. -/
def entriesNamed (names : List String) (members : List (String × Json)) : List (String × Json) :=
  members.filter fun entry => names.contains entry.1

section Named

variable {names : List String} {entry : String × Json}

theorem entriesNamed_cons_of_mem (h : entry.1 ∈ names) (members : List (String × Json)) :
    entriesNamed names (entry :: members) = entry :: entriesNamed names members :=
  List.filter_cons_of_pos (by simpa using h)

theorem entriesNamed_cons_of_not_mem (h : entry.1 ∉ names) (members : List (String × Json)) :
    entriesNamed names (entry :: members) = entriesNamed names members :=
  List.filter_cons_of_neg (by simpa using h)

theorem mem_entriesNamed :
    entry ∈ entriesNamed names members ↔ entry ∈ members ∧ entry.1 ∈ names := by
  simp [entriesNamed]

theorem mem_keys_entriesNamed :
    key ∈ keys (entriesNamed names members) ↔ key ∈ keys members ∧ key ∈ names := by
  simp only [keys, List.mem_map, mem_entriesNamed]
  constructor
  · rintro ⟨entry, ⟨hentry, hname⟩, rfl⟩
    exact ⟨⟨entry, hentry, rfl⟩, hname⟩
  · rintro ⟨⟨entry, hentry, rfl⟩, hname⟩
    exact ⟨entry, ⟨hentry, hname⟩, rfl⟩

theorem get?_entriesNamed (h : key ∈ names) (members : List (String × Json)) :
    Entries.get? key (entriesNamed names members) = Entries.get? key members := by
  induction members with
  | nil => rfl
  | cons entry rest ih =>
      by_cases hname : entry.1 ∈ names
      · rw [entriesNamed_cons_of_mem hname, Entries.get?, Entries.get?, ih]
      · have hne : entry.1 ≠ key := fun hsame => hname (hsame ▸ h)
        rw [entriesNamed_cons_of_not_mem hname, ih, Entries.get?, if_neg hne]

end Named

/-! ## Names -/

namespace BaseNames

variable {names base : BaseNames}

def setAll (names : BaseNames) (members : List (String × Json)) : BaseNames :=
  members.foldl (fun names entry => names.set entry.1 entry.2) names

/-- Operations that an entry of their name hides. -/
def operations : List String := ["to_dict", "bounds_check"]

theorem not_mem_settingKeys : ∀ operation ∈ operations, operation ∉ settingKeys := by decide

theorem set_of_not_mem (hkey : key ∉ settingKeys) (hoperation : key ∉ operations)
    (htable : key ≠ "__dataclass_fields__") : names.set key value = names := by
  unfold set
  split <;> simp_all [settingKeys, operations, entries, keys]

theorem set_hidden (names : BaseNames) (key : String) (value : Json) :
    (names.set key value).hidden =
      if key ∈ operations then key :: names.hidden else names.hidden := by
  unfold set
  split <;> simp_all [operations]

theorem set_table (names : BaseNames) (value : Json) (h : key ≠ "__dataclass_fields__") :
    (names.set key value).table = names.table := by
  unfold set
  split <;> first | rfl | contradiction

theorem mem_hidden_setAll {operation : String} (h : operation ∈ operations) (names : BaseNames)
    (members : List (String × Json)) :
    operation ∈ (names.setAll members).hidden ↔
      operation ∈ names.hidden ∨ operation ∈ keys members := by
  induction members generalizing names with
  | nil => simp [setAll, keys]
  | cons entry rest ih =>
      have hstep := ih (names.set entry.1 entry.2)
      rw [set_hidden] at hstep
      simp only [setAll, List.foldl_cons, keys, List.map_cons, List.mem_cons] at hstep ⊢
      rw [hstep]
      split
      · rw [List.mem_cons, or_comm (a := operation = entry.1), or_assoc]
      next hother =>
        have hne : operation ≠ entry.1 := fun hsame => hother (hsame ▸ h)
        simp [hne]

theorem table_setAll (h : "__dataclass_fields__" ∉ keys members) (names : BaseNames) :
    (names.setAll members).table = names.table := by
  induction members generalizing names with
  | nil => rfl
  | cons entry rest ih =>
      obtain ⟨hfirst, hrest⟩ := not_or.mp (mt List.mem_cons.mpr h)
      rw [setAll, List.foldl_cons, ← setAll, ih hrest, set_table _ _ (Ne.symm hfirst)]

theorem setAll_entriesNamed (hoperations : ∀ operation ∈ operations, operation ∉ keys members)
    (htable : "__dataclass_fields__" ∉ keys members) (names : BaseNames) :
    names.setAll (entriesNamed settingKeys members) = names.setAll members := by
  induction members generalizing names with
  | nil => rfl
  | cons entry rest ih =>
      obtain ⟨hfirst, hrest⟩ := not_or.mp (mt List.mem_cons.mpr htable)
      have hothers : ∀ operation ∈ operations, operation ∉ keys rest :=
        fun operation hmem hother => hoperations operation hmem (List.mem_cons_of_mem _ hother)
      by_cases hkey : entry.1 ∈ settingKeys
      · rw [entriesNamed_cons_of_mem hkey]
        exact ih hothers hrest _
      · have hoperation : entry.1 ∉ operations :=
          fun hmem => hoperations _ hmem List.mem_cons_self
        rw [entriesNamed_cons_of_not_mem hkey, ih hothers hrest, setAll, setAll, List.foldl_cons,
          set_of_not_mem hkey hoperation (Ne.symm hfirst)]

/-- Without an entry for all names the entries are taken one by one, and none is refused. -/
theorem readEntries_eq_ok_iff (h : "__dict__" ∉ keys members) :
    readEntries names members = .ok base ↔
      base = names.setAll members ∧ ∀ entry ∈ members, refusedEntry? entry.1 entry.2 = none := by
  induction members generalizing names with
  | nil => simp [readEntries, setAll, eq_comm]
  | cons entry rest ih =>
      obtain ⟨key, value⟩ := entry
      obtain ⟨hfirst, hrest⟩ := not_or.mp (mt List.mem_cons.mpr h)
      have htake : names.take key value = names.set key value := by
        unfold take
        split
        · exact absurd rfl hfirst
        · rfl
      rw [readEntries, List.forall_mem_cons, setAll, List.foldl_cons]
      cases hrefused : refusedEntry? key value with
      | some fault => simp
      | none => simp [htake, ih hrest, setAll]

/-- No entry is about all names at once. -/
def Entrywise (members : List (String × Json)) : Prop :=
  "__dict__" ∉ keys members ∧ "__dataclass_fields__" ∉ keys members

theorem read_essence (hread : read (.obj members) = .ok base) (hplain : Entrywise members)
    (hoperations : ∀ operation ∈ operations, operation ∉ keys members) :
    read (.obj (entriesNamed settingKeys members)) = .ok base := by
  obtain ⟨rfl, haccepted⟩ := (readEntries_eq_ok_iff hplain.1).mp hread
  have hdict : "__dict__" ∉ keys (entriesNamed settingKeys members) :=
    fun hmem => hplain.1 (mem_keys_entriesNamed.mp hmem).1
  refine (readEntries_eq_ok_iff hdict).mpr ⟨?_, fun entry hentry => ?_⟩
  · rw [setAll_entriesNamed hoperations hplain.2]
  · exact haccepted entry (mem_entriesNamed.mp hentry).1

theorem mem_hidden_read {operation : String} (h : operation ∈ operations)
    (hread : read (.obj members) = .ok base) (hplain : Entrywise members) :
    operation ∈ base.hidden ↔ operation ∈ keys members := by
  obtain ⟨rfl, -⟩ := (readEntries_eq_ok_iff hplain.1).mp hread
  simp [mem_hidden_setAll h]

theorem table_read (hread : read (.obj members) = .ok base) (hplain : Entrywise members) :
    base.table = none := by
  obtain ⟨rfl, -⟩ := (readEntries_eq_ok_iff hplain.1).mp hread
  exact table_setAll hplain.2 {}

/-- Only objects are read as names. -/
theorem read_eq_ok (h : read value = .ok base) : ∃ members, value = .obj members := by
  obtain ⟨members, hmembers, -⟩ := bind_eq_ok.mp h
  cases value with
  | obj members => exact ⟨members, rfl⟩
  | _ => cases hmembers

theorem read_entries (names : BaseNames) : read (.obj names.entries) = .ok names.visible := by
  refine (readEntries_eq_ok_iff (by simp [entries, keys])).mpr ⟨?_, ?_⟩
  · simp [setAll, entries, set, visible]
  · simp [entries, refusedEntry?]

end BaseNames

theorem OutputSettings.read_essence (members : List (String × Json)) :
    OutputSettings.read (.obj (entriesNamed settingKeys members)) =
      OutputSettings.read (.obj members) := by
  have hmode : "mode" ∈ settingKeys := by simp [settingKeys]
  have hvalidate : "validate_before_write" ∈ settingKeys := by simp [settingKeys]
  simp only [OutputSettings.read, membersOf, bind, Except.bind, get?_entriesNamed hmode,
    get?_entriesNamed hvalidate]

end ModelMint
