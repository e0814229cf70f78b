import ModelMint.Proofs.Schema.Reading

/-!
# Documents with their definitions in another order

The order of the definitions shows in no name that a pointer resolves to and in nothing
that is read of a definition.
-/

namespace ModelMint

theorem Entries.get?_eq_of_perm {α β : Type} [DecidableEq α] {entries others : List (α × β)}
    (h : entries.Perm others) (hkeys : (Entries.keys entries).Nodup) (key : α) :
    Entries.get? key entries = Entries.get? key others := by
  have hsame : ∀ {entries others : List (α × β)}, entries.Perm others →
      (Entries.keys others).Nodup → ∀ value, Entries.get? key entries = some value →
        Entries.get? key others = some value := by
    intro entries others hperm hnodup value hvalue
    have hmem : (key, value) ∈ others := hperm.mem_iff.mp (Entries.mem_of_get? hvalue)
    cases hother : Entries.get? key others with
    | none =>
        exact absurd (List.mem_map.mpr ⟨_, hmem, rfl⟩) (Entries.get?_eq_none_iff.mp hother)
    | some other =>
        have hpair := List.inj_on_of_nodup_map hnodup hmem (Entries.mem_of_get? hother) rfl
        rw [(Prod.mk.inj hpair).2]
  have hothers : (Entries.keys others).Nodup := (h.map Prod.fst).nodup_iff.mp hkeys
  cases hentry : Entries.get? key entries with
  | some value => rw [hsame h hothers value hentry]
  | none =>
      cases hother : Entries.get? key others with
      | none => rfl
      | some value =>
          rw [hsame h.symm hkeys value hother] at hentry
          cases hentry

end ModelMint

namespace ModelMint.Schema

/-- The schema with these definitions in the place of its own. -/
def withDefinitions (definitions : List (String × Json)) : Json → Json
  | .obj members => .obj (Entries.insert "definitions" (.obj definitions) members)
  | other => other

/-- The pointer resolves to the same name in both, or to the same failure. -/
def SameName (root other : Json) (pointer : String) : Prop :=
  (resolve root pointer).map (·.name) = (resolve other pointer).map (·.name)

/-- Every pointer resolves to the same name in both, or to the same failure. -/
def SameNames (root other : Json) : Prop :=
  ∀ pointer, (resolve root pointer).map (·.name) = (resolve other pointer).map (·.name)

/-- Documents that a property can not tell apart. -/
structure Alike (document other : Document) : Prop where
  names : SameNames document.raw other.raw
  defines : ∀ name, document.defines name = other.defines name

section Reordered

variable {schema : Json} {definitions others : List (String × Json)}
  (hdefinitions : schema.get? "definitions" = some (.obj definitions))
  (hkeys : (Entries.keys definitions).Nodup) (hperm : definitions.Perm others)

include hdefinitions in
theorem get?_withDefinitions :
    (withDefinitions others schema).get? "definitions" = some (.obj others) := by
  cases schema with
  | obj members => exact Entries.get?_insert_self _ _ _
  | _ => cases hdefinitions

theorem get?_withDefinitions_of_ne {key : String} (hkey : key ≠ "definitions") :
    (withDefinitions others schema).get? key = schema.get? key := by
  cases schema with
  | obj members => exact Entries.get?_insert_of_ne hkey _ _
  | _ => rfl

include hdefinitions hkeys hperm in
/-- A path ends at the same place, if anywhere; only the definitions as a whole look different. -/
theorem follow_withDefinitions (path : List String) :
    (Pointer.follow (withDefinitions others schema) path).map (fun _ => ()) =
      (Pointer.follow schema path).map (fun _ => ()) := by
  cases path with
  | nil => rfl
  | cons key rest =>
      by_cases hkey : key = "definitions"
      · subst hkey
        simp only [Pointer.follow, get?_withDefinitions hdefinitions, hdefinitions]
        cases rest with
        | nil => rfl
        | cons name rest =>
            simp only [Pointer.follow, Json.get?, Entries.get?_eq_of_perm hperm hkeys name]
      · simp only [Pointer.follow, get?_withDefinitions_of_ne hkey]

include hdefinitions hkeys hperm in
theorem sameNames_withDefinitions : SameNames schema (withDefinitions others schema) := by
  intro pointer
  have hfollow := follow_withDefinitions hdefinitions hkeys hperm (Pointer.keys pointer)
  unfold resolve
  simp only
  split
  · rfl
  · rfl
  · revert hfollow
    cases Pointer.follow schema (Pointer.keys pointer) <;>
      cases Pointer.follow (withDefinitions others schema) (Pointer.keys pointer) <;>
        simp [Except.map, eq_comm]

variable {document other : Document} (hread : Document.read schema = .ok document)
  (hother : Document.read (withDefinitions others schema) = .ok other)

theorem keys_filterMap_sublist (keep : String → Json → Bool)
    (definitions : List (String × Json)) :
    (Entries.keys (definitions.filterMap fun (name, body) =>
      if keep name body then none else some (name, Document.readEntry name body))).Sublist
      (Entries.keys definitions) := by
  induction definitions with
  | nil => exact .slnil
  | cons entry rest ih =>
      obtain ⟨name, body⟩ := entry
      cases hkeep : keep name body with
      | true =>
          rw [List.filterMap_cons_none (by simp [hkeep])]
          exact ih.cons name
      | false =>
          rw [List.filterMap_cons_some (by simp [hkeep]; rfl)]
          exact ih.cons_cons name

include hdefinitions hread in
theorem entries_of_read : document.raw = schema ∧ document.entries =
    definitions.filterMap fun (name, body) =>
      if Document.isComment name body then none else some (name, Document.readEntry name body) := by
  obtain ⟨hraw, members, found, rfl, hfound, hentries⟩ := read_eq_ok hread
  obtain rfl : definitions = found := by
    simpa using hdefinitions.symm.trans hfound
  exact ⟨hraw, hentries⟩

include hdefinitions hperm hread hother in
theorem entries_perm : document.entries.Perm other.entries := by
  rw [(entries_of_read hdefinitions hread).2,
    (entries_of_read (get?_withDefinitions hdefinitions) hother).2]
  exact hperm.filterMap _

include hdefinitions hkeys hperm hread hother in
theorem alike_withDefinitions : Alike document other where
  names := by
    rw [(entries_of_read hdefinitions hread).1,
      (entries_of_read (get?_withDefinitions hdefinitions) hother).1]
    exact sameNames_withDefinitions hdefinitions hkeys hperm
  defines := by
    intro name
    exact (entries_perm hdefinitions hperm hread hother).any_eq

include hdefinitions hkeys hperm hread hother in
theorem get?_entries_withDefinitions (name : String) :
    Entries.get? name other.entries = Entries.get? name document.entries := by
  have hnodup : (Entries.keys document.entries).Nodup := by
    rw [(entries_of_read hdefinitions hread).2]
    exact hkeys.sublist (keys_filterMap_sublist _ definitions)
  exact (Entries.get?_eq_of_perm (entries_perm hdefinitions hperm hread hother) hnodup name).symm

end Reordered

end ModelMint.Schema
