/-!
# Insertion-ordered entries

A map that is shown in the order in which its keys first came is a list of pairs.
Inserting a key that is present replaces its value where it stands.
-/

namespace ModelMint.Entries

variable {α : Type} {β : Type} [DecidableEq α]

def get? (key : α) : List (α × β) → Option β
  | [] => none
  | (other, value) :: rest => if other = key then some value else get? key rest

def contains (key : α) (entries : List (α × β)) : Bool := (get? key entries).isSome

def insert (key : α) (value : β) : List (α × β) → List (α × β)
  | [] => [(key, value)]
  | (other, old) :: rest =>
    if other = key then (other, value) :: rest else (other, old) :: insert key value rest

/-- The entries of a list of pairs in which keys may come again. -/
def ofList (pairs : List (α × β)) : List (α × β) :=
  pairs.foldl (fun entries pair => insert pair.1 pair.2 entries) []

def keys (entries : List (α × β)) : List α := entries.map Prod.fst

@[simp] theorem get?_insert_self (key : α) (value : β) (entries : List (α × β)) :
    get? key (insert key value entries) = some value := by
  induction entries with
  | nil => simp [insert, get?]
  | cons entry rest ih =>
      obtain ⟨other, old⟩ := entry
      by_cases h : other = key <;> simp [insert, get?, h, ih]

theorem get?_insert_of_ne {key other : α} (h : other ≠ key) (value : β)
    (entries : List (α × β)) :
    get? other (insert key value entries) = get? other entries := by
  induction entries with
  | nil => simp [insert, get?, h.symm]
  | cons entry rest ih =>
      obtain ⟨third, old⟩ := entry
      by_cases hkey : third = key
      · subst hkey
        simp [insert, get?, h.symm]
      · simp [insert, get?, hkey, ih]

theorem keys_insert_of_contains {key : α} (value : β) {entries : List (α × β)}
    (h : contains key entries = true) : keys (insert key value entries) = keys entries := by
  induction entries with
  | nil => simp [contains, get?] at h
  | cons entry rest ih =>
      obtain ⟨other, old⟩ := entry
      by_cases hkey : other = key
      · simp [insert, keys, hkey]
      · simp only [contains, get?, hkey, if_false] at h
        have := ih h
        simp only [keys] at this
        simp [insert, keys, hkey, this]

theorem keys_insert_of_not_contains {key : α} (value : β) {entries : List (α × β)}
    (h : contains key entries = false) :
    keys (insert key value entries) = keys entries ++ [key] := by
  induction entries with
  | nil => simp [insert, keys]
  | cons entry rest ih =>
      obtain ⟨other, old⟩ := entry
      by_cases hkey : other = key
      · simp [contains, get?, hkey] at h
      · simp only [contains, get?, hkey, if_false] at h
        have := ih h
        simp only [keys] at this
        simp [insert, keys, hkey, this]

theorem insert_of_not_contains {key : α} (value : β) {entries : List (α × β)}
    (h : contains key entries = false) : insert key value entries = entries ++ [(key, value)] := by
  induction entries with
  | nil => rfl
  | cons entry rest ih =>
      obtain ⟨other, old⟩ := entry
      by_cases hkey : other = key
      · simp [contains, get?, hkey] at h
      · simp only [contains, get?, hkey, if_false] at h
        simp [insert, hkey, ih h]

theorem contains_iff_mem_keys {key : α} {entries : List (α × β)} :
    contains key entries = true ↔ key ∈ keys entries := by
  induction entries with
  | nil => simp [contains, get?, keys]
  | cons entry rest ih =>
      obtain ⟨other, old⟩ := entry
      by_cases hkey : other = key
      · simp [contains, get?, keys, hkey]
      · simp only [contains, keys] at ih
        simp [contains, get?, keys, hkey, ih, Ne.symm hkey]

theorem get?_eq_none_iff {key : α} {entries : List (α × β)} :
    get? key entries = none ↔ key ∉ keys entries := by
  rw [← contains_iff_mem_keys]
  simp [contains]

theorem mem_of_get? {key : α} {value : β} {entries : List (α × β)}
    (h : get? key entries = some value) : (key, value) ∈ entries := by
  induction entries with
  | nil => cases h
  | cons entry rest ih =>
      obtain ⟨other, old⟩ := entry
      rw [get?] at h
      split at h
      next hkey =>
        cases h
        exact hkey ▸ List.mem_cons_self
      · exact List.mem_cons_of_mem _ (ih h)

theorem mem_keys_insert {key other : α} {value : β} {entries : List (α × β)} :
    other ∈ keys (insert key value entries) ↔ other = key ∨ other ∈ keys entries := by
  cases h : contains key entries with
  | true =>
      rw [keys_insert_of_contains value h]
      constructor
      · exact Or.inr
      · rintro (rfl | hother)
        · exact contains_iff_mem_keys.mp h
        · exact hother
  | false =>
      rw [keys_insert_of_not_contains value h, List.mem_append, List.mem_singleton]
      exact or_comm

theorem mem_keys_ofList {key : α} {pairs : List (α × β)} :
    key ∈ keys (ofList pairs) ↔ key ∈ keys pairs := by
  have hfold : ∀ (pairs entries : List (α × β)),
      key ∈ keys (pairs.foldl (fun entries pair => insert pair.1 pair.2 entries) entries) ↔
        key ∈ keys entries ∨ key ∈ keys pairs := by
    intro pairs
    induction pairs with
    | nil => simp [keys]
    | cons pair rest ih =>
        intro entries
        rw [List.foldl_cons, ih, mem_keys_insert]
        simp only [keys, List.map_cons, List.mem_cons]
        rw [or_comm (a := key = pair.1), or_assoc]
  simpa [keys, ofList] using hfold pairs []

end ModelMint.Entries
