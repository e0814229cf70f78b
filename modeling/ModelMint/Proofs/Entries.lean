import Mathlib.Data.List.Nodup
import ModelMint.Entries

/-!
# Entries of pairs

Entries that are collected from pairs have each key once and come from the pairs; pairs
whose keys are distinct are collected as they are.
-/

namespace ModelMint.Entries

variable {α β : Type} [DecidableEq α] {key : α} {value : β} {entry : α × β}
  {entries pairs : List (α × β)}

theorem nodup_keys_insert (h : (keys entries).Nodup) :
    (keys (insert key value entries)).Nodup := by
  cases hcontains : contains key entries with
  | true => rwa [keys_insert_of_contains value hcontains]
  | false =>
      have habsent : key ∉ keys entries := by
        rw [← contains_iff_mem_keys, hcontains]
        exact Bool.false_ne_true
      rw [keys_insert_of_not_contains value hcontains, ← List.concat_eq_append]
      exact h.concat habsent

theorem mem_insert (h : entry ∈ insert key value entries) :
    entry = (key, value) ∨ entry ∈ entries := by
  induction entries with
  | nil => exact .inl (List.mem_singleton.mp h)
  | cons first rest ih =>
      obtain ⟨other, old⟩ := first
      rw [insert] at h
      split at h
      next hkey =>
        rcases List.mem_cons.mp h with rfl | hrest
        · exact .inl (by rw [hkey])
        · exact .inr (List.mem_cons_of_mem _ hrest)
      next =>
        rcases List.mem_cons.mp h with rfl | hrest
        · exact .inr List.mem_cons_self
        · exact (ih hrest).imp_right (List.mem_cons_of_mem _)

theorem nodup_keys_ofList (pairs : List (α × β)) : (keys (ofList pairs)).Nodup := by
  have hfold : ∀ entries : List (α × β), (keys entries).Nodup →
      (keys (pairs.foldl (fun entries pair => insert pair.1 pair.2 entries) entries)).Nodup := by
    induction pairs with
    | nil => exact fun _ h => h
    | cons pair rest ih => exact fun entries h => ih _ (nodup_keys_insert h)
  exact hfold [] List.nodup_nil

theorem mem_of_mem_ofList (h : entry ∈ ofList pairs) : entry ∈ pairs := by
  have hfold : ∀ entries : List (α × β),
      entry ∈ pairs.foldl (fun entries pair => insert pair.1 pair.2 entries) entries →
        entry ∈ pairs ∨ entry ∈ entries := by
    clear h
    induction pairs with
    | nil => exact fun _ h => .inr h
    | cons pair rest ih =>
        intro entries h
        rcases ih _ h with hrest | hentries
        · exact .inl (List.mem_cons_of_mem _ hrest)
        · rcases mem_insert hentries with rfl | hbefore
          · exact .inl List.mem_cons_self
          · exact .inr hbefore
  exact (hfold [] h).resolve_right List.not_mem_nil

theorem foldl_insert_of_nodup (h : (keys (entries ++ pairs)).Nodup) :
    pairs.foldl (fun entries pair => insert pair.1 pair.2 entries) entries = entries ++ pairs := by
  induction pairs generalizing entries with
  | nil => simp
  | cons pair rest ih =>
      have habsent : contains pair.1 entries = false := by
        rw [Bool.eq_false_iff, ne_eq, contains_iff_mem_keys]
        intro hmem
        rw [keys, List.map_append, List.nodup_append] at h
        exact h.2.2 pair.1 hmem pair.1 (by simp) rfl
      rw [List.foldl_cons, insert_of_not_contains _ habsent, ih (by simpa using h)]
      simp

theorem ofList_of_nodup (h : (keys pairs).Nodup) : ofList pairs = pairs :=
  foldl_insert_of_nodup (by simpa using h)

end ModelMint.Entries
