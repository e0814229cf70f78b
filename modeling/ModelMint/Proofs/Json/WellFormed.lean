import ModelMint.Json.Reader
import ModelMint.Proofs.Entries
import ModelMint.Proofs.Number.Rounding
import ModelMint.Proofs.Results

/-!
# Well-formed documents

What is read as a document has every double in the one form of its value, and every
object in it has each of its keys once.
-/

namespace ModelMint

namespace Json

mutual

def WellFormed : Json → Prop
  | .float value => value.Canonical
  | .arr items => ItemsWellFormed items
  | .obj members => (Entries.keys members).Nodup ∧ MembersWellFormed members
  | _ => True

def ItemsWellFormed : List Json → Prop
  | [] => True
  | item :: rest => item.WellFormed ∧ ItemsWellFormed rest

def MembersWellFormed : List (String × Json) → Prop
  | [] => True
  | (_, value) :: rest => value.WellFormed ∧ MembersWellFormed rest

end

theorem membersWellFormed_iff {members : List (String × Json)} :
    MembersWellFormed members ↔ ∀ entry ∈ members, entry.2.WellFormed := by
  induction members with
  | nil => simp [MembersWellFormed]
  | cons entry rest ih => rw [MembersWellFormed, ih, List.forall_mem_cons]

/-! ## Reading -/

variable {text rest : List Char} {value : Json}

theorem wellFormed_readNumber {negative : Bool}
    (h : readNumber negative text = .ok (value, rest)) : value.WellFormed := by
  unfold readNumber at h
  split at h
  · cases h
  next whole tail hwhole =>
    simp only at h
    split at h
    · split at h
      · cases h
      · cases h
        trivial
    · cases h
      exact Binary64.ofDecimal_canonical _ _ _

theorem wellFormed_words {word : List Char} (h : (word, value) ∈ words) : value.WellFormed := by
  simp only [words, List.mem_cons, Prod.mk.injEq, List.not_mem_nil, or_false] at h
  rcases h with ⟨-, rfl⟩ | ⟨-, rfl⟩ | ⟨-, rfl⟩ | ⟨-, rfl⟩ | ⟨-, rfl⟩ | ⟨-, rfl⟩ <;> trivial

theorem wellFormed_readAtom (h : readAtom text = .ok (value, rest)) : value.WellFormed := by
  unfold readAtom at h
  split at h
  next found hfound =>
    cases h
    obtain ⟨⟨word, atom⟩, hmem, hread⟩ := List.exists_of_findSome?_eq_some hfound
    obtain ⟨tail, -, hvalue⟩ := Option.map_eq_some_iff.mp hread
    cases hvalue
    exact wellFormed_words hmem
  · split at h
    · exact wellFormed_readNumber h
    · exact wellFormed_readNumber h

mutual

theorem wellFormed_readValue : ∀ {fuel : Nat} {text rest : List Char} {value : Json},
    readValue fuel text = .ok (value, rest) → value.WellFormed
  | 0, _, _, _, h => by cases h
  | fuel + 1, text, rest, value, h => by
      unfold readValue at h
      split at h
      · split at h
        · cases h
          trivial
        · cases h
      · split at h
        · cases h
          trivial
        next =>
          obtain ⟨⟨items, tail⟩, hitems, hvalue⟩ := bind_eq_ok.mp h
          cases hvalue
          exact wellFormed_readItems hitems
      · split at h
        · cases h
          exact ⟨List.nodup_nil, trivial⟩
        next =>
          obtain ⟨⟨members, tail⟩, hmembers, hvalue⟩ := bind_eq_ok.mp h
          cases hvalue
          have hall := membersWellFormed_iff.mp (wellFormed_readMembers hmembers)
          exact ⟨Entries.nodup_keys_ofList members, membersWellFormed_iff.mpr fun entry hentry =>
            hall entry (Entries.mem_of_mem_ofList hentry)⟩
      · exact wellFormed_readAtom h

theorem wellFormed_readItems : ∀ {fuel : Nat} {text rest : List Char} {items : List Json},
    readItems fuel text = .ok (items, rest) → ItemsWellFormed items
  | 0, _, _, _, h => by cases h
  | fuel + 1, text, rest, items, h => by
      unfold readItems at h
      obtain ⟨⟨item, tail⟩, hitem, hrest⟩ := bind_eq_ok.mp h
      have hfirst := wellFormed_readValue hitem
      dsimp only at hrest
      split at hrest
      · cases hrest
        exact ⟨hfirst, trivial⟩
      · obtain ⟨⟨others, last⟩, hothers, hvalues⟩ := bind_eq_ok.mp hrest
        cases hvalues
        exact ⟨hfirst, wellFormed_readItems hothers⟩
      · cases hrest

theorem wellFormed_readMembers : ∀ {fuel : Nat} {text rest : List Char}
    {members : List (String × Json)},
    readMembers fuel text = .ok (members, rest) → MembersWellFormed members
  | 0, _, _, _, h => by cases h
  | fuel + 1, text, rest, members, h => by
      unfold readMembers at h
      split at h
      · split at h
        · cases h
        · split at h
          · obtain ⟨⟨value, tail⟩, hvalue, hrest⟩ := bind_eq_ok.mp h
            have hfirst := wellFormed_readValue hvalue
            dsimp only at hrest
            split at hrest
            · cases hrest
              exact ⟨hfirst, trivial⟩
            · obtain ⟨⟨others, last⟩, hothers, hentries⟩ := bind_eq_ok.mp hrest
              cases hentries
              exact ⟨hfirst, wellFormed_readMembers hothers⟩
            · cases hrest
          · cases h
      · cases h

end

theorem wellFormed_read (h : read text = .ok value) : value.WellFormed := by
  obtain ⟨⟨found, tail⟩, hvalue, hrest⟩ := bind_eq_ok.mp h
  dsimp only at hrest
  split at hrest
  · cases hrest
    exact wellFormed_readValue hvalue
  · cases hrest

end Json

end ModelMint
