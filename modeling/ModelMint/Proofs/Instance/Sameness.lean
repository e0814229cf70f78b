import ModelMint.Instance.Compare
import ModelMint.Proofs.Instance.Literal

/-!
# When decoded values are equal

Decoded values are compared without a look at any instance, and the comparison has an
answer for all of them.
-/

namespace ModelMint

/-! ## Decoded values -/

namespace Json

mutual

/-- Whether every object in the value has each of its keys once, as a reader leaves it. -/
def isKeyed : Json → Bool
  | .arr items => itemsKeyed items
  | .obj members => decide (Entries.keys members).Nodup && membersKeyed members
  | _ => true

def itemsKeyed : List Json → Bool
  | [] => true
  | item :: rest => isKeyed item && itemsKeyed rest

def membersKeyed : List (String × Json) → Bool
  | [] => true
  | (_, value) :: rest => isKeyed value && membersKeyed rest

end

mutual

/-- Whether two decoded values are equal: numbers as numbers, members in any order. -/
def alike : Json → Json → Bool
  | .null, .null => true
  | .str a, .str b => a == b
  | .arr as, .arr bs => as.length == bs.length && alikeItems as bs
  | .obj as, .obj bs => as.length == bs.length && alikeMembers as bs
  | a, b => Value.sameNumber (.ofJson a) (.ofJson b)

def alikeItems : List Json → List Json → Bool
  | a :: as, b :: bs => alike a b && alikeItems as bs
  | _, _ => true

def alikeMembers : List (String × Json) → List (String × Json) → Bool
  | [], _ => true
  | (key, a) :: as, bs => (Entries.get? key bs).any (alike a) && alikeMembers as bs

end

end Json

/-! ## The comparison -/

theorem get?_ofMembers (key : String) (members : List (String × Json)) :
    Entries.get? key (Value.ofMembers members) = (Entries.get? key members).map Value.ofJson := by
  induction members with
  | nil => rfl
  | cons entry rest ih =>
      obtain ⟨other, value⟩ := entry
      rw [Value.ofMembers, Entries.get?, Entries.get?]
      split <;> simp [ih]

theorem ofItems_eq (items : List Json) : Value.ofItems items = items.map Value.ofJson := by
  induction items with
  | nil => rfl
  | cons item rest ih => rw [Value.ofItems, List.map_cons, ih]

theorem ofMembers_eq (members : List (String × Json)) :
    Value.ofMembers members = members.map fun entry => (entry.1, Value.ofJson entry.2) := by
  induction members with
  | nil => rfl
  | cons entry rest ih => rw [Value.ofMembers, List.map_cons, ih]

section Comparison

variable {sameInstance : Nat → Nat → Except Fault Bool}

mutual

/-- The comparison of decoded values comes to an end, whatever is said of instances. -/
theorem sameWith_ofJson_eq : ∀ a b : Json,
    (Value.ofJson a).sameWith sameInstance (.ofJson b) = .ok (a.alike b)
  | .arr as, .arr bs => by
      rw [Value.ofJson, Value.ofJson, Value.sameWith, sameItems_ofItems_eq as bs, ofItems_eq,
        ofItems_eq, List.length_map, List.length_map, Json.alike]
      split
      next h => rw [h, Bool.true_and]
      next h => rw [Bool.eq_false_iff.mpr h, Bool.false_and]
  | .obj as, .obj bs => by
      rw [Value.ofJson, Value.ofJson, Value.sameWith, sameMembers_ofMembers_eq as bs, ofMembers_eq,
        ofMembers_eq, List.length_map, List.length_map, Json.alike]
      split
      next h => rw [h, Bool.true_and]
      next h => rw [Bool.eq_false_iff.mpr h, Bool.false_and]
  | .null, b | .bool _, b | .int _, b | .float _, b | .str _, b => by
      cases b <;> simp [Value.ofJson, Value.sameWith, Json.alike]
  | .arr _, .null | .arr _, .bool _ | .arr _, .int _ | .arr _, .float _ | .arr _, .str _
  | .arr _, .obj _ | .obj _, .null | .obj _, .bool _ | .obj _, .int _ | .obj _, .float _
  | .obj _, .str _ | .obj _, .arr _ => by simp [Value.ofJson, Value.sameWith, Json.alike]

theorem sameItems_ofItems_eq : ∀ as bs : List Json,
    Value.sameItems sameInstance (Value.ofItems as) (Value.ofItems bs) = .ok (Json.alikeItems as bs)
  | [], bs => by simp [Value.ofItems, Value.sameItems, Json.alikeItems]
  | _ :: _, [] => by simp [Value.ofItems, Value.sameItems, Json.alikeItems]
  | a :: as, b :: bs => by
      rw [Value.ofItems, Value.ofItems, Value.sameItems, sameWith_ofJson_eq a b,
        sameItems_ofItems_eq as bs, Json.alikeItems]
      cases a.alike b <;> rfl

theorem sameMembers_ofMembers_eq : ∀ as bs : List (String × Json),
    Value.sameMembers sameInstance (Value.ofMembers as) (Value.ofMembers bs) =
      .ok (Json.alikeMembers as bs)
  | [], bs => by simp [Value.ofMembers, Value.sameMembers, Json.alikeMembers]
  | (key, a) :: as, bs => by
      rw [Value.ofMembers, Value.sameMembers, get?_ofMembers, Json.alikeMembers]
      cases Entries.get? key bs with
      | none => rfl
      | some b =>
          simp only [Option.map_some, Option.any_some]
          rw [sameWith_ofJson_eq a b, sameMembers_ofMembers_eq as bs]
          cases a.alike b <;> rfl

end

end Comparison

theorem same_ofJson (store : Store) (a b : Json) :
    store.same (.ofJson a) (.ofJson b) = .ok (a.alike b) := sameWith_ofJson_eq a b

end ModelMint
