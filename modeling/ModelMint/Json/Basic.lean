import ModelMint.Entries
import ModelMint.Number.Binary64

/-!
# Documents

A decoded JSON document.  Whole numbers are unbounded and stay apart from doubles,
and an object keeps its members in document order, each key once.
-/

namespace ModelMint

inductive Json where
  | null
  | bool (value : Bool)
  | int (value : Int)
  | float (value : Binary64)
  | str (value : String)
  | arr (items : List Json)
  | obj (members : List (String × Json))
deriving Repr

namespace Json

instance : Inhabited Json := ⟨.null⟩

def get? (key : String) : Json → Option Json
  | .obj members => Entries.get? key members
  | _ => none

def str? : Json → Option String
  | .str text => some text
  | _ => none

/-- Empty and zero values count as no, as does null. -/
def truthy : Json → Bool
  | .null => false
  | .bool value => value
  | .int value => value != 0
  | .float (.finite _ mantissa _) => mantissa != 0
  | .float _ => true
  | .str text => !text.isEmpty
  | .arr items => !items.isEmpty
  | .obj members => !members.isEmpty

/-! ## Sameness -/

mutual

/-- The same document, member order included: `1` and `1.0` differ. -/
def same : Json → Json → Bool
  | .null, .null => true
  | .bool a, .bool b => a == b
  | .int a, .int b => a == b
  | .float a, .float b => a == b
  | .str a, .str b => a == b
  | .arr a, .arr b => sameItems a b
  | .obj a, .obj b => sameMembers a b
  | _, _ => false

def sameItems : List Json → List Json → Bool
  | [], [] => true
  | a :: as, b :: bs => same a b && sameItems as bs
  | _, _ => false

def sameMembers : List (String × Json) → List (String × Json) → Bool
  | [], [] => true
  | (key, a) :: as, (other, b) :: bs => key == other && same a b && sameMembers as bs
  | _, _ => false

end

mutual

theorem same_iff : ∀ a b : Json, same a b = true ↔ a = b
  | .null, b => by cases b <;> simp [same]
  | .bool _, b => by cases b <;> simp [same]
  | .int _, b => by cases b <;> simp [same]
  | .float _, b => by cases b <;> simp [same]
  | .str _, b => by cases b <;> simp [same]
  | .arr as, b => by
      cases b with
      | arr bs => simp [same, sameItems_iff as bs]
      | _ => simp [same]
  | .obj as, b => by
      cases b with
      | obj bs => simp [same, sameMembers_iff as bs]
      | _ => simp [same]

theorem sameItems_iff : ∀ as bs : List Json, sameItems as bs = true ↔ as = bs
  | [], bs => by cases bs <;> simp [sameItems]
  | a :: as, bs => by
      cases bs with
      | nil => simp [sameItems]
      | cons b bs => simp [sameItems, same_iff a b, sameItems_iff as bs]

theorem sameMembers_iff :
    ∀ as bs : List (String × Json), sameMembers as bs = true ↔ as = bs
  | [], bs => by cases bs <;> simp [sameMembers]
  | (key, a) :: as, bs => by
      cases bs with
      | nil => simp [sameMembers]
      | cons entry bs =>
          obtain ⟨other, b⟩ := entry
          simp [sameMembers, same_iff a b, sameMembers_iff as bs, and_assoc]

end

instance : DecidableEq Json := fun a b => decidable_of_iff _ (same_iff a b)

end Json

end ModelMint
