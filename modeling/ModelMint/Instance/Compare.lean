import ModelMint.Instance.Refusal
import ModelMint.Instance.Value
import ModelMint.Text.Lines

/-!
# Comparing values

Numbers are equal when they are the same number, whole or not; lists and maps by their
parts, maps in any order; instances when they have the same class and equal attributes.
An instance equals itself without a look at its attributes.
-/

namespace ModelMint

namespace Value

def sameNumber (a b : Value) : Bool :=
  match a.number?, b.number? with
  | some a, some b => a.compare b == some .eq
  | _, _ => false

mutual

/-- `sameInstance` compares two different instances. -/
def sameWith (sameInstance : Nat → Nat → Except Fault Bool) : Value → Value → Except Fault Bool
  | .none, .none => .ok true
  | .text a, .text b => .ok (a == b)
  | .moment a, .moment b => .ok (a.same b)
  | .list as, .list bs =>
    if as.length == bs.length then sameItems sameInstance as bs else .ok false
  | .map as, .map bs =>
    if as.length == bs.length then sameMembers sameInstance as bs else .ok false
  | .instance a, .instance b => if a == b then .ok true else sameInstance a b
  | .type a, .type b => .ok (a == b)
  | a, b => .ok (sameNumber a b)

def sameItems (sameInstance : Nat → Nat → Except Fault Bool) :
    List Value → List Value → Except Fault Bool
  | a :: as, b :: bs => match sameWith sameInstance a b with
    | .ok true => sameItems sameInstance as bs
    | other => other
  | _, _ => .ok true

def sameMembers (sameInstance : Nat → Nat → Except Fault Bool) :
    List (String × Value) → List (String × Value) → Except Fault Bool
  | [], _ => .ok true
  | (key, a) :: as, bs => match Entries.get? key bs with
    | .none => .ok false
    | .some b => match sameWith sameInstance a b with
      | .ok true => sameMembers sameInstance as bs
      | other => other

end

/-! ## Parts -/

/-- The values that a value runs through. -/
def elements : Value → Except Fault (List Value)
  | .list items => .ok items
  | .text given => .ok (given.toList.map fun c => .text (String.ofList [c]))
  | .map members => .ok (members.map fun (key, _) => .text key)
  | _ => .error .unsuitable

def length : Value → Except Fault Nat
  | .list items => .ok items.length
  | .text given => .ok given.length
  | .map members => .ok members.length
  | _ => .error .unsuitable

end Value

namespace Store

def sameInstances (store : Store) : Nat → Nat → Nat → Except Fault Bool
  | 0, _, _ => .error .endless
  | fuel + 1, a, b =>
    if store.classOf a == store.classOf b then
      Value.sameWith (store.sameInstances fuel) (.map (store.attributes a))
        (.map (store.attributes b))
    else .ok false

/-- On the way down no pair of instances comes twice, unless the comparison has no end. -/
def same (store : Store) (a b : Value) : Except Fault Bool :=
  a.sameWith (store.sameInstances (store.size * store.size + 1)) b

/-! ## Order -/

def lessText : List Char → List Char → Bool
  | [], [] => false
  | [], _ :: _ => true
  | _ :: _, [] => false
  | a :: as, b :: bs => a.toNat < b.toNat || (a == b && lessText as bs)

/-- Only values of one kind have an order, and lists have that of their first difference. -/
def less (store : Store) : Value → Value → Except Fault Bool
  | .text a, .text b => .ok (lessText a.toList b.toList)
  | .moment a, .moment b => match a.compare b with
    | some order => .ok (order == .lt)
    | none => .error .unsuitable
  | .list as, .list bs => lessItems store as bs
  | a, b => match a.number?, b.number? with
    | some a, some b => .ok (a.compare b == some .lt)
    | _, _ => .error .unsuitable
where
  lessItems (store : Store) : List Value → List Value → Except Fault Bool
  | [], [] => .ok false
  | [], _ :: _ => .ok true
  | _ :: _, [] => .ok false
  | a :: as, b :: bs => match store.same a b with
    | .error fault => .error fault
    | .ok true => lessItems store as bs
    | .ok false => less store a b

/-! ## Containers -/

def anySame (store : Store) (value : Value) : List Value → Except Fault Bool
  | [] => .ok false
  | item :: rest => match store.same value item with
    | .ok false => anySame store value rest
    | other => other

/-- A text is searched for another text; of a map the keys count. -/
def contains (store : Store) (value container : Value) : Except Fault Bool :=
  match container with
  | .list items => store.anySame value items
  | .text text => match value with
    | .text word => .ok (Text.occursIn word.toList text.toList)
    | _ => .error .unsuitable
  | .map members =>
    if value.isKey then match value with
      | .text key => .ok (Entries.contains key members)
      | _ => .ok false
    else .error .unsuitable
  | _ => .error .unsuitable

end Store

end ModelMint
