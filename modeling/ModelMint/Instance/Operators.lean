import ModelMint.Instance.Compare

/-!
# Asking instances for equality

An instance is compared by a method of its own, which knows the instances of the very same
class only.  Where the left side does not know the right one, the right one is asked; where
neither knows the other, nothing but the same instance is equal.
-/

namespace ModelMint.Store

/-- What the method of an instance says, if it knows the other value.  An attribute is equal to
itself without a look at its value. -/
def equality (store : Store) (id : Nat) : Value → Except Fault (Option Bool)
  | .instance other =>
    if store.classOf id == store.classOf other then
      if id == other then .ok (some true)
      else (Value.sameWith (store.sameInstances (store.size * store.size))
        (.map (store.attributes id)) (.map (store.attributes other))).map some
    else .ok none
  | _ => .ok none

/-- The method for being different is the one for being equal, turned around. -/
def difference (store : Store) (id : Nat) (other : Value) : Except Fault (Option Bool) :=
  (store.equality id other).map (·.map (!·))

/-- The left side is asked before the right one, and where both have no answer there is a last
one. -/
def decideBy (left right : Except Fault (Option Bool)) (last : Bool) : Except Fault Bool :=
  match left with
  | .ok none => right.map (·.getD last)
  | _ => left.map (·.getD last)

def areEqual (store : Store) (a b : Nat) : Except Fault Bool :=
  decideBy (store.equality a (.instance b)) (store.equality b (.instance a)) (a == b)

def areDifferent (store : Store) (a b : Nat) : Except Fault Bool :=
  decideBy (store.difference a (.instance b)) (store.difference b (.instance a)) (a != b)

end ModelMint.Store
