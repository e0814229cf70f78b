import ModelMint.Instance.Check

/-!
# Actions on instances

An action changes the store and then succeeds or is refused.  A refusal takes nothing
back: what was changed before it stays changed.
-/

namespace ModelMint

def Action (α : Type) : Type := Store → Store × Except Refusal α

namespace Action

def pure {α : Type} (value : α) : Action α := fun store => (store, .ok value)

def bind {α β : Type} (action : Action α) (next : α → Action β) : Action β := fun store =>
  match action store with
  | (store, .ok value) => next value store
  | (store, .error refusal) => (store, .error refusal)

instance : Monad Action where
  pure := pure
  bind := bind

def refuse {α : Type} (refusal : Refusal) : Action α := fun store => (store, .error refusal)

def fault {α : Type} (fault : Fault) : Action α := refuse (.fault fault)

def ofExcept {α : Type} (result : Except Refusal α) : Action α := fun store => (store, result)

def ofFault {α : Type} (result : Except Fault α) : Action α := ofExcept (Scene.ofFault result)

/-- Looks at the store and leaves it as it is. -/
def look {α : Type} (f : Store → α) : Action α := fun store => (store, .ok (f store))

/-- A check of the base class. -/
def check {α : Type} (library : Library) (f : Scene → Except Refusal α) : Action α :=
  fun store => (store, f ⟨library, store⟩)

def assign (id : Nat) (attr : String) (value : Value) : Action Unit := fun store =>
  (store.put id attr value, .ok ())

/-- Acts on every item in order, up to the first refusal. -/
def forEach {α β : Type} (f : α → Action β) : List α → Action (List β)
  | [] => pure []
  | item :: rest => bind (f item) fun first => bind (forEach f rest) fun others =>
      pure (first :: others)

/-- Hands a value through all steps in order, up to the first refusal. -/
def through {α β : Type} (f : α → β → Action β) : List α → β → Action β
  | [], value => pure value
  | step :: rest, value => bind (f step value) (through f rest)

@[simp] theorem pure_apply {α : Type} (value : α) (store : Store) :
    pure value store = (store, .ok value) := rfl

@[simp] theorem bind_apply {α β : Type} (action : Action α) (next : α → Action β)
    (store : Store) :
    bind action next store = match action store with
      | (store, .ok value) => next value store
      | (store, .error refusal) => (store, .error refusal) := rfl

end Action

end ModelMint
