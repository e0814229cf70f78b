import ModelMint.Instance.Value
import Mathlib

/-!
# Reading a store after a change

What the instances of a store are, and what they hold, after an attribute is set and
after an instance is added.
-/

namespace ModelMint.Store

variable (store : Store) (id : Nat) (attr : String) (value : Value)

/-! ## An attribute is set -/

theorem get?_put (other : Nat) :
    (store.put id attr value).get? other =
      if id = other then (store.get? other).map fun item => Instance.put item attr value
      else store.get? other := by
  simp only [get?, put, List.getElem?_modify]
  split <;> cases store.instances[other]? <;> simp

@[simp] theorem size_put : (store.put id attr value).size = store.size := by
  simp [size, put]

@[simp] theorem classOf_put (other : Nat) :
    (store.put id attr value).classOf other = store.classOf other := by
  simp only [classOf, get?_put]
  split <;> cases store.get? other <;> simp [Instance.put]

theorem attributes_put_self (h : id < store.size) :
    (store.put id attr value).attributes id =
      Entries.insert attr value (store.attributes id) := by
  have hget : store.get? id = some store.instances[id] := List.getElem?_eq_getElem h
  simp [attributes, get?_put, hget, Instance.put]

theorem attribute?_put_self (h : id < store.size) :
    (store.put id attr value).attribute? id attr = some value := by
  rw [attribute?, attributes_put_self _ _ _ _ h, Entries.get?_insert_self]

theorem attribute?_put_of_ne {other : String} (h : other ≠ attr) :
    (store.put id attr value).attribute? id other = store.attribute? id other := by
  by_cases hsize : id < store.size
  · rw [attribute?, attributes_put_self _ _ _ _ hsize, Entries.get?_insert_of_ne h, attribute?]
  · have hget : store.get? id = none := List.getElem?_eq_none (Nat.le_of_not_lt hsize)
    simp [attribute?, attributes, get?_put, hget]

/-! ## An instance is added -/

variable (className : String)

theorem get?_add (other : Nat) :
    (store.add className).get? other =
      if other = store.size then some { className } else store.get? other := by
  have hsize : store.size = store.instances.length := rfl
  unfold get? add
  by_cases hother : other < store.size
  · rw [List.getElem?_append_left (by omega), if_neg (by omega)]
  · by_cases hsame : other = store.size
    · rw [if_pos hsame, hsame, hsize]
      simp
    · rw [if_neg hsame, List.getElem?_eq_none (by simp; omega),
        List.getElem?_eq_none (by omega)]

@[simp] theorem size_add : (store.add className).size = store.size + 1 := by
  simp [size, add]

@[simp] theorem classOf_add_self : (store.add className).classOf store.size = className := by
  simp [classOf, get?_add]

@[simp] theorem attributes_add_self : (store.add className).attributes store.size = [] := by
  simp [attributes, get?_add]

end ModelMint.Store
