import ModelMint.Instance.Operators
import ModelMint.Proofs.Instance.Comparison
import ModelMint.Proofs.Instance.Store
import ModelMint.Proofs.Schema.Reordering

/-!
# When instances are equal

Instances that refer to each other without a cycle are compared to an end: each step down
leaves fewer instances below.  So their equality has an answer for any two of them.  It is an
equivalence, and the order in which attributes were set does not count.
-/

namespace ModelMint.Store

open Value
open Relation

/-! ## References -/

/-- All attributes of an instance as one value. -/
def held (store : Store) (id : Nat) : Value := .map (store.attributes id)

/-- The second instance is a part of an attribute of the first. -/
def Refers (store : Store) (holder other : Nat) : Prop :=
  IsPart (.instance other) (store.held holder)

/-- Instances that refer to each other only, and never back to themselves.  Maps have each key once,
and numbers are numbers. -/
structure Comparable (store : Store) (among : Set Nat) : Prop where
  inside : ∀ id ∈ among, id < store.size
  closed : ∀ id ∈ among, ∀ other, store.Refers id other → other ∈ among
  acyclic : ∀ id ∈ among, ¬ TransGen store.Refers id id
  keyed : ∀ id ∈ among, IsKeyed (store.held id)
  numbers : ∀ id ∈ among, HasNumbers (store.held id)

open Classical in
/-- The instances that an instance leads to. -/
noncomputable def below (store : Store) (id : Nat) : Finset Nat :=
  (Finset.range store.size).filter fun other => TransGen store.Refers id other

theorem mem_below {store : Store} {id other : Nat} :
    other ∈ store.below id ↔ other < store.size ∧ TransGen store.Refers id other := by
  simp [below]

variable {store : Store} {among : Set Nat} {a b c id other : Nat}

theorem Comparable.card_below_lt (h : Comparable store among) (hid : id ∈ among)
    (hrefers : store.Refers id other) : (store.below other).card < (store.below id).card := by
  have hother := h.closed id hid other hrefers
  have hmem : other ∈ store.below id := mem_below.mpr ⟨h.inside other hother, .single hrefers⟩
  have hnot : other ∉ store.below other :=
    fun hself => h.acyclic other hother (mem_below.mp hself).2
  have hsubset : store.below other ⊆ store.below id := by
    intro third hthird
    obtain ⟨hinside, hleads⟩ := mem_below.mp hthird
    exact mem_below.mpr ⟨hinside, .head hrefers hleads⟩
  exact Finset.card_lt_card (Finset.ssubset_iff_of_subset hsubset |>.mpr ⟨other, hmem, hnot⟩)

theorem Comparable.card_below_lt_size (h : Comparable store among) (hid : id ∈ among) :
    (store.below id).card < store.size := by
  have hnot : id ∉ store.below id := fun hself => h.acyclic id hid (mem_below.mp hself).2
  have hsubset : store.below id ⊆ Finset.range store.size :=
    fun other hother => Finset.mem_range.mpr (mem_below.mp hother).1
  have hmem : id ∈ Finset.range store.size := Finset.mem_range.mpr (h.inside id hid)
  simpa using Finset.card_lt_card (Finset.ssubset_iff_of_subset hsubset |>.mpr ⟨id, hmem, hnot⟩)

/-! ## Different instances -/

theorem sameInstances_succ {fuel : Nat} : store.sameInstances (fuel + 1) a b = .ok true ↔
    store.classOf a = store.classOf b ∧
      sameWith (store.sameInstances fuel) (store.held a) (store.held b) = .ok true := by
  rw [sameInstances]
  by_cases hclass : store.classOf a = store.classOf b <;> simp [hclass, held]

/-- The comparison has an end within the instances that the first one leads to. -/
theorem Comparable.exists_sameInstances (h : Comparable store among) {fuel : Nat} (ha : a ∈ among)
    (hb : b ∈ among) (hfuel : (store.below a).card < fuel) :
    ∃ answer, store.sameInstances fuel a b = .ok answer := by
  induction fuel generalizing a b with
  | zero => cases hfuel
  | succ fuel ih =>
      rw [sameInstances]
      split
      · refine exists_sameWith fun first second hfirst hsecond => ?_
        have hless := h.card_below_lt ha hfirst
        exact ih (h.closed a ha first hfirst) (h.closed b hb second hsecond) (by omega)
      · exact ⟨false, rfl⟩

/-- A comparison that comes to an end says the same when it may go deeper. -/
theorem sameInstances_deeper {fuel : Nat} (h : store.sameInstances fuel a b = .ok true) :
    store.sameInstances (fuel + 1) a b = .ok true := by
  induction fuel generalizing a b with
  | zero => cases h
  | succ fuel ih =>
      obtain ⟨hclass, hheld⟩ := sameInstances_succ.mp h
      exact sameInstances_succ.mpr ⟨hclass, sameWith_mono (fun _ _ _ _ => ih) hheld⟩

theorem Comparable.sameInstances_symm (h : Comparable store among) {fuel : Nat} (ha : a ∈ among)
    (hb : b ∈ among) (hsame : store.sameInstances fuel a b = .ok true) :
    store.sameInstances fuel b a = .ok true := by
  induction fuel generalizing a b with
  | zero => cases hsame
  | succ fuel ih =>
      obtain ⟨hclass, hheld⟩ := sameInstances_succ.mp hsame
      refine sameInstances_succ.mpr ⟨hclass.symm, ?_⟩
      refine sameWith_symm (fun first second hfirst hsecond => ?_) (h.keyed a ha) (h.keyed b hb) hheld
      exact ih (h.closed a ha first hfirst) (h.closed b hb second hsecond)

theorem sameInstances_trans {fuel : Nat} (hab : store.sameInstances fuel a b = .ok true)
    (hbc : store.sameInstances fuel b c = .ok true) : store.sameInstances fuel a c = .ok true := by
  induction fuel generalizing a b c with
  | zero => cases hab
  | succ fuel ih =>
      obtain ⟨hclass, hheld⟩ := sameInstances_succ.mp hab
      obtain ⟨hagain, hothers⟩ := sameInstances_succ.mp hbc
      exact sameInstances_succ.mpr
        ⟨hclass.trans hagain, sameWith_trans (fun _ _ _ => ih) hheld hothers⟩

/-! ## Values of instances -/

theorem Comparable.exists_same (h : Comparable store among) {x y : Value}
    (hx : ∀ id, IsPart (.instance id) x → id ∈ among)
    (hy : ∀ id, IsPart (.instance id) y → id ∈ among) :
    ∃ answer, store.same x y = .ok answer := by
  refine exists_sameWith fun first second hfirst hsecond => ?_
  refine h.exists_sameInstances (hx first hfirst) (hy second hsecond) ?_
  have hless := h.card_below_lt_size (hx first hfirst)
  have hsquare : store.size ≤ store.size * store.size := Nat.le_mul_self _
  omega

theorem same_instance_iff : store.same (.instance a) (.instance b) = .ok true ↔
    a = b ∨ store.sameInstances (store.size * store.size + 1) a b = .ok true := by
  unfold same
  rw [sameWith_instance]
  simp

theorem same_of_class_ne (h : store.classOf a ≠ store.classOf b) :
    store.same (.instance a) (.instance b) = .ok false := by
  have hne : a ≠ b := by
    rintro rfl
    exact h rfl
  simp [same, sameWith, hne, sameInstances, h]

/-! ## Operators -/

theorem areEqual_eq (store : Store) (a b : Nat) :
    store.areEqual a b = store.same (.instance a) (.instance b) := by
  unfold areEqual equality same
  rw [sameWith, sameInstances]
  by_cases hsame : a = b
  · subst hsame
    simp [decideBy, Except.map]
  · by_cases hclass : store.classOf a = store.classOf b
    · simp only [hsame, hclass, beq_self_eq_true, beq_iff_eq, if_true, if_false]
      cases sameWith (store.sameInstances (store.size * store.size)) (.map (store.attributes a))
        (.map (store.attributes b)) <;> rfl
    · simp [hsame, hclass, Ne.symm hclass, decideBy, Except.map]

theorem areDifferent_eq (store : Store) (a b : Nat) :
    store.areDifferent a b = (store.areEqual a b).map (!·) := by
  unfold areDifferent areEqual difference
  cases store.equality a (.instance b) with
  | error fault => rfl
  | ok left =>
      cases left with
      | some answer => rfl
      | none =>
          cases store.equality b (.instance a) with
          | error fault => rfl
          | ok right => cases right <;> rfl

theorem areEqual_iff : store.areEqual a b = .ok true ↔
    a = b ∨ store.sameInstances (store.size * store.size + 1) a b = .ok true := by
  rw [areEqual_eq, same_instance_iff]

theorem Comparable.exists_areEqual (h : Comparable store among) (ha : a ∈ among) (hb : b ∈ among) :
    ∃ answer, store.areEqual a b = .ok answer := by
  rw [areEqual_eq]
  exact h.exists_same (fun id hpart => by cases hpart; exact ha)
    fun id hpart => by cases hpart; exact hb

/-! ## Another order -/

/-- The same instances, whose attributes were set in another order. -/
structure Reordered (store other : Store) : Prop where
  size : other.size = store.size
  classOf : ∀ id, other.classOf id = store.classOf id
  attributes : ∀ id, (other.attributes id).Perm (store.attributes id)

theorem Reordered.symm {other : Store} (h : Reordered store other) : Reordered other store :=
  ⟨h.size.symm, fun id => (h.classOf id).symm, fun id => (h.attributes id).symm⟩

theorem perm_insert_insert {first second : String} (hne : first ≠ second) (x y : Value)
    (entries : List (String × Value)) :
    (Entries.insert first x (Entries.insert second y entries)).Perm
      (Entries.insert second y (Entries.insert first x entries)) := by
  induction entries with
  | nil => simpa [Entries.insert, hne, hne.symm] using List.Perm.swap _ _ _
  | cons entry rest ih =>
      obtain ⟨key, value⟩ := entry
      by_cases hfirst : key = first
      · subst hfirst
        simp [Entries.insert, hne]
      · by_cases hsecond : key = second
        · subst hsecond
          simp [Entries.insert, hfirst]
        · simpa [Entries.insert, hfirst, hsecond] using ih

/-- Two attributes that are set one way or the other make no more of a difference than order. -/
theorem reordered_put {first second : String} (hne : first ≠ second) (store : Store) (id : Nat)
    (x y : Value) : Reordered ((store.put id first x).put id second y)
      ((store.put id second y).put id first x) where
  size := by simp
  classOf := by simp
  attributes other := by
    simp only [attributes, get?_put]
    by_cases hid : id = other
    · simp only [if_pos hid]
      cases store.get? other with
      | none => exact List.Perm.refl _
      | some item => exact perm_insert_insert hne x y item.attributes
    · simp [hid]

/-! A value leads to the same instances, whatever the order of its members is. -/

theorem isPart_of_perm {part : Value} {members others : List (String × Value)}
    (hperm : members.Perm others) (h : IsPart part (.map members)) :
    part = .map members ∨ IsPart part (.map others) := by
  cases h with
  | self => exact .inl rfl
  | member hmem hpart => exact .inr (.member (hperm.mem_iff.mp hmem) hpart)

section Reordered

variable {reordered : Store} (hreordered : Reordered store reordered)
include hreordered

theorem Reordered.refers : reordered.Refers = store.Refers := by
  have hmp : ∀ {store reordered : Store}, Reordered store reordered → ∀ holder other,
      reordered.Refers holder other → store.Refers holder other := by
    intro store reordered h holder other hrefers
    exact (isPart_of_perm (h.attributes holder) hrefers).resolve_left nofun
  funext holder other
  exact propext ⟨hmp hreordered holder other, hmp hreordered.symm holder other⟩

theorem Reordered.comparable (h : Comparable store among) : Comparable reordered among where
  inside id hid := hreordered.size ▸ h.inside id hid
  closed id hid other hrefers := h.closed id hid other (hreordered.refers ▸ hrefers)
  acyclic id hid := by
    rw [hreordered.refers]
    exact h.acyclic id hid
  keyed id hid members hpart := by
    rcases isPart_of_perm (hreordered.attributes id) hpart with hwhole | hheld
    · obtain rfl := Value.map.inj hwhole
      have hkeys : (Entries.keys (store.attributes id)).Nodup := h.keyed id hid _ .self
      exact ((hreordered.attributes id).map Prod.fst).nodup_iff.mpr hkeys
    · exact h.keyed id hid members hheld
  numbers id hid hpart :=
    h.numbers id hid ((isPart_of_perm (hreordered.attributes id) hpart).resolve_left nofun)

theorem Reordered.sameInstances (h : Comparable store among) {fuel : Nat} (ha : a ∈ among)
    (hb : b ∈ among) (hsame : store.sameInstances fuel a b = .ok true) :
    reordered.sameInstances fuel a b = .ok true := by
  induction fuel generalizing a b with
  | zero => cases hsame
  | succ fuel ih =>
      obtain ⟨hclass, hheld⟩ := sameInstances_succ.mp hsame
      refine sameInstances_succ.mpr ⟨?_, ?_⟩
      · rw [hreordered.classOf, hreordered.classOf, hclass]
      · obtain ⟨others, hothers, hlength, hmembers⟩ := sameWith_map.mp hheld
        obtain rfl := Value.map.inj hothers
        have hkeys := h.keyed b hb _ .self
        refine sameWith_map.mpr ⟨_, rfl, ?_, fun entry hentry => ?_⟩
        · rw [(hreordered.attributes a).length_eq, hlength, (hreordered.attributes b).length_eq]
        · have hentry := (hreordered.attributes a).mem_iff.mp hentry
          obtain ⟨value, hvalue, hequal⟩ := hmembers entry hentry
          refine ⟨value, ?_, sameWith_mono (fun first second hfirst hsecond => ?_) hequal⟩
          · rw [← Entries.get?_eq_of_perm (hreordered.attributes b).symm hkeys, hvalue]
          · exact ih (h.closed a ha first (.member hentry hfirst))
              (h.closed b hb second (.member (Entries.mem_of_get? hvalue) hsecond))

theorem Reordered.areEqual (h : Comparable store among) (ha : a ∈ among) (hb : b ∈ among) :
    reordered.areEqual a b = store.areEqual a b := by
  obtain ⟨left, hleft⟩ := h.exists_areEqual ha hb
  obtain ⟨right, hright⟩ := (hreordered.comparable h).exists_areEqual ha hb
  have hiff : left = true ↔ right = true := by
    have hsame : store.areEqual a b = .ok true ↔ reordered.areEqual a b = .ok true := by
      rw [areEqual_iff, areEqual_iff, hreordered.size]
      exact or_congr_right ⟨hreordered.sameInstances h ha hb,
        hreordered.symm.sameInstances (hreordered.comparable h) ha hb⟩
    simpa [hleft, hright] using hsame
  rw [hleft, hright, Bool.eq_iff_iff.mpr hiff]

end Reordered

/-- Instances of one class with the same attributes are equal, in whatever order they were set. -/
theorem Comparable.areEqual_of_perm (h : Comparable store among) (hb : b ∈ among)
    (hclass : store.classOf a = store.classOf b)
    (hperm : (store.attributes a).Perm (store.attributes b)) : store.areEqual a b = .ok true := by
  rw [areEqual_iff]
  exact .inr (sameInstances_succ.mpr
    ⟨hclass, sameWith_of_perm hperm (h.keyed b hb) (h.numbers b hb)⟩)

end ModelMint.Store
