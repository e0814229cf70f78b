import ModelMint.Proofs.Instance.Numbers

/-!
# Parts of values

A value has its items and members for parts, and theirs in turn; where there are none it
can be a key.  What is asked of a value is asked of all its parts: each key once in a map,
and no number that is none.
-/

namespace ModelMint

namespace Value

/-! ## Parts -/

/-- Every value is a part of itself, and so are the parts of its items and members. -/
inductive IsPart (part : Value) : Value → Prop
  | self : IsPart part part
  | item {items : List Value} {item : Value} (hmem : item ∈ items) (h : IsPart part item) :
      IsPart part (.list items)
  | member {members : List (String × Value)} {entry : String × Value} (hmem : entry ∈ members)
      (h : IsPart part entry.2) : IsPart part (.map members)

@[simp] theorem isPart_list {part : Value} {items : List Value} :
    IsPart part (.list items) ↔ part = .list items ∨ ∃ item ∈ items, IsPart part item := by
  constructor
  · rintro (_ | ⟨hmem, hpart⟩)
    · exact .inl rfl
    · exact .inr ⟨_, hmem, hpart⟩
  · rintro (rfl | ⟨item, hmem, hpart⟩)
    · exact .self
    · exact .item hmem hpart

@[simp] theorem isPart_map {part : Value} {members : List (String × Value)} :
    IsPart part (.map members) ↔ part = .map members ∨ ∃ entry ∈ members, IsPart part entry.2 := by
  constructor
  · rintro (_ | _ | ⟨hmem, hpart⟩)
    · exact .inl rfl
    · exact .inr ⟨_, hmem, hpart⟩
  · rintro (rfl | ⟨entry, hmem, hpart⟩)
    · exact .self
    · exact .member hmem hpart

@[simp] theorem isPart_instance {part : Value} {id : Nat} :
    IsPart part (.instance id) ↔ part = .instance id := by
  constructor
  · rintro ⟨⟩
    rfl
  · rintro rfl
    exact .self

theorem isPart_key {part value : Value} (hkey : value.isKey = true) :
    IsPart part value ↔ part = value := by
  constructor
  · intro h
    cases h with
    | self => rfl
    | item | member => cases hkey
  · rintro rfl
    exact .self

/-- A map has every key once. -/
def IsKeyed (value : Value) : Prop :=
  ∀ members, IsPart (.map members) value → (Entries.keys members).Nodup

/-- A number is a number. -/
def HasNumbers (value : Value) : Prop := ¬ IsPart (.float .nan) value

theorem IsKeyed.item {items : List Value} (h : IsKeyed (.list items)) {item : Value}
    (hmem : item ∈ items) : IsKeyed item :=
  fun members hpart => h members (.item hmem hpart)

theorem IsKeyed.member {members : List (String × Value)} (h : IsKeyed (.map members))
    {entry : String × Value} (hmem : entry ∈ members) : IsKeyed entry.2 :=
  fun others hpart => h others (.member hmem hpart)

theorem HasNumbers.item {items : List Value} (h : HasNumbers (.list items)) {item : Value}
    (hmem : item ∈ items) : HasNumbers item := fun hpart => h (.item hmem hpart)

theorem HasNumbers.member {members : List (String × Value)} (h : HasNumbers (.map members))
    {entry : String × Value} (hmem : entry ∈ members) : HasNumbers entry.2 :=
  fun hpart => h (.member hmem hpart)

theorem IsPart.trans {part middle value : Value} (h : IsPart part middle)
    (hmiddle : IsPart middle value) : IsPart part value := by
  induction hmiddle with
  | self => exact h
  | item hmem _ ih => exact .item hmem ih
  | member hmem _ ih => exact .member hmem ih

theorem IsKeyed.part {part value : Value} (h : IsKeyed value) (hpart : IsPart part value) :
    IsKeyed part := fun members hmembers => h members (hmembers.trans hpart)

/-- Values are lists, maps, instances and such that can be keys. -/
@[elab_as_elim]
theorem induction_parts {motive : Value → Prop}
    (list : ∀ items, (∀ item ∈ items, motive item) → motive (.list items))
    (map : ∀ members, (∀ entry ∈ members, motive entry.2) → motive (.map members))
    («instance» : ∀ id, motive (.instance id))
    (key : ∀ value, value.isKey = true → motive value) (value : Value) : motive value := by
  -- values are nested through lists and pairs, so the induction is on their size
  have hvalue : ∀ size value, sizeOf value ≤ size → motive value := by
    intro size
    induction size with
    | zero =>
        intro value hsize
        cases value <;> simp at hsize
    | succ size ih =>
        intro value hsize
        cases value with
        | list items =>
            refine list items fun item hmem => ih item ?_
            have := List.sizeOf_lt_of_mem hmem
            simp only [Value.list.sizeOf_spec] at hsize
            omega
        | map members =>
            refine map members fun entry hmem => ih entry.2 ?_
            have := List.sizeOf_lt_of_mem hmem
            have hentry : sizeOf entry = 1 + sizeOf entry.1 + sizeOf entry.2 := by
              obtain ⟨name, held⟩ := entry
              rfl
            simp only [Value.map.sizeOf_spec] at hsize
            omega
        | «instance» id => exact «instance» id
        | _ => exact key _ rfl
  exact hvalue _ value (Nat.le_refl _)

/-! ## Values without parts -/

/-- How a value that can be a key is equal to another. -/
def sameKey : Value → Value → Bool
  | .none, .none => true
  | .text a, .text b => a == b
  | .moment a, .moment b => a.same b
  | .type a, .type b => a == b
  | a, b => sameNumber a b

variable {a b c : Value}

theorem isKey_of_number? {p : Binary64.Point} (h : a.number? = some p) : a.isKey = true := by
  cases a with
  | list | map | «instance» => cases h
  | _ => rfl

theorem sameKey_of_number {p : Binary64.Point} (h : a.number? = some p) :
    sameKey a b = sameNumber a b := by
  cases a with
  | bool | int | float => cases b <;> rfl
  | _ => cases h

/-- Values that can be keys are equal as they are of one kind, or are equal numbers. -/
theorem sameKey_iff : sameKey a b = true ↔
    a = .none ∧ b = .none ∨ (∃ text, a = .text text ∧ b = .text text) ∨
      (∃ first second, a = .moment first ∧ b = .moment second ∧ first.same second = true) ∨
      (∃ name, a = .type name ∧ b = .type name) ∨ sameNumber a b = true := by
  cases a <;> cases b <;> simp [sameKey, sameNumber, number?]
  all_goals exact eq_comm

theorem isKey_of_sameKey (h : sameKey a b = true) : b.isKey = true := by
  rcases sameKey_iff.mp h with
    ⟨-, rfl⟩ | ⟨text, -, rfl⟩ | ⟨first, second, -, rfl, -⟩ | ⟨name, -, rfl⟩ | hnumber
  · rfl
  · rfl
  · rfl
  · rfl
  · obtain ⟨p, q, -, hb, -⟩ := sameNumber_iff.mp hnumber
    exact isKey_of_number? hb

theorem sameKey_self (ha : a.isKey = true) (hnumbers : HasNumbers a) : sameKey a a = true := by
  have hnumber : ∀ p, a.number? = some p → p ≠ .undefined → sameNumber a a = true :=
    fun p hp hdefined => sameNumber_iff.mpr ⟨p, p, hp, hp, Binary64.Point.compare_self hdefined⟩
  cases a with
  | list | map | «instance» => cases ha
  | none => rfl
  | text | type => simp [sameKey]
  | moment => simp [sameKey, Moment.same]
  | bool | int => exact hnumber _ rfl (by simp)
  | float value =>
      cases value with
      | nan => exact absurd .self hnumbers
      | infinite | finite => exact hnumber _ rfl (by simp [Binary64.point])

theorem sameKey_symm (h : sameKey a b = true) : sameKey b a = true := by
  rw [sameKey_iff] at h ⊢
  rcases h with ⟨ha, hb⟩ | ⟨text, ha, hb⟩ | ⟨first, second, ha, hb, hsame⟩ | ⟨name, ha, hb⟩ | hnumber
  · exact .inl ⟨hb, ha⟩
  · exact .inr (.inl ⟨text, hb, ha⟩)
  · refine .inr (.inr (.inl ⟨second, first, hb, ha, ?_⟩))
    simp only [Moment.same, Bool.and_eq_true, beq_iff_eq] at hsame ⊢
    exact ⟨hsame.1.symm, hsame.2.symm⟩
  · exact .inr (.inr (.inr (.inl ⟨name, hb, ha⟩)))
  · exact .inr (.inr (.inr (.inr (sameNumber_symm hnumber))))

theorem sameKey_trans (hab : sameKey a b = true) (hbc : sameKey b c = true) :
    sameKey a c = true := by
  rcases sameKey_iff.mp hab with
    ⟨rfl, rfl⟩ | ⟨text, rfl, rfl⟩ | ⟨first, second, rfl, rfl, hsame⟩ | ⟨name, rfl, rfl⟩ | hnumber
  · exact hbc
  · exact hbc
  · cases c with
    | moment third =>
        simp only [sameKey, Moment.same, Bool.and_eq_true, beq_iff_eq] at hsame hbc ⊢
        exact ⟨hsame.1.trans hbc.1, hsame.2.trans hbc.2⟩
    | _ => simp [sameKey, sameNumber, number?] at hbc
  · exact hbc
  · obtain ⟨p, q, ha, hb, -⟩ := sameNumber_iff.mp hnumber
    rw [sameKey_of_number hb] at hbc
    rw [sameKey_of_number ha]
    exact sameNumber_trans hnumber hbc

end Value

end ModelMint
