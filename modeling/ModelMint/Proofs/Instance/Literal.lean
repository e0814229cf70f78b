import ModelMint.Instance.Library
import ModelMint.Proofs.Results

/-!
# What literals stand for

A value all of whose numbers are finite has a literal that stands for it wherever the
literal is written.  Another value has none: the words for its numbers are names.
-/

namespace ModelMint

namespace Binary64

def isFinite : Binary64 → Bool
  | .finite .. => true
  | _ => false

end Binary64

namespace Json

mutual

def isFinite : Json → Bool
  | .float value => value.isFinite
  | .arr items => itemsFinite items
  | .obj members => membersFinite members
  | _ => true

def itemsFinite : List Json → Bool
  | [] => true
  | item :: rest => isFinite item && itemsFinite rest

def membersFinite : List (String × Json) → Bool
  | [] => true
  | (_, value) :: rest => isFinite value && membersFinite rest

end

end Json

/-! ## Finite values -/

theorem itemsFinite_iff {items : List Json} :
    Json.itemsFinite items = true ↔ ∀ item ∈ items, item.isFinite = true := by
  induction items with
  | nil => simp [Json.itemsFinite]
  | cons item rest ih => simp [Json.itemsFinite, ih]

theorem membersFinite_iff {members : List (String × Json)} :
    Json.membersFinite members = true ↔ ∀ entry ∈ members, entry.2.isFinite = true := by
  induction members with
  | nil => simp [Json.membersFinite]
  | cons entry rest ih =>
      rw [Json.membersFinite, Bool.and_eq_true, ih, List.forall_mem_cons]

variable {scope : Scope}

mutual

theorem literalValue_of_isFinite : ∀ {value : Json}, value.isFinite = true →
    literalValue scope value = .ok (Value.ofJson value)
  | .null, _ | .bool _, _ | .int _, _ | .str _, _ => by simp [literalValue]
  | .float (.finite ..), _ => by simp [literalValue, floatValue, Value.ofJson]
  | .float .nan, h | .float (.infinite _), h => by simp [Json.isFinite, Binary64.isFinite] at h
  | .arr items, h => by
      rw [Json.isFinite] at h
      simp [literalValue, Value.ofJson, literalItems_of_isFinite h, Except.map]
  | .obj members, h => by
      rw [Json.isFinite] at h
      simp [literalValue, Value.ofJson, literalMembers_of_isFinite h, Except.map]

theorem literalItems_of_isFinite : ∀ {items : List Json}, Json.itemsFinite items = true →
    literalItems scope items = .ok (Value.ofItems items)
  | [], _ => by simp [literalItems, Value.ofItems]
  | item :: rest, h => by
      rw [Json.itemsFinite, Bool.and_eq_true] at h
      simp [literalItems, Value.ofItems, literalValue_of_isFinite h.1,
        literalItems_of_isFinite h.2, Except.map]

theorem literalMembers_of_isFinite : ∀ {members : List (String × Json)},
    Json.membersFinite members = true →
      literalMembers scope members = .ok (Value.ofMembers members)
  | [], _ => by simp [literalMembers, Value.ofMembers]
  | (key, value) :: rest, h => by
      rw [Json.membersFinite, Bool.and_eq_true] at h
      simp [literalMembers, Value.ofMembers, literalValue_of_isFinite h.1,
        literalMembers_of_isFinite h.2, Except.map]

end

/-! ## Names in literals -/

section Congruence

variable {other : Scope}

mutual

/-- A literal knows only the words for the numbers without one. -/
theorem literalValue_congr (hinfinity : scope infinityName = other infinityName)
    (hundefined : scope undefinedName = other undefinedName) :
    ∀ value : Json, literalValue scope value = literalValue other value
  | .null | .bool _ | .int _ | .str _ => by simp [literalValue]
  | .float .nan => by simp [literalValue, floatValue, Scope.value, hundefined]
  | .float (.infinite false) | .float (.infinite true) => by
      simp [literalValue, floatValue, Scope.value, hinfinity]
  | .float (.finite ..) => by simp [literalValue, floatValue]
  | .arr items => by
      rw [literalValue, literalValue, literalItems_congr hinfinity hundefined items]
  | .obj members => by
      rw [literalValue, literalValue, literalMembers_congr hinfinity hundefined members]

theorem literalItems_congr (hinfinity : scope infinityName = other infinityName)
    (hundefined : scope undefinedName = other undefinedName) :
    ∀ items : List Json, literalItems scope items = literalItems other items
  | [] => by simp [literalItems]
  | item :: rest => by
      rw [literalItems, literalItems, literalValue_congr hinfinity hundefined item,
        literalItems_congr hinfinity hundefined rest]

theorem literalMembers_congr (hinfinity : scope infinityName = other infinityName)
    (hundefined : scope undefinedName = other undefinedName) :
    ∀ members : List (String × Json), literalMembers scope members = literalMembers other members
  | [] => by simp [literalMembers]
  | (key, item) :: rest => by
      rw [literalMembers, literalMembers, literalValue_congr hinfinity hundefined item,
        literalMembers_congr hinfinity hundefined rest]

end

end Congruence

/-! ## Other values -/

/-- A scope in which no name stands for a number. -/
def Numberless (scope : Scope) : Prop :=
  ∀ name number, scope name ≠ some (.float number)

theorem numberless_noNames : Numberless noNames := by
  intro name number h
  cases h

theorem numberless_classNames (className : String) : Numberless (classNames className) := by
  intro name number h
  unfold classNames at h
  split at h <;> cases h

theorem Scope.value_eq_ok {name : String} {value : Value} :
    scope.value name = .ok value ↔ scope name = some value := by
  unfold Scope.value
  cases scope name <;> simp

/-- A number is stated as it is, or by one of the words for those without a literal. -/
theorem floatValue_eq_ok {number : Binary64} {stated : Value}
    (h : floatValue scope number = .ok stated) :
    number.isFinite = true ∧ stated = .float number ∨
      number.isFinite = false ∧ ∃ name found, (name = infinityName ∨ name = undefinedName) ∧
        scope name = some found ∧ (stated = found ∨ negated found = .ok stated) := by
  cases number with
  | finite negative mantissa exponent => exact .inl ⟨rfl, (Except.ok.inj h).symm⟩
  | nan => exact .inr ⟨rfl, _, stated, .inr rfl, Scope.value_eq_ok.mp h, .inl rfl⟩
  | infinite negative =>
      cases negative with
      | false => exact .inr ⟨rfl, _, stated, .inl rfl, Scope.value_eq_ok.mp h, .inl rfl⟩
      | true =>
          obtain ⟨found, hfound, hnegated⟩ := bind_eq_ok.mp h
          exact .inr ⟨rfl, _, found, .inl rfl, Scope.value_eq_ok.mp hfound, .inr hnegated⟩

theorem floatValue_ne {value number : Binary64} (hscope : Numberless scope)
    (h : value.isFinite = false) : floatValue scope value ≠ .ok (.float number) := by
  intro hvalue
  rcases floatValue_eq_ok hvalue with ⟨hfinite, -⟩ | ⟨-, name, found, -, hfound, hstated⟩
  · rw [hfinite] at h
    cases h
  · rcases hstated with rfl | hnegated
    · exact hscope name number hfound
    · cases found with
      | float other => exact hscope name other hfound
      | _ => cases hnegated

mutual

/-- Where no name stands for a number, only a finite value has a literal that stands for it. -/
theorem isFinite_of_literalValue (hscope : Numberless scope) : ∀ {value : Json},
    literalValue scope value = .ok (Value.ofJson value) → value.isFinite = true
  | .null, _ | .bool _, _ | .int _, _ | .str _, _ => by simp [Json.isFinite]
  | .float number, h => by
      rw [literalValue, Value.ofJson] at h
      rw [Json.isFinite]
      by_contra hfinite
      exact floatValue_ne hscope (by simpa using hfinite) h
  | .arr items, h => by
      rw [literalValue, Value.ofJson] at h
      obtain ⟨values, hvalues, heq⟩ := map_eq_ok.mp h
      cases heq
      rw [Json.isFinite]
      exact itemsFinite_of_literalItems hscope hvalues
  | .obj members, h => by
      rw [literalValue, Value.ofJson] at h
      obtain ⟨values, hvalues, heq⟩ := map_eq_ok.mp h
      cases heq
      rw [Json.isFinite]
      exact membersFinite_of_literalMembers hscope hvalues

theorem itemsFinite_of_literalItems (hscope : Numberless scope) : ∀ {items : List Json},
    literalItems scope items = .ok (Value.ofItems items) → Json.itemsFinite items = true
  | [], _ => by simp [Json.itemsFinite]
  | item :: rest, h => by
      rw [literalItems, Value.ofItems] at h
      split at h
      · cases h
      next value hvalue =>
        obtain ⟨values, hvalues, heq⟩ := map_eq_ok.mp h
        cases heq
        rw [Json.itemsFinite, Bool.and_eq_true]
        exact ⟨isFinite_of_literalValue hscope hvalue, itemsFinite_of_literalItems hscope hvalues⟩

theorem membersFinite_of_literalMembers (hscope : Numberless scope) :
    ∀ {members : List (String × Json)},
      literalMembers scope members = .ok (Value.ofMembers members) →
        Json.membersFinite members = true
  | [], _ => by simp [Json.membersFinite]
  | (key, value) :: rest, h => by
      rw [literalMembers, Value.ofMembers] at h
      split at h
      · cases h
      next found hvalue =>
        obtain ⟨values, hvalues, heq⟩ := map_eq_ok.mp h
        cases heq
        rw [Json.membersFinite, Bool.and_eq_true]
        exact ⟨isFinite_of_literalValue hscope hvalue,
          membersFinite_of_literalMembers hscope hvalues⟩

end

mutual

/-- Where no name is known, a literal that has a value stands for what it was made of. -/
theorem literalValue_noNames : ∀ {value : Json} {found : Value},
    literalValue noNames value = .ok found → found = Value.ofJson value
  | .null, _, h | .bool _, _, h | .int _, _, h | .str _, _, h => by
      simpa [literalValue, eq_comm] using h
  | .float (.finite ..), _, h => by simpa [literalValue, floatValue, Value.ofJson, eq_comm] using h
  | .float .nan, _, h | .float (.infinite false), _, h | .float (.infinite true), _, h => by
      simp [literalValue, floatValue, Scope.value, noNames, bind, Except.bind] at h
  | .arr items, _, h => by
      rw [literalValue] at h
      obtain ⟨values, hvalues, rfl⟩ := map_eq_ok.mp h
      rw [Value.ofJson, literalItems_noNames hvalues]
  | .obj members, _, h => by
      rw [literalValue] at h
      obtain ⟨values, hvalues, rfl⟩ := map_eq_ok.mp h
      rw [Value.ofJson, literalMembers_noNames hvalues]

theorem literalItems_noNames : ∀ {items : List Json} {found : List Value},
    literalItems noNames items = .ok found → found = Value.ofItems items
  | [], _, h => by simpa [literalItems, Value.ofItems, eq_comm] using h
  | item :: rest, _, h => by
      rw [literalItems] at h
      split at h
      · cases h
      next value hvalue =>
        obtain ⟨values, hvalues, rfl⟩ := map_eq_ok.mp h
        rw [Value.ofItems, literalValue_noNames hvalue, literalItems_noNames hvalues]

theorem literalMembers_noNames : ∀ {members : List (String × Json)}
    {found : List (String × Value)},
    literalMembers noNames members = .ok found → found = Value.ofMembers members
  | [], _, h => by simpa [literalMembers, Value.ofMembers, eq_comm] using h
  | (key, value) :: rest, _, h => by
      rw [literalMembers] at h
      split at h
      · cases h
      next item hvalue =>
        obtain ⟨values, hvalues, rfl⟩ := map_eq_ok.mp h
        rw [Value.ofMembers, literalValue_noNames hvalue, literalMembers_noNames hvalues]

end

/-- In the body of a class exactly the finite values have a literal. -/
theorem literalValue_noNames_iff {value : Json} :
    (∃ found, literalValue noNames value = .ok found) ↔ value.isFinite = true := by
  constructor
  · rintro ⟨found, hfound⟩
    rw [literalValue_noNames hfound] at hfound
    exact isFinite_of_literalValue numberless_noNames hfound
  · intro h
    exact ⟨_, literalValue_of_isFinite h⟩

end ModelMint
