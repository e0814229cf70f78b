import ModelMint.Proofs.Results
import ModelMint.Schema.Document
import ModelMint.Schema.Pointer

/-!
# What is read from a document

Reading a document backwards: the entries come from the members of its definitions, and
the properties of a definition from its own.
-/

namespace ModelMint.Schema

variable {schema : Json} {document : Document}

/-! ## Documents -/

theorem read_eq_ok (h : Document.read schema = .ok document) :
    document.raw = schema ∧ ∃ members definitions, schema = .obj members ∧
      Entries.get? "definitions" members = some (.obj definitions) ∧
      document.entries = definitions.filterMap fun (name, body) =>
        if Document.isComment name body then none
        else some (name, Document.readEntry name body) := by
  unfold Document.read at h
  split at h
  next members =>
    split at h
    next definitions hdefinitions =>
      cases h
      exact ⟨rfl, members, definitions, rfl, hdefinitions, rfl⟩
    · cases h
  · cases h

theorem exists_read {definitions : List (String × Json)}
    (hdefinitions : schema.get? "definitions" = some (.obj definitions)) :
    ∃ document, Document.read schema = .ok document := by
  cases schema with
  | obj members =>
      rw [Json.get?] at hdefinitions
      unfold Document.read
      simp only [hdefinitions]
      exact ⟨_, rfl⟩
  | _ => cases hdefinitions

/-- An entry was read from the body of its definition, which is no comment. -/
theorem exists_body_of_get? {name : String} {entry : Except Failure Definition}
    (h : Document.read schema = .ok document)
    (hentry : Entries.get? name document.entries = some entry) :
    ∃ definitions body, schema.get? "definitions" = some (.obj definitions) ∧
      (name, body) ∈ definitions ∧ Document.isComment name body = false ∧
      entry = Document.readEntry name body := by
  obtain ⟨-, members, definitions, rfl, hdefinitions, hentries⟩ := read_eq_ok h
  refine ⟨definitions, ?_⟩
  have hbody : ∃ body, (name, body) ∈ definitions ∧ Document.isComment name body = false ∧
      entry = Document.readEntry name body := by
    rw [hentries] at hentry
    clear hdefinitions hentries h
    induction definitions with
    | nil => cases hentry
    | cons first rest ih =>
        obtain ⟨other, body⟩ := first
        -- the entry is that of the first body, or it is found behind it
        have hlater : Entries.get? name (rest.filterMap fun (name, body) =>
            if Document.isComment name body then none
            else some (name, Document.readEntry name body)) = some entry →
            ∃ found, (name, found) ∈ (other, body) :: rest ∧
              Document.isComment name found = false ∧
              entry = Document.readEntry name found := by
          intro hrest
          obtain ⟨found, hfound, hplain, hread⟩ := ih hrest
          exact ⟨found, List.mem_cons_of_mem _ hfound, hplain, hread⟩
        rw [List.filterMap_cons] at hentry
        simp only at hentry
        split at hentry
        · exact hlater hentry
        next hsome =>
          split at hsome
          · cases hsome
          next hplain =>
            cases hsome
            rw [Entries.get?] at hentry
            split at hentry
            next hname =>
              subst hname
              exact ⟨body, List.mem_cons_self, by simpa using hplain,
                (Option.some.inj hentry).symm⟩
            · exact hlater hentry
  obtain ⟨body, hmem, hplain, hread⟩ := hbody
  exact ⟨body, hdefinitions, hmem, hplain, hread⟩

/-- With each key once, the entry under a key is what its body was read as. -/
theorem get?_of_mem (h : Document.read schema = .ok document)
    {definitions : List (String × Json)} (hkeys : (Entries.keys definitions).Nodup)
    (hdefinitions : schema.get? "definitions" = some (.obj definitions)) {name : String}
    {body : Json} (hmem : (name, body) ∈ definitions) :
    Entries.get? name document.entries =
      if Document.isComment name body then none else some (Document.readEntry name body) := by
  obtain ⟨-, members, found, rfl, hfound, hentries⟩ := read_eq_ok h
  obtain rfl : definitions = found := by
    simpa using hdefinitions.symm.trans hfound
  have hunique : ∀ other, (name, other) ∈ definitions → other = body := by
    intro other hother
    have hpair := List.inj_on_of_nodup_map hkeys hother hmem rfl
    exact (Prod.mk.inj hpair).2
  cases hentry : Entries.get? name document.entries with
  | some entry =>
      obtain ⟨others, other, hothers, hbody, hplain, rfl⟩ := exists_body_of_get? h hentry
      obtain rfl : others = definitions := by
        simpa using hothers.symm.trans hdefinitions
      obtain rfl := hunique other hbody
      rw [hplain]
      rfl
  | none =>
      split
      · rfl
      next hplain =>
        rw [Entries.get?_eq_none_iff, hentries] at hentry
        refine absurd ?_ hentry
        refine List.mem_map.mpr ⟨(name, Document.readEntry name body), ?_, rfl⟩
        exact List.mem_filterMap.mpr ⟨(name, body), hmem, by simp [hplain]⟩

theorem exists_entry_of_defines {name : String} (h : document.defines name = true) :
    ∃ entry, Entries.get? name document.entries = some entry := by
  cases hentry : Entries.get? name document.entries with
  | some entry => exact ⟨entry, rfl⟩
  | none =>
      rw [Entries.get?_eq_none_iff] at hentry
      obtain ⟨⟨other, entry⟩, hmem, hsame⟩ := List.any_eq_true.mp h
      obtain rfl : other = name := by
        simp only [Bool.and_eq_true, beq_iff_eq] at hsame
        exact hsame.1
      exact absurd (List.mem_map.mpr ⟨_, hmem, rfl⟩) hentry

/-! ## Definitions -/

theorem readEntry_eq_ok {name : String} {body : Json} {definition : Definition} :
    Document.readEntry name body = .ok definition ↔
      Document.readDefinition name body = .ok definition := by
  unfold Document.readEntry
  cases Document.readDefinition name body <;> simp

def definitionPath (name : String) : String := "#/definitions/" ++ name

def propertyPath (name property : String) : String :=
  definitionPath name ++ "/properties/" ++ property

/-- What reading ensures of a definition: it is named after its key, and each of its properties
was read under its own. -/
structure DefinitionRead (key : String) (definition : Definition) : Prop where
  name : definition.name = key
  path : definition.path = definitionPath key
  properties : ∀ entry ∈ definition.properties,
    ∃ schema, Property.read entry.1 schema (propertyPath key entry.1) = .ok entry.2

theorem readDefinition_eq_ok {name : String} {body : Json} {definition : Definition}
    (h : Document.readDefinition name body = .ok definition) : DefinitionRead name definition := by
  unfold Document.readDefinition at h
  split at h
  · split at h
    · split at h
      · obtain ⟨description, -, h⟩ := bind_eq_ok.mp h
        obtain ⟨read, hread, h⟩ := bind_eq_ok.mp h
        cases h
        refine ⟨rfl, rfl, fun entry hentry => ?_⟩
        obtain ⟨⟨key, schema⟩, -, hproperty⟩ := exists_left_of_mem (mapM_eq_ok.mp hread) hentry
        unfold Document.readProperty at hproperty
        simp only at hproperty
        split at hproperty
        next property hproperty' =>
          cases hproperty
          exact ⟨schema, hproperty'⟩
        · cases hproperty
      · cases h
    · cases h
  · cases h

/-! ## Properties -/

/-- A bound that is a number, if there is one. -/
def Numeric (bound : Option Json) : Prop :=
  ∀ value, bound = some value → (∃ number, value = .int number) ∨ ∃ number, value = .float number

theorem readNumber_numeric {key : String} {value : Json} {bound : Option Json}
    (h : Property.readNumber key value = .ok bound) : Numeric bound := by
  intro found hfound
  subst hfound
  unfold Property.readNumber at h
  split at h <;> cases h
  · exact .inl ⟨_, rfl⟩
  · exact .inr ⟨_, rfl⟩

/-- What reading ensures of a property. -/
structure PropertyRead (name : String) (property : Property) : Prop where
  name : property.name = name
  minimum : Numeric property.minimum
  maximum : Numeric property.maximum
  minItems : Numeric property.minItems
  maxItems : Numeric property.maxItems

theorem read_property_eq_ok {name place : String} {schema : Json} {property : Property}
    (h : Property.read name schema place = .ok property) : PropertyRead name property := by
  unfold Property.read at h
  split at h
  · obtain ⟨type, -, h⟩ := bind_eq_ok.mp h
    obtain ⟨ref, -, h⟩ := bind_eq_ok.mp h
    obtain ⟨minimum, hminimum, h⟩ := bind_eq_ok.mp h
    obtain ⟨maximum, hmaximum, h⟩ := bind_eq_ok.mp h
    obtain ⟨minItems, hminItems, h⟩ := bind_eq_ok.mp h
    obtain ⟨maxItems, hmaxItems, h⟩ := bind_eq_ok.mp h
    obtain ⟨description, -, h⟩ := bind_eq_ok.mp h
    obtain ⟨itemsRef, -, h⟩ := bind_eq_ok.mp h
    obtain ⟨enum, -, h⟩ := bind_eq_ok.mp h
    cases h
    exact ⟨rfl, readNumber_numeric hminimum, readNumber_numeric hmaximum,
      readNumber_numeric hminItems, readNumber_numeric hmaxItems⟩
  · cases h

theorem path_of_read {name place : String} {schema : Json} {property : Property}
    (h : Property.read name schema place = .ok property) : property.path = place := by
  unfold Property.read at h
  split at h
  · simp only [bind_eq_ok] at h
    obtain ⟨_, -, _, -, _, -, _, -, _, -, _, -, _, -, _, -, _, -, h⟩ := h
    cases h
    rfl
  · cases h

/-! ## References -/

/-- A resolved reference has the name of its last key and the value that all keys lead to. -/
theorem resolve_eq_ok {root : Json} {pointer : String} {resolved : Resolved}
    (h : resolve root pointer = .ok resolved) :
    ∃ path, Pointer.keys pointer = path ++ [resolved.name] ∧
      Pointer.follow root (path ++ [resolved.name]) = .ok resolved.body := by
  unfold resolve at h
  simp only at h
  split at h
  · cases h
  · cases h
  next name _ hlast =>
    obtain ⟨path, hpath⟩ := List.getLast?_eq_some_iff.mp hlast
    split at h
    next body hbody =>
      cases h
      exact ⟨path, hpath, hpath ▸ hbody⟩
    · cases h

end ModelMint.Schema
