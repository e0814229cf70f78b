import ModelMint.Emit.ClassModule
import ModelMint.Proofs.Blueprint.Planning

/-!
# Types in the documentation

The documentation of a field tells a type where the property declares one.  It is the type
that the field is stored under, and for an array of instances that of its elements as
well.  A reference goes before the declared type here, and after it in the storage, so
the two are one only where references stand in arrays that are declared.
-/

namespace ModelMint.Blueprint

open ModelMint.Schema

variable {root width : Json} {required : List String} {property : Property} {field : Field}
  {storage element : Option String}

/-! ## Types of a property -/

/-- Without a reference only a moment has a type for its elements. -/
theorem elementType_of_no_reference (h : property.isReference = false) :
    elementType root property =
      .ok (if property.isDateTime then some TypeName.moment else none) := by
  unfold elementType referencedType
  rw [h]
  cases property.isDateTime <;> rfl

theorem isSome_elementType (href : property.isReference = true)
    (h : elementType root property = .ok element) : element.isSome = true := by
  unfold elementType at h
  split at h
  · cases h
    rfl
  · rw [referencedType, if_pos href] at h
    obtain ⟨resolved, -, rfl⟩ := map_eq_ok.mp h
    rfl

theorem Field.element_eq_ok (h : Field.ofProperty root width required property = .ok field) :
    elementTypeIf (property.isReference && field.isArray) root property = .ok field.element := by
  unfold Field.ofProperty at h
  obtain ⟨storage, hstorage, h⟩ := bind_eq_ok.mp h
  obtain ⟨pure, hpure, h⟩ := bind_eq_ok.mp h
  obtain ⟨referenced, hreferenced, h⟩ := bind_eq_ok.mp h
  obtain ⟨initial, -, h⟩ := bind_eq_ok.mp h
  obtain ⟨description, -, h⟩ := bind_eq_ok.mp h
  obtain ⟨element, -, h⟩ := bind_eq_ok.mp h
  cases h
  rw [isPureArray_of_storageType hstorage] at hpure
  cases hpure
  exact hreferenced

/-! ## Documented types -/

/-- The type of a list with elements of that type. -/
def listOf (type : String) : String := "list[" ++ type ++ "]"

/-- A field whose documentation tells the type that it is stored under. -/
structure DocumentedAsStored (root : Json) (property : Property) (field : Field) : Prop where
  absent : field.documented = none ↔ property.type = none
  elements : (∃ type, elementType root property = .ok (some type) ∧
    field.documented = some (listOf type)) ↔ isPureArray root property = .ok true
  annotated : isPureArray root property = .ok true →
    ∃ type, elementType root property = .ok (some type) ∧ Emit.annotationOf field = listOf type
  storage : property.type.isSome = true → isPureArray root property = .ok false →
    field.documented = field.storage

theorem annotationOf_of_element {type : String} (hstorage : field.storage = some TypeName.list)
    (helement : field.element = some type) (hinitial : field.initial = .emptyList) :
    Emit.annotationOf field = listOf type := by
  have hnullable : field.nullable = false := by
    simp [Field.nullable, hinitial]
  have htext : Emit.storageText field = some (listOf type) := by
    have hopen : TypeName.list ++ "[" = "list[" := rfl
    simp [Emit.storageText, hstorage, helement, listOf, hopen]
  simp [Emit.annotationOf, htext, hnullable]

theorem documentedType_of_reference {name : String} (htype : property.type = some name)
    (href : property.isReference = true) (type : String) :
    documentedType property storage (some type) = some (listOf type) := by
  simp [documentedType, htype, href, listOf]

theorem documentedType_of_no_reference (href : property.isReference = false) :
    documentedType property storage element = if property.type.isSome then storage else none := by
  cases htype : property.type <;> simp [documentedType, htype, href]

theorem isSome_storageType (htype : property.type.isSome = true)
    (h : storageType root property = .ok storage) : storage.isSome = true := by
  obtain ⟨name, hname⟩ := Option.isSome_iff_exists.mp htype
  unfold storageType at h
  rw [hname] at h
  split at h <;> cases h <;> rfl

theorem documentedAsStored_of_no_reference
    (h : Field.ofProperty root width required property = .ok field)
    (href : property.isReference = false) : DocumentedAsStored root property field := by
  have hplanned := Field.ofProperty_eq_ok h
  have hpure : isPureArray root property = .ok false := by
    rw [isPureArray_of_storageType hplanned.storage, href, Bool.false_and]
  obtain ⟨element, -, hdocumented⟩ := hplanned.documented
  rw [documentedType_of_no_reference href] at hdocumented
  refine ⟨?_, iff_of_false ?_ (by simp [hpure]), by simp [hpure], fun htype _ => by
    rw [hdocumented, if_pos htype]⟩
  · cases htype : property.type with
    | none => simp [hdocumented, htype]
    | some name =>
        have hstorage := isSome_storageType (by simp [htype]) hplanned.storage
        simpa [hdocumented, htype, Option.isSome_iff_ne_none] using hstorage
  · rintro ⟨type, htype, hlist⟩
    rw [elementType_of_no_reference href] at htype
    cases hdate : property.isDateTime with
    | false => simp [hdate] at htype
    | true =>
        obtain rfl : TypeName.moment = type := by simpa [hdate] using htype
        have hstorage : some TypeName.moment = field.storage :=
          Except.ok.inj ((storageType_of_isDateTime hdate).symm.trans hplanned.storage)
        rw [hdocumented, ← hstorage] at hlist
        split at hlist
        · exact absurd hlist (by decide)
        · cases hlist

theorem isPureArray_of_reference
    (h : Field.ofProperty root width required property = .ok field)
    (href : property.isReference = true) : isPureArray root property = .ok field.isArray := by
  rw [isPureArray_of_storageType (Field.ofProperty_eq_ok h).storage, href, Bool.true_and]
  rfl

theorem documentedAsStored_untyped_iff
    (h : Field.ofProperty root width required property = .ok field)
    (href : property.isReference = true) (htype : property.type = none) :
    DocumentedAsStored root property field ↔ field.isArray = false := by
  have hpure := isPureArray_of_reference h href
  obtain ⟨element, -, hdocumented⟩ := (Field.ofProperty_eq_ok h).documented
  have hnone : field.documented = none := by simp [hdocumented, documentedType, htype]
  constructor
  · intro hstored
    by_contra harray
    obtain ⟨_, -, hlist⟩ := hstored.elements.mpr (by simpa [hpure] using harray)
    rw [hnone] at hlist
    cases hlist
  · intro hsingle
    rw [hsingle] at hpure
    exact ⟨by simp [hnone, htype], by simp [hnone, hpure], by simp [hpure], by simp [htype]⟩

theorem documentedAsStored_typed_iff {name : String}
    (h : Field.ofProperty root width required property = .ok field)
    (href : property.isReference = true) (htype : property.type = some name) :
    DocumentedAsStored root property field ↔ field.isArray = true := by
  have hplanned := Field.ofProperty_eq_ok h
  have hpure := isPureArray_of_reference h href
  obtain ⟨element, helement, hdocumented⟩ := hplanned.documented
  rw [htype, href] at helement
  obtain ⟨type, rfl⟩ := Option.isSome_iff_exists.mp (isSome_elementType href helement)
  have hfound : elementType root property = .ok (some type) := helement
  rw [documentedType_of_reference htype href] at hdocumented
  constructor
  · intro hstored
    have harray := hstored.elements.mp ⟨type, hfound, hdocumented⟩
    exact Except.ok.inj (hpure.symm.trans harray)
  · intro harray
    have hgiven := Field.element_eq_ok h
    rw [href, harray] at hgiven
    have hitems : field.element = some type := Except.ok.inj (hgiven.symm.trans hfound)
    rw [harray] at hpure
    refine ⟨by simp [hdocumented, htype], iff_of_true ⟨type, hfound, hdocumented⟩ hpure,
      fun _ => ⟨type, hfound, ?_⟩, by simp [hpure]⟩
    exact annotationOf_of_element (by simpa [Field.isArray] using harray) hitems
      ((initialOf_eq_emptyList hplanned.initial).mpr harray)

/-- The documentation of a field tells the type that it is stored under, unless the property has a
reference: then exactly where it is a list and declares a type. -/
theorem documented_as_stored_iff (h : Field.ofProperty root width required property = .ok field) :
    DocumentedAsStored root property field ↔
      (property.isReference = true → (field.isArray = true ↔ property.type.isSome = true)) := by
  cases href : property.isReference with
  | false => simp [documentedAsStored_of_no_reference h href]
  | true =>
      cases htype : property.type with
      | none => simp [documentedAsStored_untyped_iff h href htype]
      | some name => simp [documentedAsStored_typed_iff h href htype]

/-! ## Prices -/

def pricingRoot : Json := .obj [("definitions", .obj [("Pricing", .obj [])])]

def priceField (property : Property) : Field :=
  match Field.ofProperty pricingRoot (.int 120) [] property with
  | .ok field => field
  | .error _ => { name := "", attr := "" }

def manyPrices : Property where
  name := "price"
  type := some "array"
  itemsRef := some "#/definitions/Pricing"

def onePrice : Property where
  name := "price"
  type := some "string"
  ref := some "#/definitions/Pricing"

theorem documented_as_stored_iff_prices :
    Field.ofProperty pricingRoot (.int 120) [] manyPrices = .ok (priceField manyPrices) ∧
      (priceField manyPrices).documented = some "list[Pricing]" ∧
      DocumentedAsStored pricingRoot manyPrices (priceField manyPrices) := by
  have hfield : Field.ofProperty pricingRoot (.int 120) [] manyPrices =
      .ok (priceField manyPrices) := rfl
  exact ⟨hfield, rfl, (documented_as_stored_iff hfield).mpr fun _ => by decide⟩

/-- A text that refers to a price is documented as a list of prices. -/
theorem price_documented_as_list :
    Property.read "price"
        (.obj [("type", .str "string"), ("$ref", .str "#/definitions/Pricing")]) "" =
          .ok onePrice ∧
      Field.ofProperty pricingRoot (.int 120) [] onePrice = .ok (priceField onePrice) ∧
      isPureArray pricingRoot onePrice = .ok false ∧
      (priceField onePrice).storage = some "str" ∧
      (priceField onePrice).documented = some "list[Pricing]" ∧
      ¬ DocumentedAsStored pricingRoot onePrice (priceField onePrice) := by
  refine ⟨rfl, rfl, rfl, rfl, rfl, fun hstored => ?_⟩
  exact absurd (hstored.storage rfl rfl) (by decide)

end ModelMint.Blueprint
