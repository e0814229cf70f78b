import ModelMint.Proofs.Schema.Attribution
import ModelMint.Proofs.Schema.Rewriting

/-!
# What a failure is about

A definition that cannot be read has something wrong with one of its parts, with its
description or with one of its properties.  Which of them it is decides what the failure
says about its place.
-/

namespace ModelMint.Schema

/-! ## Sites -/

/-- What a failure of a definition is about. -/
inductive Site where
  /-- The definition itself, or what is under one of its keywords. -/
  | part (suffix : String)
  | description
  /-- A property that is being read. -/
  | reading (property : String)
  /-- A property that was read. -/
  | planning (property : String)

namespace Site

def property? : Site → Option String
  | reading property | planning property => some property
  | _ => none

/-- What a failure at the site says about its place. -/
def context (name : String) : Site → Context
  | part suffix => { definition := some name, path := some (definitionPath name ++ suffix) }
  | description => { definition := some name }
  | reading property => {
      definition := some name
      property := if property.isEmpty then none else some property
      path := some (propertyPath name property) }
  | planning property => {
      definition := some name
      property := some property
      path := some (propertyPath name property) }

end Site

/-- The path leads to the definition with the name, or into it. -/
def Context.Places (name : String) (context : Context) : Prop :=
  context.definition = some name ∧ ∃ suffix, context.path = some (definitionPath name ++ suffix)

/-- Nothing is missing about the property of a definition. -/
def Context.PlacesProperty (name property : String) (context : Context) : Prop :=
  context = { definition := some name
              property := some property
              path := some (propertyPath name property) }

/-- Only a description is not placed. -/
theorem Site.places_iff {name : String} {site : Site} :
    (site.context name).Places name ↔ site ≠ .description := by
  unfold Context.Places
  cases site with
  | description => simp [Site.context]
  | part suffix => simp [Site.context]
  | reading property => simp [Site.context, propertyPath, String.append_assoc]
  | planning property => simp [Site.context, propertyPath, String.append_assoc]

/-- Only a property with an empty name is not named, and only while it is read. -/
theorem Site.placesProperty_iff {name property : String} {site : Site}
    (h : site.property? = some property) :
    (site.context name).PlacesProperty name property ↔ site ≠ .reading "" := by
  unfold Context.PlacesProperty
  cases site with
  | part suffix => cases h
  | description => cases h
  | reading read =>
      obtain rfl := Option.some.inj h
      by_cases hempty : read = ""
      · simp [Site.context, hempty]
      · simp [Site.context, hempty, String.isEmpty_iff]
  | planning planned =>
      obtain rfl := Option.some.inj h
      simp [Site.context]

/-! ## Definitions that cannot be read -/

/-- An object whose properties are the members of an object. -/
structure HasProperties (body : Json) (properties : List (String × Json)) : Prop where
  object : body.isObject = true
  properties : (body.get? "properties").getD (.obj []) = .obj properties

/-- At which site a definition cannot be read, and for what cause. -/
inductive Unread (name : String) (body : Json) : Site → Cause → Prop where
  | body (hbody : body.isObject = false) :
      Unread name body (.part "") (.malformed .definitionNotObject)
  | properties (hbody : body.isObject = true)
      (hproperties : ∀ properties, (body.get? "properties").getD (.obj []) ≠ .obj properties) :
      Unread name body (.part "/properties") (.malformed .propertiesNotObject)
  | required {properties : List (String × Json)} (hproperties : HasProperties body properties)
      (hrequired : Document.readRequired (body.get? "required") = none) :
      Unread name body (.part "/required") (.malformed .requiredNotNames)
  | description {properties : List (String × Json)} {required : List String} {cause : Cause}
      (hproperties : HasProperties body properties)
      (hrequired : Document.readRequired (body.get? "required") = some required)
      (hdescription : Property.readDescription ((body.get? "description").getD .null) =
        .error { cause }) :
      Unread name body .description cause
  | property {before after : List (String × Json)} {key : String} {schema : Json}
      {required : List String} {description : Option String} {cause : Cause}
      (hproperties : HasProperties body (before ++ (key, schema) :: after))
      (hrequired : Document.readRequired (body.get? "required") = some required)
      (hdescription : Property.readDescription ((body.get? "description").getD .null) =
        .ok description)
      (hbefore : ∀ other ∈ before, ∃ property,
        Property.read other.1 other.2 (propertyPath name other.1) = .ok property)
      (hproperty : Property.read key schema (propertyPath name key) = .error { cause }) :
      Unread name body (.reading key) cause

variable {name key : String} {schema body : Json} {failure : Failure}

theorem readProperty_eq_ok {property : String × Property} :
    Document.readProperty name (definitionPath name) key schema = .ok property ↔
      Property.read key schema (propertyPath name key) = .ok property.2 ∧ property.1 = key := by
  unfold Document.readProperty propertyPath
  simp only
  cases Property.read key schema (definitionPath name ++ "/properties/" ++ key) with
  | ok read => simp [Prod.ext_iff, eq_comm, and_comm]
  | error found => simp

theorem readProperty_eq_error :
    Document.readProperty name (definitionPath name) key schema = .error failure ↔
      Property.read key schema (propertyPath name key) = .error { cause := failure.cause } ∧
        (failure.context).PlacesProperty name key := by
  have hbare := @property_bare key (propertyPath name key) schema
  obtain ⟨cause, context⟩ := failure
  unfold Document.readProperty Context.PlacesProperty
  simp only
  rw [show definitionPath name ++ "/properties/" ++ key = propertyPath name key from rfl]
  cases hread : Property.read key schema (propertyPath name key) with
  | ok read => simp
  | error found =>
      obtain ⟨found, place⟩ := found
      obtain rfl : place = {} := (hbare _ hread).context
      simp [Failure.inContext, Context.fill, known, eq_comm]

/-- What is said about the place of a site before the definition is filled in. -/
def Site.raised (name : String) : Site → Context
  | .description => {}
  | .part suffix => { definition := some name, path := some (definitionPath name ++ suffix) }
  | .reading property | .planning property => {
      definition := some name
      property := some property
      path := some (propertyPath name property) }

theorem exists_unread (h : Document.readDefinition name body = .error failure) :
    ∃ site, Unread name body site failure.cause ∧ failure.context = site.raised name := by
  rw [Document.readDefinition_eq] at h
  split at h
  next hbody =>
    unfold Document.ofKeywords at h
    split at h
    next properties hproperties =>
      have hobject : HasProperties body properties := ⟨hbody, hproperties⟩
      split at h
      next required hrequired =>
        obtain hdescription | ⟨description, hdescription, h⟩ := bind_eq_error.mp h
        · have hbare := readDescription_bare failure hdescription
          obtain ⟨cause, context⟩ := failure
          obtain rfl : context = {} := hbare.context
          exact ⟨.description, .description hobject hrequired hdescription, rfl⟩
        · obtain hread | ⟨read, -, hpure⟩ := bind_eq_error.mp h
          · obtain ⟨before, ⟨key, schema⟩, after, rfl, hbefore, hitem⟩ := mapM_eq_error.mp hread
            obtain ⟨hproperty, hplaces⟩ := readProperty_eq_error.mp hitem
            refine ⟨.reading key, .property hobject hrequired hdescription ?_ hproperty, hplaces⟩
            intro other hother
            obtain ⟨property, hread⟩ := hbefore other hother
            exact ⟨property.2, (readProperty_eq_ok.mp hread).1⟩
          · cases hpure
      next hrequired =>
        cases h
        exact ⟨.part "/required", .required hobject hrequired, rfl⟩
    next hproperties =>
      cases h
      exact ⟨.part "/properties", .properties hbody hproperties, rfl⟩
  next hbody =>
    cases h
    exact ⟨.part "", .body (by simpa using hbody), rfl⟩

theorem Unread.readDefinition {site : Site} {cause : Cause} (h : Unread name body site cause) :
    Document.readDefinition name body = .error { cause, context := site.raised name } := by
  rw [Document.readDefinition_eq]
  cases h with
  | body hbody =>
      rw [hbody]
      rfl
  | properties hbody hproperties =>
      rw [if_pos hbody, Document.ofKeywords]
      split
      next properties hfound => exact absurd hfound (hproperties properties)
      · rfl
  | required hproperties hrequired =>
      rw [if_pos hproperties.object, Document.ofKeywords, hproperties.properties]
      simp only [hrequired]
      rfl
  | description hproperties hrequired hdescription =>
      rw [if_pos hproperties.object, Document.ofKeywords, hproperties.properties]
      simp only [hrequired]
      exact bind_eq_error.mpr (.inl hdescription)
  | property hproperties hrequired hdescription hbefore hproperty =>
      rw [if_pos hproperties.object, Document.ofKeywords, hproperties.properties]
      simp only [hrequired]
      refine bind_eq_error.mpr (.inr ⟨_, hdescription, bind_eq_error.mpr (.inl ?_)⟩)
      refine mapM_eq_error.mpr ⟨_, _, _, rfl, fun other hother => ?_,
        readProperty_eq_error.mpr ⟨hproperty, rfl⟩⟩
      obtain ⟨property, hread⟩ := hbefore other hother
      exact ⟨(other.1, property), readProperty_eq_ok.mpr ⟨hread, rfl⟩⟩

/-- Filling in the definition keeps what is known, but for the name of a property if it is empty. -/
theorem Unread.fill_raised {site : Site} {cause : Cause} (h : Unread name body site cause) :
    (site.raised name).fill { definition := some name } = site.context name := by
  have hpath : definitionPath name ≠ "" := by simp [definitionPath]
  cases h <;> simp [Site.raised, Site.context, Context.fill, known, propertyPath, hpath]

/-- A definition that cannot be read fails at a site of its own. -/
theorem readEntry_eq_error :
    Document.readEntry name body = .error failure ↔
      ∃ site, Unread name body site failure.cause ∧ failure.context = site.context name := by
  unfold Document.readEntry
  constructor
  · intro h
    split at h
    · cases h
    next found hfound =>
      cases h
      obtain ⟨site, hsite, hraised⟩ := exists_unread hfound
      refine ⟨site, hsite, ?_⟩
      rw [← hsite.fill_raised, ← hraised]
      rfl
  · rintro ⟨site, hsite, hcontext⟩
    obtain ⟨cause, context⟩ := failure
    obtain rfl : context = site.context name := hcontext
    rw [hsite.readDefinition, ← hsite.fill_raised]
    rfl

end ModelMint.Schema
