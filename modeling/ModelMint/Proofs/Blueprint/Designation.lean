import ModelMint.Proofs.Blueprint.Planning
import ModelMint.Proofs.Schema.Reading

/-!
# What a reference leads to

A reference is followed from the root of the document, key by key, and is accepted if
its last key is the name of a definition.  It leads to that definition if the keys before
are those of the definitions, and to some other value of the document otherwise.
-/

namespace ModelMint.Blueprint

open ModelMint.Schema

variable {schema root width : Json} {document : Document} {definition : Definition} {plan : Plan}
  {property : Property} {pointer name : String} {resolved : Resolved}

/-! ## Following -/

theorem follow_append (value : Json) (first second : List String) :
    Pointer.follow value (first ++ second) =
      Pointer.follow value first >>= fun inner => Pointer.follow inner second := by
  induction first generalizing value with
  | nil => rfl
  | cons key rest ih =>
      simp only [List.cons_append, Pointer.follow]
      split
      next next _ => exact ih next
      · rfl

theorem follow_singleton {value body : Json} {key : String} :
    Pointer.follow value [key] = .ok body ↔ value.get? key = some body := by
  simp only [Pointer.follow]
  split
  next next hnext => rw [hnext]; simp
  next hnone => rw [hnone]; simp

/-! ## Accepted references -/

/-- The reference leads to the body under its name among the definitions, and it is from there
that the definition of that name was read. -/
structure Designates (schema : Json) (document : Document) (pointer : String)
    (resolved : Resolved) : Prop where
  keys : Pointer.keys pointer = ["definitions", resolved.name]
  body : ∃ definitions, schema.get? "definitions" = some (.obj definitions) ∧
    Entries.get? resolved.name definitions = some resolved.body
  entry : Entries.get? resolved.name document.entries =
    some (Document.readEntry resolved.name resolved.body)

theorem resolve_of_targetOf {target : Option String}
    (hreference : property.reference? = some pointer)
    (h : targetOf document property = .ok target) :
    ∃ resolved, resolve document.raw pointer = .ok resolved ∧
      document.defines resolved.name = true := by
  obtain ⟨hnone, -⟩ | ⟨-, resolved, hresolved, hdefined, -⟩ := targetOf_eq_ok h
  · rw [isReference_of_reference? hreference] at hnone
    cases hnone
  · obtain ⟨found, hfound, hresolve⟩ := resolveProperty_eq_ok.mp hresolved
    obtain rfl : pointer = found := Option.some.inj (hreference.symm.trans hfound)
    exact ⟨resolved, hresolve, hdefined⟩

/-- What a reference of an accepted definition leads to is the definition of its name exactly
where the definitions are what the other keys of the reference lead to. -/
theorem reference_designates_iff (hread : Document.read schema = .ok document)
    (hkeys : ∀ definitions, schema.get? "definitions" = some (.obj definitions) →
      (Entries.keys definitions).Nodup)
    (hplan : Plan.ofDefinition document width definition = .ok plan)
    (hproperty : (name, property) ∈ definition.properties)
    (hreference : property.reference? = some pointer) :
    ∃ resolved path, resolve schema pointer = .ok resolved ∧
      Pointer.keys pointer = path ++ [resolved.name] ∧ document.defines resolved.name = true ∧
      (Designates schema document pointer resolved ↔ path = ["definitions"]) := by
  obtain ⟨member, -, hmember⟩ :=
    exists_right_of_mem (Plan.ofDefinition_eq_ok hplan).members hproperty
  obtain ⟨resolved, hresolve, hdefined⟩ :=
    resolve_of_targetOf hreference (Member.ofProperty_eq_ok hmember).target
  rw [(read_eq_ok hread).1] at hresolve
  obtain ⟨path, hpath, hfollow⟩ := resolve_eq_ok hresolve
  refine ⟨resolved, path, hresolve, hpath, hdefined, ?_⟩
  constructor
  · intro hdesignates
    have hsame : path ++ [resolved.name] = ["definitions"] ++ [resolved.name] := by
      rw [← hpath, hdesignates.keys]
      rfl
    exact List.append_cancel_right hsame
  · rintro rfl
    obtain ⟨-, members, definitions, rfl, hdefinitions, -⟩ := read_eq_ok hread
    have hbody : Entries.get? resolved.name definitions = some resolved.body := by
      rw [follow_append] at hfollow
      obtain ⟨inner, hinner, hfollow⟩ := bind_eq_ok.mp hfollow
      rw [follow_singleton, Json.get?, hdefinitions] at hinner
      obtain rfl := Option.some.inj hinner
      exact follow_singleton.mp hfollow
    refine ⟨hpath, ⟨definitions, hdefinitions, hbody⟩, ?_⟩
    obtain ⟨entry, hentry⟩ := exists_entry_of_defines hdefined
    rw [get?_of_mem hread (hkeys definitions hdefinitions) hdefinitions
      (Entries.mem_of_get? hbody)] at hentry ⊢
    split at hentry
    · cases hentry
    next hplain => rw [if_neg hplain]

/-! ## Two prices -/

/-- A definition and another value of the document under the same key. -/
def offerSchema (pointer : String) : Json := .obj [
  ("definitions", .obj [
    ("Pricing", .obj [("properties", .obj [("amount", .obj [("type", .str "number")])])]),
    ("Offer", .obj [("properties", .obj [("price", .obj [("$ref", .str pointer)])])])]),
  ("other", .obj [("Pricing", .obj [("type", .str "string")])])]

def offerDocument (pointer : String) : Document :=
  match Document.read (offerSchema pointer) with
  | .ok document => document
  | .error _ => { raw := .null, entries := [] }

def offerDefinition (pointer : String) : Definition :=
  match Entries.get? "Offer" (offerDocument pointer).entries with
  | some (.ok definition) => definition
  | _ => { name := "Offer" }

def offerPlan (pointer : String) : Plan :=
  match Plan.ofDefinition (offerDocument pointer) (.int 120) (offerDefinition pointer) with
  | .ok plan => plan
  | .error _ => { name := "Offer", path := "" }

def offerPrice (pointer : String) : Property where
  name := "price"
  ref := some pointer
  path := "#/definitions/Offer/properties/price"

/-- The price is accepted and is not that of the definitions. -/
theorem offer_price_from_elsewhere :
    Document.read (offerSchema "#/other/Pricing") = .ok (offerDocument "#/other/Pricing") ∧
      Plan.ofDefinition (offerDocument "#/other/Pricing") (.int 120)
        (offerDefinition "#/other/Pricing") = .ok (offerPlan "#/other/Pricing") ∧
      ("price", offerPrice "#/other/Pricing") ∈ (offerDefinition "#/other/Pricing").properties ∧
      ∃ body, resolve (offerSchema "#/other/Pricing") "#/other/Pricing" = .ok ⟨"Pricing", body⟩ ∧
        ∀ definitions,
          (offerSchema "#/other/Pricing").get? "definitions" = some (.obj definitions) →
          Entries.get? "Pricing" definitions ≠ some body := by
  refine ⟨rfl, rfl, List.mem_singleton_self _, _, rfl, ?_⟩
  rintro definitions ⟨⟩
  decide

theorem reference_designates_iff_pricing :
    ∃ resolved, Designates (offerSchema "#/definitions/Pricing")
      (offerDocument "#/definitions/Pricing") "#/definitions/Pricing" resolved := by
  have hplan : Plan.ofDefinition (offerDocument "#/definitions/Pricing") (.int 120)
      (offerDefinition "#/definitions/Pricing") = .ok (offerPlan "#/definitions/Pricing") := rfl
  have hkeys : ∀ definitions,
      (offerSchema "#/definitions/Pricing").get? "definitions" = some (.obj definitions) →
      (Entries.keys definitions).Nodup := by
    rintro definitions ⟨⟩
    decide
  have hproperty : ("price", offerPrice "#/definitions/Pricing") ∈
      (offerDefinition "#/definitions/Pricing").properties := List.mem_singleton_self _
  obtain ⟨resolved, path, hresolved, hpath, -, hdesignates⟩ :=
    reference_designates_iff rfl hkeys hplan hproperty rfl
  refine ⟨resolved, hdesignates.mpr ?_⟩
  have hpricing : Pointer.keys "#/definitions/Pricing" = ["definitions", "Pricing"] := by decide
  have hsame : ["definitions"] ++ ["Pricing"] = path ++ [resolved.name] := hpricing.symm.trans hpath
  exact (List.append_inj_left' hsame rfl).symm

end ModelMint.Blueprint
