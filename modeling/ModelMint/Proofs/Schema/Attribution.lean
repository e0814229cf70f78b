import ModelMint.Proofs.Results
import ModelMint.Schema.Pointer

/-!
# Whose failure it is

What goes wrong inside a definition leaves open which definition it is.  The name is
filled in on the way out, so that an entry of a document fails under its own key.
-/

namespace ModelMint.Schema

/-- A failure that does not say yet which definition it belongs to. -/
def Unassigned (failure : Failure) : Prop := failure.context.definition = none

/-- A failure of the definition with the name. -/
def AssignedTo (name : String) (failure : Failure) : Prop :=
  failure.context.definition = some name

/-- What is wrong with a document, and not with a text that is made or a file. -/
def Cause.OfSchema : Cause → Prop
  | .malformed _ | .unresolved _ _ _ => True
  | _ => False

/-- A failure in the schema that says nothing about where it is. -/
structure Bare (failure : Failure) : Prop where
  context : failure.context = {}
  cause : failure.cause.OfSchema

/-- A failure in the definition with the name. -/
structure PlacedIn (name : String) (failure : Failure) : Prop where
  assigned : AssignedTo name failure
  cause : failure.cause.OfSchema

theorem Unassigned.inContext {failure : Failure} (h : Unassigned failure) {context : Context}
    {name : String} (hcontext : context.definition = some name) :
    AssignedTo name (failure.inContext context) := by
  unfold Unassigned at h
  unfold AssignedTo
  simp only [Failure.inContext, Context.fill, h, known, hcontext]

theorem AssignedTo.inContext {failure : Failure} {name : String} (h : AssignedTo name failure)
    {context : Context} (hcontext : context.definition = some name) :
    AssignedTo name (failure.inContext context) := by
  unfold AssignedTo at h ⊢
  simp only [Failure.inContext, Context.fill, h, known, hcontext]
  split <;> rfl

/-- Of a bare failure nothing but the context is known. -/
theorem Bare.context_inContext {failure : Failure} (h : Bare failure) (context : Context) :
    (failure.inContext context).context = context := by
  simp only [Failure.inContext, h.context, Context.fill, known]

theorem Bare.inContext {failure : Failure} (h : Bare failure) {context : Context} {name : String}
    (hcontext : context.definition = some name) : PlacedIn name (failure.inContext context) :=
  ⟨(congrArg Context.definition (h.context_inContext context)).trans hcontext, h.cause⟩

theorem PlacedIn.inContext {failure : Failure} {name : String} (h : PlacedIn name failure)
    {context : Context} (hcontext : context.definition = some name) :
    PlacedIn name (failure.inContext context) :=
  ⟨h.assigned.inContext hcontext, h.cause⟩

/-! ## References -/

theorem resolve_bare {root : Json} {pointer : String} :
    FailsWith Bare (resolve root pointer) := by
  unfold resolve
  simp only
  split
  · exact failsWith_error ⟨rfl, trivial⟩
  · exact failsWith_error ⟨rfl, trivial⟩
  · split
    · exact failsWith_ok
    · exact failsWith_error ⟨rfl, trivial⟩

/-! ## Properties -/

theorem malformed_bare {α : Type} {what : Malformed} :
    FailsWith Bare (Property.malformed what : Except Failure α) := failsWith_error ⟨rfl, trivial⟩

theorem readReference_bare {value : Json} :
    FailsWith Bare (Property.readReference value) := by
  unfold Property.readReference
  split
  · exact failsWith_ok
  · exact failsWith_ok
  · exact malformed_bare

theorem readDescription_bare {value : Json} :
    FailsWith Bare (Property.readDescription value) := by
  unfold Property.readDescription
  split
  · exact failsWith_ok
  · exact failsWith_ok
  · exact malformed_bare

theorem readNumber_bare {key : String} {value : Json} :
    FailsWith Bare (Property.readNumber key value) := by
  unfold Property.readNumber
  split
  · exact failsWith_ok
  · exact failsWith_ok
  · exact failsWith_ok
  · exact malformed_bare

theorem readType_bare {value : Json} : FailsWith Bare (Property.readType value) := by
  unfold Property.readType
  split
  · exact failsWith_ok
  · exact failsWith_ok
  · split
    · exact failsWith_ok
    · exact malformed_bare
  · exact malformed_bare

theorem readItemsReference_bare {items : Option Json} :
    FailsWith Bare (Property.readItemsReference items) := by
  unfold Property.readItemsReference
  split
  · exact readReference_bare
  · exact failsWith_ok

theorem readEnum_bare {values : Option Json} :
    FailsWith Bare (Property.readEnum values) := by
  unfold Property.readEnum
  split
  · exact failsWith_ok
  · exact failsWith_ok
  · exact malformed_bare

theorem property_bare {name place : String} {schema : Json} :
    FailsWith Bare (Property.read name schema place) := by
  unfold Property.read
  split
  · refine readType_bare.bind fun type _ => ?_
    refine readReference_bare.bind fun ref _ => ?_
    refine readNumber_bare.bind fun minimum _ => ?_
    refine readNumber_bare.bind fun maximum _ => ?_
    refine readNumber_bare.bind fun minItems _ => ?_
    refine readNumber_bare.bind fun maxItems _ => ?_
    refine readDescription_bare.bind fun description _ => ?_
    refine readItemsReference_bare.bind fun itemsRef _ => ?_
    exact readEnum_bare.bind fun enum _ => failsWith_ok
  · exact malformed_bare

/-! ## Definitions -/

theorem readProperty_placed {definition path name : String} {schema : Json} :
    FailsWith (PlacedIn definition) (Document.readProperty definition path name schema) := by
  unfold Document.readProperty
  simp only
  split
  · exact failsWith_ok
  next failure hfailure =>
    exact failsWith_error ((property_bare failure hfailure).inContext rfl)

/-- Only a description that is no text leaves the definition open. -/
theorem readDefinition_placed {name : String} {body : Json} :
    FailsWith (fun failure => Bare failure ∨ PlacedIn name failure)
      (Document.readDefinition name body) := by
  unfold Document.readDefinition
  split
  · split
    · split
      · refine (readDescription_bare.imp fun _ => .inl).bind fun description _ => ?_
        refine FailsWith.bind (failsWith_mapM fun entry _ => ?_) fun properties _ => failsWith_ok
        exact readProperty_placed.imp fun _ => .inr
      · exact failsWith_error (.inr ⟨rfl, trivial⟩)
    · exact failsWith_error (.inr ⟨rfl, trivial⟩)
  · exact failsWith_error (.inr ⟨rfl, trivial⟩)

/-- An entry of a document fails under its own key. -/
theorem readEntry_placed {name : String} {body : Json} :
    FailsWith (PlacedIn name) (Document.readEntry name body) := by
  unfold Document.readEntry
  split
  · exact failsWith_ok
  next failure hfailure =>
    rcases readDefinition_placed failure hfailure with hopen | hplaced
    · exact failsWith_error (hopen.inContext rfl)
    · exact failsWith_error (hplaced.inContext rfl)

end ModelMint.Schema
