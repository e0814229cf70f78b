import ModelMint.Proofs.Blueprint.Planning
import ModelMint.Proofs.Blueprint.Wrapping
import ModelMint.Proofs.Schema.Attribution

/-!
# Why planning stops

A failure that stops a plan names the definition, and with a width that has room there is
no fault.  What goes wrong further in says at most which property it is about, and the rest
is filled in where the member is planned.
-/

namespace ModelMint.Blueprint

open ModelMint.Schema

variable {α : Type} {P : Failure → Prop} {faults : Prop}

/-! ## Stops -/

/-- A stop for a failure as described, or for a fault where there may be faults. -/
def Stop.Found (faults : Prop) (P : Failure → Prop) : Stop → Prop
  | .failure found => P found
  | .fault _ => faults

theorem Stop.Found.imp {Q : Failure → Prop} {stop : Stop} (h : Stop.Found faults P stop)
    (himp : ∀ failure, P failure → Q failure) : Stop.Found faults Q stop := by
  cases stop with
  | failure failure => exact himp failure h
  | fault fault => exact h

theorem found_ofFailure {result : Except Failure α} (h : FailsWith P result) :
    FailsWith (Stop.Found faults P) (Stop.ofFailure result) := by
  cases result with
  | ok value => exact failsWith_ok
  | error failure => exact failsWith_error (h failure rfl)

theorem found_ofFault {result : Except Fault α} (h : faults ∨ ∃ value, result = .ok value) :
    FailsWith (Stop.Found faults P) (Stop.ofFault result) := by
  rcases h with hfaults | ⟨value, rfl⟩
  · cases result with
    | ok value => exact failsWith_ok
    | error fault => exact failsWith_error hfaults
  · exact failsWith_ok

/-! ## Failures of a property -/

/-- A failure in the schema that says at most which property it is about. -/
structure Raised (property : Property) (failure : Failure) : Prop where
  context : failure.context = {} ∨
    failure.context = { property := some property.name, path := some property.path }
  cause : failure.cause.OfSchema

theorem raised_malformed (property : Property) (what : Malformed) :
    Raised property { cause := .malformed what } := ⟨.inl rfl, trivial⟩

/-- Where a member is, once it is filled in. -/
def memberContext (definition : String) (property : Property) : Context where
  definition := some definition
  property := some property.name
  path := some property.path

/-- What is filled in is all that is known then. -/
theorem Raised.context_inContext {property : Property} {failure : Failure}
    (h : Raised property failure) (definition : String) :
    (failure.inContext (memberContext definition property)).context =
      memberContext definition property := by
  rcases h.context with hcontext | hcontext <;>
    simp only [Failure.inContext, hcontext, Context.fill, known, memberContext, ite_self]

theorem Raised.inContext {property : Property} {failure : Failure} (h : Raised property failure)
    {context : Context} {name : String} (hcontext : context.definition = some name) :
    PlacedIn name (failure.inContext context) := by
  refine ⟨Unassigned.inContext ?_ hcontext, h.cause⟩
  rcases h.context with hfound | hfound <;> simp only [Unassigned, hfound]

/-! ## Types -/

variable {document : Document} {root : Json} {property : Property}

theorem reference?_of_isReference (h : property.isReference = true) :
    ∃ pointer, property.reference? = some pointer := by
  unfold Property.isReference at h
  unfold Property.reference?
  cases href : property.ref with
  | some pointer => exact ⟨pointer, rfl⟩
  | none =>
      rw [href] at h
      exact Option.isSome_iff_exists.mp h

theorem resolveProperty_stops (h : property.isReference = true) :
    FailsWith (Stop.Found faults (Raised property)) (resolveProperty root property) := by
  obtain ⟨pointer, hpointer⟩ := reference?_of_isReference h
  unfold resolveProperty
  rw [hpointer]
  simp only
  split
  · exact failsWith_ok
  next failure hresolve =>
    have hbare := resolve_bare failure hresolve
    exact failsWith_error ⟨.inr (hbare.context_inContext _), hbare.cause⟩

theorem referencedType_stops :
    FailsWith (Stop.Found faults (Raised property)) (referencedType root property) := by
  unfold referencedType
  split
  next href => exact (resolveProperty_stops href).map
  · exact failsWith_ok

theorem storageType_stops :
    FailsWith (Stop.Found faults (Raised property)) (storageType root property) := by
  unfold storageType
  split
  · exact failsWith_ok
  · split
    · exact failsWith_ok
    · exact referencedType_stops

theorem elementType_stops :
    FailsWith (Stop.Found faults (Raised property)) (elementType root property) := by
  unfold elementType
  split
  · exact failsWith_ok
  · exact referencedType_stops

theorem elementTypeIf_stops {wanted : Bool} :
    FailsWith (Stop.Found faults (Raised property)) (elementTypeIf wanted root property) := by
  cases wanted with
  | true => exact elementType_stops
  | false => exact failsWith_ok

theorem isPureArray_stops :
    FailsWith (Stop.Found faults (Raised property)) (isPureArray root property) := by
  unfold isPureArray
  split
  · exact storageType_stops.map
  · exact failsWith_ok

/-! ## Fields -/

/-- A whole width that leaves room for a character. -/
def HasRoom (width : Json) : Prop := ∃ size : Int, width = .int size ∧ 1 ≤ size

variable {width : Json}

theorem describe_eq_ok (h : HasRoom width) (description : Option String) :
    ∃ lines, describe width description = .ok lines := by
  obtain ⟨size, rfl, hsize⟩ := h
  cases description with
  | none => exact ⟨[], rfl⟩
  | some text => exact ⟨_, wrapText_of_pos hsize text⟩

theorem checkDefault_raised {value : Json} : FailsWith (Raised property) (checkDefault value) := by
  unfold checkDefault
  split
  · exact failsWith_ok
  · split
    · exact failsWith_ok
    · exact failsWith_error (raised_malformed _ _)
  · exact failsWith_error (raised_malformed _ _)

theorem initialOf_raised {required : List String} {isArray : Bool} :
    FailsWith (Raised property) (initialOf property required isArray) := by
  unfold initialOf
  split
  · exact failsWith_ok
  · split
    · exact failsWith_ok
    · split
      · exact failsWith_ok
      · cases property.isDateTime with
        | false => exact failsWith_ok
        | true => exact checkDefault_raised.bind fun _ _ => failsWith_ok

theorem field_stops (hwidth : faults ∨ HasRoom width) {required : List String} :
    FailsWith (Stop.Found faults (Raised property)) (Field.ofProperty root width required property) := by
  unfold Field.ofProperty
  refine storageType_stops.bind fun storage _ => ?_
  refine isPureArray_stops.bind fun pure _ => ?_
  refine elementTypeIf_stops.bind fun referenced _ => ?_
  refine (found_ofFailure initialOf_raised).bind fun initial _ => ?_
  refine (found_ofFault (hwidth.imp_right fun hroom => describe_eq_ok hroom _)).bind
    fun description _ => ?_
  exact elementTypeIf_stops.bind fun element _ => failsWith_ok

/-! ## Members -/

theorem rulesOf_stops : FailsWith (Stop.Found faults (Raised property)) (rulesOf root property) := by
  have helements : FailsWith (Stop.Found faults (Raised property)) (elementRules root property) := by
    unfold elementRules
    refine isPureArray_stops.bind fun pure _ => ?_
    cases pure with
    | true => exact elementType_stops.bind fun element _ => failsWith_ok
    | false => exact failsWith_ok
  unfold rulesOf
  refine storageType_stops.bind fun storage _ => ?_
  exact helements.bind fun elements _ => failsWith_ok

theorem targetOf_stops : FailsWith (Stop.Found faults (Raised property)) (targetOf document property) := by
  unfold targetOf
  split
  next href =>
    refine (resolveProperty_stops href).bind fun resolved _ => ?_
    split
    · exact failsWith_ok
    · exact failsWith_error ⟨.inr rfl, trivial⟩
  · exact failsWith_ok

theorem member_stops (hwidth : faults ∨ HasRoom width) {required : List String} :
    FailsWith (Stop.Found faults (Raised property))
      (Member.ofProperty document width required property) := by
  unfold Member.ofProperty
  refine targetOf_stops.bind fun target _ => ?_
  refine (field_stops hwidth).bind fun field _ => ?_
  exact rulesOf_stops.bind fun rules _ => failsWith_ok

theorem checkConflicts_stops {earlier : List Member} {member : Member} :
    FailsWith (Stop.Found faults (Raised property)) (checkConflicts earlier member) := by
  unfold checkConflicts
  split
  · exact failsWith_error (raised_malformed _ _)
  · exact failsWith_ok

/-! ## Plans -/

variable {definition : Definition}

theorem joined_stops (hwidth : faults ∨ HasRoom width) {required : List String}
    {earlier : List Member} :
    FailsWith (Stop.Found faults (Raised property)) (do
      let member ← Member.ofProperty document width required property
      checkConflicts earlier member
      .ok member) :=
  (member_stops hwidth).bind fun _ _ => checkConflicts_stops.bind fun _ _ => failsWith_ok

theorem planMember_stops (hwidth : faults ∨ HasRoom width) {earlier : List Member} {name : String} :
    FailsWith (Stop.Found faults (PlacedIn definition.name))
      (planMember document width definition earlier name property) := by
  intro stop hstop
  obtain ⟨inner, hinner, rfl⟩ := mapError_eq_error.mp hstop
  have hfound := joined_stops hwidth inner hinner
  cases inner with
  | failure failure => exact Raised.inContext hfound rfl
  | fault fault => exact hfound

/-- A member fails where it is. -/
theorem planMember_context {earlier : List Member} {failure : Failure}
    (h : planMember document width definition earlier property.name property =
      .error (.failure failure)) :
    failure.context = memberContext definition.name property := by
  obtain ⟨inner, hinner, hfailure⟩ := mapError_eq_error.mp h
  have hraised := joined_stops (.inl trivial) inner hinner
  cases inner with
  | failure found =>
      cases hfailure
      exact Raised.context_inContext hraised definition.name
  | fault found => cases hfailure

theorem planMembers_stops (hwidth : faults ∨ HasRoom width) {earlier : List Member}
    {properties : List (String × Property)} :
    FailsWith (Stop.Found faults (PlacedIn definition.name))
      (planMembers document width definition earlier properties) := by
  induction properties generalizing earlier with
  | nil => exact failsWith_ok
  | cons entry rest ih =>
      obtain ⟨name, property⟩ := entry
      exact (planMember_stops hwidth).bind fun member _ => ih

/-- It is one of the members that stops them, and those before it are planned. -/
theorem planMembers_eq_error {earlier : List Member} {properties : List (String × Property)}
    {stop : Stop} :
    planMembers document width definition earlier properties = .error stop ↔
      ∃ before name property after members, properties = before ++ (name, property) :: after ∧
        planMembers document width definition earlier before = .ok members ∧
        planMember document width definition members name property = .error stop := by
  -- on the properties, for any members that are planned already
  induction properties generalizing earlier with
  | nil => simp [planMembers]
  | cons entry rest ih =>
      obtain ⟨name, property⟩ := entry
      rw [planMembers, bind_eq_error]
      constructor
      · rintro (hfirst | ⟨member, hmember, hrest⟩)
        · exact ⟨[], name, property, rest, earlier, rfl, rfl, hfirst⟩
        · obtain ⟨before, name', property', after, members, rfl, hbefore, hstop⟩ := ih.mp hrest
          exact ⟨(name, property) :: before, name', property', after, members, rfl,
            bind_eq_ok.mpr ⟨member, hmember, hbefore⟩, hstop⟩
      · rintro ⟨before, name', property', after, members, hproperties, hbefore, hstop⟩
        cases before with
        | nil =>
            cases hproperties
            cases hbefore
            exact .inl hstop
        | cons other before =>
            cases hproperties
            obtain ⟨member, hmember, hbefore⟩ := bind_eq_ok.mp hbefore
            exact .inr ⟨member, hmember, ih.mpr ⟨before, name', property', after, members, rfl,
              hbefore, hstop⟩⟩

/-- A plan fails for the name of the class, or for one of the members. -/
theorem plan_eq_failure {failure : Failure} :
    Plan.ofDefinition document width definition = .error (.failure failure) ↔
      Text.isPlainName definition.name.toList = false ∧ failure =
          { cause := .malformed (.invalidClassName definition.name)
            context := { definition := some definition.name, path := some definition.path } } ∨
        Text.isPlainName definition.name.toList = true ∧
          (∃ lines, describe width definition.description = .ok lines) ∧
          planMembers document width definition [] definition.properties =
            .error (.failure failure) := by
  unfold Plan.ofDefinition
  cases Text.isPlainName definition.name.toList with
  | false => simp [bind, Except.bind, eq_comm]
  | true =>
      simp only [Bool.not_true, Bool.false_eq_true, if_false]
      cases hdescription : describe width definition.description with
      | error fault => simp [Stop.ofFault, bind, Except.bind]
      | ok lines =>
          cases hmembers : planMembers document width definition [] definition.properties <;>
            simp [Stop.ofFault, bind, Except.bind]

theorem plan_stops (hwidth : faults ∨ HasRoom width) :
    FailsWith (Stop.Found faults (PlacedIn definition.name))
      (Plan.ofDefinition document width definition) := by
  unfold Plan.ofDefinition
  cases hplain : Text.isPlainName definition.name.toList with
  | false => exact failsWith_error ⟨rfl, trivial⟩
  | true =>
      refine (found_ofFault (hwidth.imp_right fun hroom => describe_eq_ok hroom _)).bind
        fun description _ => ?_
      exact (planMembers_stops hwidth).bind fun members _ => failsWith_ok

end ModelMint.Blueprint
