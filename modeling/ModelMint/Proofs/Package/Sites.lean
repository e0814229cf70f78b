import ModelMint.Proofs.Blueprint.Stopping
import ModelMint.Proofs.Package.Origin
import ModelMint.Proofs.Schema.Sites

/-!
# Where the failures of a run are

Each failure of a run comes from one definition of the schema, at one site of it.  The
failure says which definition that is, and where in it, except for two sites: of a
description only the definition is told, and a property with an empty name that cannot be
read is not named.
-/

namespace ModelMint.Package

open ModelMint.Schema
open ModelMint.Blueprint

variable {settings : Settings} {comment heading schema body : Json} {document : Document}
  {definition : Definition} {name : String} {failure : Failure}

/-! ## Definitions that were read -/

/-- At which site a definition that was read yields no class, and for what cause. -/
inductive Unmade (settings : Settings) (heading : Json) (document : Document)
    (definition : Definition) : Site → Cause → Prop where
  | name (hname : Text.isPlainName definition.name.toList = false) :
      Unmade settings heading document definition (.part "")
        (.malformed (.invalidClassName definition.name))
  | member {before after : List (String × Property)} {key : String} {property : Property}
      {members : List Blueprint.Member} {found : Failure}
      (hname : Text.isPlainName definition.name.toList = true)
      (hdescription : ∃ lines, describe settings.wrapWidth definition.description = .ok lines)
      (hproperties : definition.properties = before ++ (key, property) :: after)
      (hbefore : planMembers document settings.wrapWidth definition [] before = .ok members)
      (hmember : planMember document settings.wrapWidth definition members key property =
        .error (.failure found)) :
      Unmade settings heading document definition (.planning key) found.cause
  | source {module : Emit.ClassModule}
      (hmodule : compose settings heading document definition = .ok module)
      (hvalidate : settings.output.validate.truthy = true)
      (hsource : Source.validate module.text =
        .ok (some { cause := .unwritable .invalidSource })) :
      Unmade settings heading document definition (.part "") (.unwritable .invalidSource)

theorem compose_eq_failure (heading : Json) :
    compose settings heading document definition = .error (.failure failure) ↔
      Plan.ofDefinition document settings.wrapWidth definition = .error (.failure failure) := by
  unfold compose
  rw [bind_eq_error]
  constructor
  · rintro (hplan | ⟨plan, -, h⟩)
    · exact hplan
    · rcases bind_eq_error.mp h with hlines | ⟨lines, -, hmodule⟩
      · cases hfound : headingLines heading <;> simp [Stop.ofFault, hfound] at hlines
      · cases hfound : Emit.ClassModule.ofPlan settings.base lines plan <;>
          simp [Stop.ofFault, hfound] at hmodule
  · exact .inl

theorem validate_eq_some {text : String} {found : Failure}
    (h : Source.validate text = .ok (some found)) :
    found = { cause := .unwritable .invalidSource } := by
  unfold Source.validate at h
  split at h
  · cases h
  · split at h <;> cases h
    rfl

theorem checkSource_eq_failure {source : String} :
    checkSource settings definition source = .error (.failure failure) ↔
      settings.output.validate.truthy = true ∧
        Source.validate source = .ok (some { cause := .unwritable .invalidSource }) ∧
        failure = { cause := .unwritable .invalidSource
                    context := { definition := some definition.name
                                 path := some definition.path } } := by
  unfold checkSource
  cases hvalidate : settings.output.validate.truthy with
  | false => simp
  | true =>
      cases hsource : Source.validate source with
      | error fault => simp
      | ok found =>
          cases found with
          | none => simp
          | some found =>
              obtain rfl := validate_eq_some hsource
              simp [Failure.inContext, Context.fill, known, eq_comm]

/-- The failure of an attempt is a failure of the plan, or the source is not valid. -/
theorem attempt_eq_failure :
    (attempt settings heading document (.ok definition)).module = .error (.failure failure) ↔
      Plan.ofDefinition document settings.wrapWidth definition = .error (.failure failure) ∨
        ∃ module, compose settings heading document definition = .ok module ∧
          checkSource settings definition module.text = .error (.failure failure) := by
  rw [← compose_eq_failure heading]
  unfold attempt
  simp only
  generalize compose settings heading document definition = composed
  cases composed with
  | error stop => simp
  | ok module => simp [map_eq_error]

/-- What is wrong with a member is told with its place. -/
theorem member_context (hread : DefinitionRead name definition) {key : String} {property : Property}
    (hproperty : (key, property) ∈ definition.properties) {width : Json}
    {earlier : List Blueprint.Member}
    (hmember : planMember document width definition earlier key property =
      .error (.failure failure)) :
    failure.context = (Site.planning key).context name := by
  obtain ⟨schema, hmade⟩ := hread.properties _ hproperty
  obtain rfl : property.name = key := (read_property_eq_ok hmade).name
  rw [planMember_context hmember, memberContext, hread.name, path_of_read hmade]
  rfl

/-- A definition that was read and yields no class fails at a site of its own. -/
theorem attempt_read_eq_failure (hread : DefinitionRead name definition) :
    (attempt settings heading document (.ok definition)).module = .error (.failure failure) ↔
      ∃ site, Unmade settings heading document definition site failure.cause ∧
        failure.context = site.context name := by
  have hpart : ({ definition := some definition.name, path := some definition.path } : Context) =
      (Site.part "").context name := by
    rw [hread.name, hread.path]
    simp [Site.context]
  rw [attempt_eq_failure, plan_eq_failure]
  constructor
  · rintro ((⟨hname, rfl⟩ | ⟨hname, hdescription, hmembers⟩) | ⟨module, hmodule, hsource⟩)
    · exact ⟨.part "", .name hname, hpart⟩
    · obtain ⟨before, key, property, after, members, hproperties, hbefore, hmember⟩ :=
        planMembers_eq_error.mp hmembers
      exact ⟨.planning key, .member hname hdescription hproperties hbefore hmember,
        member_context hread (by simp [hproperties]) hmember⟩
    · obtain ⟨hvalidate, hinvalid, rfl⟩ := checkSource_eq_failure.mp hsource
      exact ⟨.part "", .source hmodule hvalidate hinvalid, hpart⟩
  · obtain ⟨cause, context⟩ := failure
    rintro ⟨site, hsite, hcontext⟩
    obtain rfl : context = site.context name := hcontext
    cases hsite with
    | name hname => exact .inl (.inl ⟨hname, by rw [hpart]⟩)
    | member hname hdescription hproperties hbefore hmember =>
        rw [← member_context hread (by simp [hproperties]) hmember]
        exact .inl (.inr ⟨hname, hdescription,
          planMembers_eq_error.mpr ⟨_, _, _, _, _, hproperties, hbefore, hmember⟩⟩)
    | source hmodule hvalidate hinvalid =>
        exact .inr ⟨_, hmodule, checkSource_eq_failure.mpr ⟨hvalidate, hinvalid, by rw [hpart]⟩⟩

/-! ## Definitions of a schema -/

/-- At which site a definition fails, while it is read or after. -/
def FailsAt (settings : Settings) (heading : Json) (document : Document) (name : String)
    (body : Json) (site : Site) (cause : Cause) : Prop :=
  Unread name body site cause ∨ ∃ definition, Document.readEntry name body = .ok definition ∧
    Unmade settings heading document definition site cause

theorem attempt_entry_eq_failure :
    (attempt settings heading document (Document.readEntry name body)).module =
        .error (.failure failure) ↔
      ∃ site, FailsAt settings heading document name body site failure.cause ∧
        failure.context = site.context name := by
  cases hentry : Document.readEntry name body with
  | error found =>
      have hfound : ∀ site cause, ¬∃ definition, Document.readEntry name body = .ok definition ∧
          Unmade settings heading document definition site cause := by
        rintro site cause ⟨definition, hdefinition, -⟩
        rw [hentry] at hdefinition
        cases hdefinition
      have hfailure : (attempt settings heading document (.error found)).module =
          .error (.failure failure) ↔ Document.readEntry name body = .error failure := by
        simp [attempt, hentry]
      rw [hfailure, readEntry_eq_error]
      simp only [FailsAt, hfound, or_false]
  | ok definition =>
      have hread := readDefinition_eq_ok (readEntry_eq_ok.mp hentry)
      have hunread : ∀ site cause, ¬Unread name body site cause := by
        intro site cause hsite
        have herror : Document.readEntry name body =
            .error { cause, context := site.context name } :=
          readEntry_eq_error.mpr ⟨site, hsite, rfl⟩
        rw [hentry] at herror
        cases herror
      rw [attempt_read_eq_failure hread]
      simp [FailsAt, hunread, hentry]

/-- The site and the cause are all that the failure consists of. -/
theorem FailsAt.attempt_eq {site : Site} {cause : Cause}
    (h : FailsAt settings heading document name body site cause) :
    (attempt settings heading document (Document.readEntry name body)).module =
      .error (.failure { cause, context := site.context name }) :=
  attempt_entry_eq_failure.mpr ⟨site, h, rfl⟩

/-- Every failure of a run comes from a definition of the schema and from a site of it, and the
site says what the failure tells of its place.  The definition is always told.  The path is told
unless the failure is about a description, and of a property name and path are told unless it
has an empty name and cannot be read. -/
theorem failures_placed_iff {run : Run} (hrun : generate settings comment schema = .ok run) :
    ∃ document definitions, Document.read schema = .ok document ∧
      schema.get? "definitions" = some (.obj definitions) ∧
      ∀ failure ∈ run.package.failures, ∃ name body, (name, body) ∈ definitions ∧
        Document.isComment name body = false ∧ isIgnored settings.ignored name = .ok false ∧
        failure.context.definition = some name ∧
        (∃ site cause,
          FailsAt settings (headingOf settings comment) document name body site cause) ∧
        ∀ site cause,
          FailsAt settings (headingOf settings comment) document name body site cause →
            failure = { cause, context := site.context name } ∧
            (failure.context.Places name ↔ site ≠ .description) ∧
            ∀ property, site.property? = some property →
              (failure.context.PlacesProperty name property ↔ site ≠ .reading "") := by
  obtain ⟨document, added, hran⟩ := generate_eq_ok hrun
  obtain ⟨-, members, definitions, rfl, hdefinitions, -⟩ := read_eq_ok hran.read
  refine ⟨document, definitions, hran.read, hdefinitions, fun failure hfailure => ?_⟩
  rw [hran.failures] at hfailure
  obtain ⟨out, hout, hfailure⟩ := List.mem_flatMap.mp hfailure
  obtain ⟨name, -, houtcome⟩ := exists_left_of_mem hran.outcomes hout
  obtain ⟨modules, failures⟩ := out
  cases houtcome with
  | passed => cases hfailure
  | made => cases hfailure
  | failed hignored hentry hfailed =>
      rw [List.mem_singleton] at hfailure
      subst hfailure
      obtain ⟨others, body, hothers, hbody, hplain, rfl⟩ := exists_body_of_get? hran.read hentry
      obtain rfl : others = definitions := by simpa using hothers.symm.trans hdefinitions
      obtain ⟨site, hsite, hcontext⟩ := attempt_entry_eq_failure.mp hfailed
      refine ⟨name, body, hbody, hplain, hignored, ?_, ⟨site, _, hsite⟩,
        fun other cause hother => ?_⟩
      · rw [hcontext]
        cases site <;> rfl
      · have hmodule := hother.attempt_eq
        obtain rfl : failure = { cause, context := other.context name } := by
          simpa using hfailed.symm.trans hmodule
        exact ⟨rfl, Site.places_iff, fun property => Site.placesProperty_iff⟩

/-! ## A stay whose nights have no type -/

def stayBody : Json := .obj [("properties", .obj [("nights", .obj [("type", .int 5)])])]

def staySchema : Json := .obj [("definitions", .obj [("Stay", stayBody)])]

def stayRun : Run := runOf {} .null staySchema

theorem failures_placed_iff_stay :
    ∃ failure ∈ stayRun.package.failures, failure.context.PlacesProperty "Stay" "nights" := by
  have hsome : stayRun.package.failures ≠ [] := by decide +kernel
  obtain ⟨failure, hfailure⟩ := List.exists_mem_of_ne_nil _ hsome
  obtain ⟨document, definitions, -, hdefinitions, hplaced⟩ :=
    failures_placed_iff (show generate {} .null staySchema = .ok stayRun from rfl)
  obtain rfl : definitions = [("Stay", stayBody)] := by
    simpa [staySchema, Json.get?, Entries.get?] using hdefinitions.symm
  obtain ⟨name, body, hbody, -, -, -, -, hsites⟩ := hplaced failure hfailure
  obtain ⟨rfl, rfl⟩ : name = "Stay" ∧ body = stayBody := by simpa using hbody
  have hproperties : HasProperties stayBody ([] ++ ("nights", .obj [("type", .int 5)]) :: []) :=
    ⟨rfl, rfl⟩
  have hunread : Unread "Stay" stayBody (.reading "nights") (.malformed (.unsupportedType "5")) :=
    .property hproperties rfl rfl (by simp) rfl
  obtain ⟨-, -, hproperty⟩ := hsites _ _ (.inl hunread)
  exact ⟨failure, hfailure, (hproperty "nights" rfl).mpr (by simp)⟩

/-! ## A description that is no text, and a property without a name -/

def misdescribedSchema : Json :=
  .obj [("definitions", .obj [("Room", .obj [("description", .int 5)])])]

def misdescribedRun : Run := runOf {} .null misdescribedSchema

theorem room_description_not_placed :
    generate {} .null misdescribedSchema = .ok misdescribedRun ∧
      ∃ failure ∈ misdescribedRun.package.failures,
        failure.context = { definition := some "Room" } := by
  refine ⟨rfl, ?_⟩
  decide +kernel

def namelessSchema : Json :=
  .obj [("definitions", .obj [("Room", .obj [("properties", .obj [("", .int 5)])])])]

def namelessRun : Run := runOf {} .null namelessSchema

theorem nameless_property_not_named :
    generate {} .null namelessSchema = .ok namelessRun ∧
      ∃ failure ∈ namelessRun.package.failures, failure.context =
        { definition := some "Room", path := some "#/definitions/Room/properties/" } := by
  refine ⟨rfl, ?_⟩
  decide +kernel

end ModelMint.Package
