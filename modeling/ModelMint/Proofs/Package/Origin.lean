import ModelMint.Package
import ModelMint.Proofs.Blueprint.Planning
import ModelMint.Proofs.Emit.StandardBase
import ModelMint.Proofs.Schema.Reading

/-!
# Where the results of a run come from

A run takes the keys of the definitions in document order.  Each of them adds one
module, one failure or nothing, and a module is composed from the plan of the definition
that it is named after.
-/

namespace ModelMint.Package

open ModelMint.Schema
open ModelMint.Blueprint

variable {settings : Settings} {comment heading schema : Json} {document : Document}

/-! ## One key -/

/-- What a key adds to a run. -/
inductive Outcome (settings : Settings) (heading : Json) (document : Document) (name : String) :
    List Emit.ClassModule → List Failure → Prop where
  | passed (h : isIgnored settings.ignored name = .ok true ∨
      Entries.get? name document.entries = none) : Outcome settings heading document name [] []
  | made {entry : Except Failure Definition} {module : Emit.ClassModule}
      (hignored : isIgnored settings.ignored name = .ok false)
      (hentry : Entries.get? name document.entries = some entry)
      (hmodule : (attempt settings heading document entry).module = .ok module) :
      Outcome settings heading document name [module] []
  | failed {entry : Except Failure Definition} {failure : Failure}
      (hignored : isIgnored settings.ignored name = .ok false)
      (hentry : Entries.get? name document.entries = some entry)
      (hfailure : (attempt settings heading document entry).module = .error (.failure failure)) :
      Outcome settings heading document name [] [failure]

/-- The files with that of one more module. -/
def addFile (files : List (String × String)) (module : Emit.ClassModule) :
    List (String × String) :=
  Entries.insert (fileOf module.name) module.text files

theorem noteFormatter_package (run : Run) : (run.noteFormatter settings).package = run.package := by
  unfold Run.noteFormatter
  split <;> rfl

theorem step_eq_ok {run after : Run} {name : String}
    (h : Run.step settings heading document run name = .ok after) :
    ∃ modules failures, Outcome settings heading document name modules failures ∧
      after.package.modules = run.package.modules ++ modules ∧
      after.package.failures = run.package.failures ++ failures ∧
      after.package.files = modules.foldl addFile run.package.files := by
  unfold Run.step at h
  split at h
  · cases h
  next hignored =>
    cases h
    exact ⟨[], [], .passed (.inl hignored), by simp, by simp, rfl⟩
  next hignored =>
    split at h
    next hentry =>
      cases h
      exact ⟨[], [], .passed (.inr hentry), by simp, by simp, rfl⟩
    next entry hentry =>
      have hpackage : ∀ composed : Bool,
          (if composed then run.noteFormatter settings else run).package = run.package := by
        intro composed
        cases composed with
        | true => exact noteFormatter_package run
        | false => rfl
      unfold Run.define at h
      simp only at h
      split at h
      next module hmodule =>
        cases h
        exact ⟨[module], [], .made hignored hentry hmodule, by simp [Run.addClass, hpackage],
          by simp [Run.addClass, hpackage], by simp [Run.addClass, hpackage, addFile]⟩
      · cases h
      next failure hfailure =>
        split at h
        · cases h
        · cases h
          exact ⟨[], [failure], .failed hignored hentry hfailure,
            by simp [Run.addFailure, hpackage], by simp [Run.addFailure, hpackage],
            by simp [Run.addFailure, hpackage]⟩

/-- A key whose class is composed and accepted adds its module. -/
theorem step_of_attempt {run : Run} {name : String} {entry : Except Failure Definition}
    {module : Emit.ClassModule} (hignored : isIgnored settings.ignored name = .ok false)
    (hentry : Entries.get? name document.entries = some entry)
    (hattempt : attempt settings heading document entry = ⟨true, .ok module⟩) :
    Run.step settings heading document run name =
      .ok ((run.noteFormatter settings).addClass module) := by
  unfold Run.step
  rw [hignored, hentry]
  simp only
  unfold Run.define
  rw [hattempt]
  rfl

/-- A key whose class is composed and refused adds the refusal, where the run does not end for it. -/
theorem step_of_refused {run : Run} {name : String} {entry : Except Failure Definition}
    {failure : Failure} (hignored : isIgnored settings.ignored name = .ok false)
    (hentry : Entries.get? name document.entries = some entry)
    (hattempt : attempt settings heading document entry = ⟨true, .error (.failure failure)⟩)
    (hfailFast : settings.failFast.truthy = false) :
    Run.step settings heading document run name =
      .ok ((run.noteFormatter settings).addFailure name failure) := by
  unfold Run.step
  rw [hignored, hentry]
  simp only
  unfold Run.define
  rw [hattempt]
  simp [hfailFast]

theorem generate_of_step {name : String} {run : Run} (hread : Document.read schema = .ok document)
    (hnames : definitionNames schema = [name])
    (hstep : Run.step settings (if settings.comment.truthy then comment else .null) document {} name =
      .ok run) :
    generate settings comment schema =
      run.finish settings (if settings.comment.truthy then comment else .null) := by
  unfold generate
  rw [hread]
  simp only [hnames]
  rw [List.foldlM_cons, hstep]
  rfl

theorem generate_single {name : String} {entry : Except Failure Definition}
    {module : Emit.ClassModule} (hread : Document.read schema = .ok document)
    (hnames : definitionNames schema = [name])
    (hignored : isIgnored settings.ignored name = .ok false)
    (hentry : Entries.get? name document.entries = some entry)
    (hattempt : attempt settings (if settings.comment.truthy then comment else .null) document entry =
      ⟨true, .ok module⟩) :
    generate settings comment schema =
      ((({} : Run).noteFormatter settings).addClass module).finish settings
        (if settings.comment.truthy then comment else .null) :=
  generate_of_step hread hnames (step_of_attempt hignored hentry hattempt)

/-- What the check of a text says, from the two facts about it that can be computed. -/
theorem validate_of_read {text : String} (valid : Bool)
    (h : (text.toList.contains '\x00', (Source.readModule text.toList).isSome) = (false, valid)) :
    Source.validate text =
      .ok (if valid then none else some { cause := .unwritable .invalidSource }) := by
  obtain ⟨hnull, hvalid⟩ := Prod.mk.inj h
  unfold Source.validate Source.hasNull Source.isValid
  rw [hnull, hvalid]
  cases valid <;> rfl

theorem attempt_of_valid {definition : Definition} {module : Emit.ClassModule}
    (hcompose : compose settings heading document definition = .ok module)
    (hvalid : Source.validate module.text = .ok none) :
    attempt settings heading document (.ok definition) = ⟨true, .ok module⟩ := by
  have hsource : checkSource settings definition module.text = .ok () := by
    unfold checkSource
    rw [hvalid]
    cases settings.output.validate.truthy <;> rfl
  unfold attempt
  simp only [hcompose, hsource]
  rfl

/-- A class that is composed to an invalid text is refused, where texts are checked. -/
theorem attempt_of_invalid {definition : Definition} {module : Emit.ClassModule} {failure : Failure}
    (hcompose : compose settings heading document definition = .ok module)
    (hvalidate : settings.output.validate.truthy = true)
    (hinvalid : Source.validate module.text = .ok (some failure)) :
    attempt settings heading document (.ok definition) = ⟨true, .error (.failure (failure.inContext
      { definition := some definition.name, path := some definition.path }))⟩ := by
  have hsource : checkSource settings definition module.text = .error (.failure (failure.inContext
      { definition := some definition.name, path := some definition.path })) := by
    unfold checkSource
    rw [hvalidate, hinvalid]
    rfl
  unfold attempt
  simp only [hcompose, hsource]
  rfl

/-! ## All keys -/

theorem foldlM_step_eq_ok {run after : Run} {names : List String}
    (h : names.foldlM (Run.step settings heading document) run = .ok after) :
    ∃ added : List (List Emit.ClassModule × List Failure),
      List.Forall₂ (fun name out => Outcome settings heading document name out.1 out.2)
        names added ∧
      after.package.modules = run.package.modules ++ added.flatMap Prod.fst ∧
      after.package.failures = run.package.failures ++ added.flatMap Prod.snd ∧
      after.package.files = (added.flatMap Prod.fst).foldl addFile run.package.files := by
  induction names generalizing run with
  | nil =>
      cases h
      exact ⟨[], .nil, by simp, by simp, rfl⟩
  | cons name rest ih =>
      rw [List.foldlM_cons] at h
      obtain ⟨middle, hstep, hrest⟩ := bind_eq_ok.mp h
      obtain ⟨modules, failures, houtcome, hmodules, hfailures, hfiles⟩ := step_eq_ok hstep
      obtain ⟨added, hadded, hmoduleRest, hfailureRest, hfileRest⟩ := ih hrest
      refine ⟨(modules, failures) :: added, .cons houtcome hadded, ?_, ?_, ?_⟩
      · simp [hmoduleRest, hmodules]
      · simp [hfailureRest, hfailures]
      · simp [hfileRest, hfiles]

/-- The comment as far as the settings ask for one. -/
def headingOf (settings : Settings) (comment : Json) : Json :=
  if settings.comment.truthy then comment else .null

theorem finish_eq_ok {run after : Run} (h : run.finish settings heading = .ok after) :
    after.package.modules = run.package.modules ∧
      after.package.failures = run.package.failures ∧
      (settings.packageFile.truthy = false → after.package.files = run.package.files) ∧
      (settings.packageFile.truthy = true → ∃ lines, headingLines heading = .ok lines ∧
        after.package.files = Entries.insert packageFile
          (Emit.packageText lines run.package.classes) run.package.files) := by
  unfold Run.finish at h
  cases hfile : settings.packageFile.truthy with
  | false =>
      rw [hfile] at h
      cases h
      simp
  | true =>
      rw [hfile] at h
      simp only [Bool.not_true, Bool.false_eq_true, if_false] at h
      split at h
      · cases h
      next lines hlines =>
        cases h
        refine ⟨by simp [noteFormatter_package], by simp [noteFormatter_package], by simp, ?_⟩
        exact fun _ => ⟨lines, hlines, by simp [noteFormatter_package]⟩

/-- What a run consists of: the document that it read and what each key of it added. -/
structure Ran (settings : Settings) (comment schema : Json) (run : Run) (document : Document)
    (added : List (List Emit.ClassModule × List Failure)) : Prop where
  read : Document.read schema = .ok document
  outcomes : List.Forall₂ (fun name out =>
      Outcome settings (headingOf settings comment) document name out.1 out.2)
    (definitionNames schema) added
  modules : run.package.modules = added.flatMap Prod.fst
  failures : run.package.failures = added.flatMap Prod.snd
  files : settings.packageFile.truthy = false →
    run.package.files = run.package.modules.foldl addFile []
  filesOfPackage : settings.packageFile.truthy = true →
    ∃ lines, headingLines (headingOf settings comment) = .ok lines ∧
      run.package.files = Entries.insert packageFile
        (Emit.packageText lines run.package.classes) (run.package.modules.foldl addFile [])

theorem generate_eq_ok {run : Run} (h : generate settings comment schema = .ok run) :
    ∃ document added, Ran settings comment schema run document added := by
  unfold generate at h
  split at h
  · cases h
  next document hdocument =>
    obtain ⟨middle, hmiddle, hfinish⟩ := bind_eq_ok.mp h
    obtain ⟨added, hadded, hmodules, hfailures, hfiles⟩ := foldlM_step_eq_ok hmiddle
    obtain ⟨hmodules', hfailures', hplain, hpackage⟩ := finish_eq_ok hfinish
    have hsame : middle.package.modules = added.flatMap Prod.fst := by simpa using hmodules
    have hfold : middle.package.files = run.package.modules.foldl addFile [] := by
      rw [hmodules', hsame]
      simpa using hfiles
    refine ⟨document, added, hdocument, hadded, by rw [hmodules', hsame],
      by rw [hfailures', hfailures]; simp, fun hfile => by rw [hplain hfile, hfold],
      fun hfile => ?_⟩
    obtain ⟨lines, hlines, hpackaged⟩ := hpackage hfile
    refine ⟨lines, hlines, ?_⟩
    rw [hpackaged, hfold, classes, classes, hmodules']

/-- The run for some settings, where it ends. -/
def runOf (settings : Settings) (comment schema : Json) : Run :=
  match generate settings comment schema with
  | .ok run => run
  | .error _ => {}

/-- Settings that let every text through. -/
def uncheckedSettings : Settings := { output := { validate := .bool false } }

/-! ## Modules -/

/-- What a module of a run is made of: a definition of the document, and its plan. -/
structure Origin (settings : Settings) (comment schema : Json) (document : Document)
    (definition : Definition) (plan : Plan) (module : Emit.ClassModule) : Prop where
  read : Document.read schema = .ok document
  entry : Entries.get? definition.name document.entries = some (.ok definition)
  planned : Plan.ofDefinition document settings.wrapWidth definition = .ok plan
  composed : ∃ lines, headingLines (headingOf settings comment) = .ok lines ∧
    Emit.ClassModule.ofPlan settings.base lines plan = .ok module
  valid : checkSource settings definition module.text = .ok ()

theorem attempt_eq_ok {entry : Except Failure Definition} {module : Emit.ClassModule}
    (h : (attempt settings heading document entry).module = .ok module) :
    ∃ definition, entry = .ok definition ∧
      compose settings heading document definition = .ok module ∧
      checkSource settings definition module.text = .ok () := by
  unfold attempt at h
  split at h
  · cases h
  next definition =>
    split at h
    · cases h
    next composed hcomposed =>
      obtain ⟨_, hvalid, rfl⟩ := map_eq_ok.mp h
      exact ⟨definition, rfl, hcomposed, hvalid⟩

theorem validate_of_checkSource {definition : Definition} {source : String}
    (hvalidate : settings.output.validate.truthy = true)
    (h : checkSource settings definition source = .ok ()) : Source.validate source = .ok none := by
  unfold checkSource at h
  rw [hvalidate] at h
  simp only [Bool.not_true, Bool.false_eq_true, if_false] at h
  split at h
  · cases h
  next hfound => exact hfound
  · cases h

theorem compose_eq_ok {definition : Definition} {module : Emit.ClassModule}
    (h : compose settings heading document definition = .ok module) :
    ∃ plan lines, Plan.ofDefinition document settings.wrapWidth definition = .ok plan ∧
      headingLines heading = .ok lines ∧
      Emit.ClassModule.ofPlan settings.base lines plan = .ok module := by
  unfold compose at h
  obtain ⟨plan, hplan, h⟩ := bind_eq_ok.mp h
  obtain ⟨lines, hlines, h⟩ := bind_eq_ok.mp h
  exact ⟨plan, lines, hplan, Stop.ofFault_eq_ok.mp hlines, Stop.ofFault_eq_ok.mp h⟩

theorem Outcome.origin {name : String} {modules : List Emit.ClassModule} {failures : List Failure}
    (hread : Document.read schema = .ok document)
    (h : Outcome settings (headingOf settings comment) document name modules failures)
    {module : Emit.ClassModule} (hmodule : module ∈ modules) :
    ∃ definition plan, definition.name = name ∧
      Origin settings comment schema document definition plan module := by
  cases h with
  | passed => cases hmodule
  | failed => cases hmodule
  | made hignored hentry hattempt =>
      obtain rfl := List.mem_singleton.mp hmodule
      obtain ⟨definition, rfl, hcompose, hvalid⟩ := attempt_eq_ok hattempt
      obtain ⟨-, body, -, -, -, hbody⟩ := exists_body_of_get? hread hentry
      have hname := (readDefinition_eq_ok (readEntry_eq_ok.mp hbody.symm)).name
      obtain ⟨plan, lines, hplan, hlines, hofPlan⟩ := compose_eq_ok hcompose
      exact ⟨definition, plan, hname, hread, by rw [hname]; exact hentry, hplan,
        ⟨lines, hlines, hofPlan⟩, hvalid⟩

theorem Ran.exists_origin {run : Run} {added : List (List Emit.ClassModule × List Failure)}
    (h : Ran settings comment schema run document added) {module : Emit.ClassModule}
    (hmodule : module ∈ run.package.modules) :
    ∃ definition plan, Origin settings comment schema document definition plan module := by
  rw [h.modules] at hmodule
  obtain ⟨out, hout, hmodule⟩ := List.mem_flatMap.mp hmodule
  obtain ⟨name, -, houtcome⟩ := exists_left_of_mem h.outcomes hout
  obtain ⟨definition, plan, -, horigin⟩ := houtcome.origin h.read hmodule
  exact ⟨definition, plan, horigin⟩

theorem exists_origin {run : Run} (hrun : generate settings comment schema = .ok run)
    {module : Emit.ClassModule} (hmodule : module ∈ run.package.modules) :
    ∃ document definition plan, Origin settings comment schema document definition plan module := by
  obtain ⟨document, added, hran⟩ := generate_eq_ok hrun
  obtain ⟨definition, plan, horigin⟩ := hran.exists_origin hmodule
  exact ⟨document, definition, plan, horigin⟩

variable {definition : Definition} {plan : Plan} {module : Emit.ClassModule}

theorem Origin.planned_members (h : Origin settings comment schema document definition plan module) :
    Planned document settings.wrapWidth definition plan := Plan.ofDefinition_eq_ok h.planned

/-- The properties of a definition of the document were read from theirs. -/
theorem Origin.property_read
    (h : Origin settings comment schema document definition plan module)
    {entry : String × Property} (hentry : entry ∈ definition.properties) :
    PropertyRead entry.1 entry.2 := by
  obtain ⟨-, body, -, -, -, hbody⟩ := exists_body_of_get? h.read h.entry
  have hread := readDefinition_eq_ok (readEntry_eq_ok.mp hbody.symm)
  obtain ⟨schema, hproperty⟩ := hread.properties entry hentry
  exact read_property_eq_ok hproperty

theorem Origin.standard (h : Origin settings comment schema document definition plan module)
    (hbase : settings.base = {}) : ∃ lines, module = Emit.standardModule lines plan := by
  obtain ⟨lines, -, hofPlan⟩ := h.composed
  rw [hbase, Emit.ofPlan_standard] at hofPlan
  exact ⟨lines, (Except.ok.inj hofPlan).symm⟩

end ModelMint.Package
