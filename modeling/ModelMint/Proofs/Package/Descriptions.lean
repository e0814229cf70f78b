import ModelMint.Proofs.Emit.Described
import ModelMint.Proofs.Package.Origin

/-!
# Descriptions document and do no more

Runs over schemas that differ in what their descriptions say, with whatever widths the
descriptions are wrapped to, go side by side: the same classes and the same failures, and
modules that differ in lines of description only.
-/

namespace ModelMint.Package

open ModelMint.Schema
open ModelMint.Blueprint
open ModelMint.Emit (Unbroken)

variable {settings : Settings} {comment heading schema other width : Json} {document next : Document}

/-! ## Modules side by side -/

/-- The module is the base with the lines that the descriptions of its definition are wrapped to. -/
def DescribedBy (width schema : Json) (base module : Emit.ClassModule) : Prop :=
  ∃ document definition lines comments, Document.read schema = .ok document ∧
    Entries.get? module.name document.entries = some (.ok definition) ∧
    describe width definition.description = .ok lines ∧
    List.Forall₂ (fun entry comment => describe width entry.2.description = .ok comment)
      definition.properties comments ∧
    module = base.described lines comments

/-- Two modules that are the same without lines of description. -/
def SameBase (width room schema other : Json) (module second : Emit.ClassModule) : Prop :=
  ∃ base, DescribedBy width schema base module ∧ DescribedBy room other base second

/-- Two runs that report the same and whose modules are related one by one. -/
structure RunsAlike (related : Emit.ClassModule → Emit.ClassModule → Prop) (run second : Run) :
    Prop where
  notices : run.notices = second.notices
  failures : run.package.failures = second.package.failures
  modules : List.Forall₂ related run.package.modules second.package.modules
  files : List.Forall₂ (fun file other => file.1 = other.1 ∧ (file.2 = other.2 ∨
    ∃ module twin, related module twin ∧ file.2 = module.text ∧ other.2 = twin.text))
      run.package.files second.package.files

/-! ## One definition -/

section Definitions

variable {definition second : Definition} (hwidth : HasRoom settings.wrapWidth) (hroom : HasRoom width)
  (hread : Document.read schema = .ok document) (hnext : Document.read other = .ok next)
  (halike : Alike document next)

theorem describedBy_ofPlan (hread : Document.read schema = .ok document) {plan : Plan}
    (hplan : Plan.ofDefinition document width definition = .ok plan)
    (hentry : Entries.get? definition.name document.entries = some (.ok definition))
    {lines : List String} {base : Emit.ClassModule} {names : BaseNames}
    (hbase : Emit.ClassModule.ofPlan names lines plan.undescribed = .ok base) :
    DescribedBy width schema base
      (base.described plan.description (plan.fields.map Field.description)) := by
  have hplanned := Plan.ofDefinition_eq_ok hplan
  have hname : base.name = definition.name :=
    (Emit.ClassModule.ofPlan_eq_ok hbase).name.trans hplanned.name
  refine ⟨document, definition, _, _, hread, ?_, hplanned.description, ?_, rfl⟩
  · rw [← hentry, ← hname]
    rfl
  · rw [Plan.fields, List.map_map, List.forall₂_map_right_iff]
    exact hplanned.members.imp fun entry member hmember =>
      Field.description_eq_ok (Member.field_eq_ok hmember)

include hwidth hroom hread hnext halike in
theorem compose_alongside (hsame : definition.silent = second.silent)
    (hentry : Entries.get? definition.name document.entries = some (.ok definition))
    (hother : Entries.get? second.name next.entries = some (.ok second)) :
    Alongside (SameBase settings.wrapWidth width schema other)
      (compose settings heading document definition)
      (compose { settings with wrapWidth := width } heading next second) := by
  have hplans := plan_undescribed hwidth hroom halike hsame
  unfold compose
  cases hplan : Plan.ofDefinition document settings.wrapWidth definition with
  | error stop =>
      rw [hplan] at hplans
      rw [map_eq_error.mp hplans.symm]
      exact .error stop
  | ok plan =>
      rw [hplan] at hplans
      obtain ⟨twin, htwin, hundescribed⟩ := map_eq_ok.mp hplans.symm
      rw [htwin]
      change Alongside _ (Stop.ofFault (headingLines heading) >>= fun lines =>
        Stop.ofFault (Emit.ClassModule.ofPlan settings.base lines plan))
        (Stop.ofFault (headingLines heading) >>= fun lines =>
          Stop.ofFault (Emit.ClassModule.ofPlan settings.base lines twin))
      cases headingLines heading with
      | error fault => exact .error _
      | ok lines =>
          change Alongside _ (Stop.ofFault (Emit.ClassModule.ofPlan settings.base lines plan))
            (Stop.ofFault (Emit.ClassModule.ofPlan settings.base lines twin))
          rw [Emit.ofPlan_described plan, Emit.ofPlan_described twin, hundescribed]
          cases hbase : Emit.ClassModule.ofPlan settings.base lines plan.undescribed with
          | error fault => exact .error _
          | ok base =>
              exact .ok ⟨base, describedBy_ofPlan hread hplan hentry hbase,
                describedBy_ofPlan hnext htwin hother (hundescribed ▸ hbase)⟩

theorem checkSource_of_unchecked (hvalidate : settings.output.validate.truthy = false)
    (source : String) : checkSource settings definition source = .ok () := by
  unfold checkSource
  rw [hvalidate]
  rfl

/-- As far as it gets over one schema an attempt gets over the other. -/
structure AttemptsAlike (related : Emit.ClassModule → Emit.ClassModule → Prop)
    (attempt second : Attempt) : Prop where
  composed : attempt.composed = second.composed
  module : Alongside related attempt.module second.module

include hwidth hroom hread hnext halike in
theorem attempt_alike (hvalidate : settings.output.validate.truthy = false) {name : String}
    {entry twin : Except Failure Definition}
    (hentry : Entries.get? name document.entries = some entry)
    (htwin : Entries.get? name next.entries = some twin)
    (hsame : entry.map Definition.silent = twin.map Definition.silent) :
    AttemptsAlike (SameBase settings.wrapWidth width schema other)
      (attempt settings heading document entry)
      (attempt { settings with wrapWidth := width } heading next twin) := by
  cases entry with
  | error failure =>
      rw [map_eq_error.mp hsame.symm]
      exact ⟨rfl, .error _⟩
  | ok definition =>
      obtain ⟨second, rfl, hsilent⟩ := map_eq_ok.mp hsame.symm
      obtain ⟨-, body, -, -, -, hbody⟩ := exists_body_of_get? hread hentry
      have hname := (readDefinition_eq_ok (readEntry_eq_ok.mp hbody.symm)).name
      obtain ⟨-, body, -, -, -, hbody⟩ := exists_body_of_get? hnext htwin
      have hother := (readDefinition_eq_ok (readEntry_eq_ok.mp hbody.symm)).name
      have hcompose : Alongside _ (compose settings heading document definition) _ :=
        compose_alongside hwidth hroom hread hnext halike hsilent.symm (hname ▸ hentry)
          (hother ▸ htwin)
      unfold attempt
      revert hcompose
      simp only
      generalize compose { settings with wrapWidth := width } heading next second = result
      cases compose settings heading document definition with
      | error stop =>
          intro hcompose
          cases hcompose
          exact ⟨rfl, .error stop⟩
      | ok module =>
          intro hcompose
          cases hcompose with
          | ok hrelated =>
              have hunchecked : ({ settings with wrapWidth := width } : Settings).output.validate.truthy =
                  false := hvalidate
              simp only [checkSource_of_unchecked hvalidate, checkSource_of_unchecked hunchecked]
              exact ⟨rfl, .ok hrelated⟩

end Definitions

/-! ## Runs -/

section Runs

variable {related : Emit.ClassModule → Emit.ClassModule → Prop} {run second : Run}

theorem RunsAlike.noteFormatter (h : RunsAlike related run second) :
    RunsAlike related (run.noteFormatter settings)
      (second.noteFormatter { settings with wrapWidth := width }) := by
  unfold Run.noteFormatter
  rw [h.notices]
  split
  · exact ⟨rfl, h.failures, h.modules, h.files⟩
  · exact h

theorem forall₂_insert {β γ : Type} {R : String × β → String × γ → Prop} {key : String} {value : β}
    {other : γ} {entries : List (String × β)} {others : List (String × γ)}
    (hkeys : ∀ entry other, R entry other → entry.1 = other.1) (hvalue : R (key, value) (key, other))
    (h : List.Forall₂ R entries others) :
    List.Forall₂ R (Entries.insert key value entries) (Entries.insert key other others) := by
  induction h with
  | nil => exact .cons hvalue .nil
  | @cons entry second rest others hfirst hrest ih =>
      obtain ⟨first, old⟩ := entry
      obtain ⟨name, found⟩ := second
      obtain rfl : first = name := hkeys _ _ hfirst
      rw [Entries.insert, Entries.insert]
      split
      next hkey =>
        subst hkey
        exact .cons hvalue hrest
      · exact .cons hfirst ih

theorem RunsAlike.addClass {module twin : Emit.ClassModule} (h : RunsAlike related run second)
    (hmodule : related module twin) (hname : module.name = twin.name) :
    RunsAlike related (run.addClass module) (second.addClass twin) where
  notices := h.notices
  failures := h.failures
  modules := List.rel_append h.modules (.cons hmodule .nil)
  files := by
    unfold Run.addClass
    rw [hname]
    exact forall₂_insert (fun _ _ hfile => hfile.1)
      ⟨rfl, .inr ⟨module, twin, hmodule, rfl, rfl⟩⟩ h.files

theorem RunsAlike.addFailure (h : RunsAlike related run second) (name : String) (failure : Failure) :
    RunsAlike related (run.addFailure name failure) (second.addFailure name failure) :=
  ⟨by simp [Run.addFailure, h.notices], by simp [Run.addFailure, h.failures], h.modules, h.files⟩

theorem RunsAlike.halt (h : RunsAlike related run second) (stop : Stop) :
    Alongside (RunsAlike related) (run.halt stop) (second.halt stop) := by
  unfold Run.halt
  rw [h.notices]
  exact .error _

theorem RunsAlike.classes (h : RunsAlike related run second)
    (hnames : ∀ module twin, related module twin → module.name = twin.name) :
    run.package.classes = second.package.classes := by
  unfold Package.classes
  rw [← List.forall₂_eq_eq_eq, List.forall₂_map_left_iff, List.forall₂_map_right_iff]
  exact h.modules.imp hnames

theorem RunsAlike.finish (h : RunsAlike related run second)
    (hnames : ∀ module twin, related module twin → module.name = twin.name) :
    Alongside (RunsAlike related) (run.finish settings heading)
      (second.finish { settings with wrapWidth := width } heading) := by
  unfold Run.finish
  split
  · exact .ok h
  · split
    · exact h.halt _
    next lines hlines =>
      have hnoted : RunsAlike related (run.noteFormatter settings)
          (second.noteFormatter { settings with wrapWidth := width }) := h.noteFormatter
      refine .ok ⟨hnoted.notices, hnoted.failures, hnoted.modules, ?_⟩
      have hclasses := hnoted.classes hnames
      exact forall₂_insert (fun _ _ hfile => hfile.1) ⟨rfl, .inl (by rw [hclasses])⟩ hnoted.files

theorem RunsAlike.define (h : RunsAlike related run second) {name : String}
    (hnames : ∀ module twin, related module twin → module.name = twin.name)
    {entry twin : Except Failure Definition}
    (hattempt : AttemptsAlike related (attempt settings heading document entry)
      (attempt { settings with wrapWidth := width } heading next twin)) :
    Alongside (RunsAlike related) (run.define settings heading document name entry)
      (second.define { settings with wrapWidth := width } heading next name twin) := by
  unfold Run.define
  simp only
  rw [← hattempt.composed]
  have hnoted : RunsAlike related
      (if (attempt settings heading document entry).composed then run.noteFormatter settings
        else run)
      (if (attempt settings heading document entry).composed then
        second.noteFormatter { settings with wrapWidth := width } else second) := by
    split
    · exact h.noteFormatter
    · exact h
  have hmodule := hattempt.module
  revert hmodule
  generalize (attempt { settings with wrapWidth := width } heading next twin).module = result
  cases (attempt settings heading document entry).module with
  | ok module =>
      intro hmodule
      cases hmodule with
      | ok hrelated => exact .ok (hnoted.addClass hrelated (hnames _ _ hrelated))
  | error stop =>
      intro hmodule
      cases hmodule
      cases stop with
      | fault fault => exact hnoted.halt _
      | failure failure =>
          simp only
          split
          · exact hnoted.halt _
          · exact .ok (hnoted.addFailure name failure)

/-- Where its attempts are alike, a key takes runs side by side. -/
theorem RunsAlike.step (h : RunsAlike related run second) {name : String}
    (hnames : ∀ module twin, related module twin → module.name = twin.name)
    (hentries : (Entries.get? name document.entries = none ∧ Entries.get? name next.entries = none) ∨
      ∃ entry twin, Entries.get? name document.entries = some entry ∧
        Entries.get? name next.entries = some twin ∧
          AttemptsAlike related (attempt settings heading document entry)
            (attempt { settings with wrapWidth := width } heading next twin)) :
    Alongside (RunsAlike related) (run.step settings heading document name)
      (second.step { settings with wrapWidth := width } heading next name) := by
  unfold Run.step
  simp only
  cases isIgnored settings.ignored name with
  | error fault => exact h.halt _
  | ok ignored =>
      cases ignored with
      | true => exact .ok h
      | false =>
          rcases hentries with ⟨hnone, hother⟩ | ⟨entry, twin, hentry, htwin, hattempt⟩
          · rw [hnone, hother]
            exact .ok h
          · rw [hentry, htwin]
            exact h.define hnames hattempt

end Runs

/-! ## Texts of descriptions -/

/-- Lines that stay what they are where they are written: each on its line, within the
documentation up to its end, and read back from it. -/
structure StaysText (lines : List String) : Prop where
  unbroken : ∀ line ∈ lines, Unbroken line.toList
  scanned : ∀ rest, Source.scanBlock '"' (Emit.indentedLines (lines.map Emit.escapeLine) ++ rest) =
    (Source.scanBlock '"' rest).map fun (body, rest) =>
      (Emit.indentedLines (lines.map Emit.escapeLine) ++ body, rest)
  decoded : Emit.Yields (Emit.indentedLines (lines.map Emit.escapeLine)) (Emit.indentedLines lines)
  documented : ∀ (base : Emit.ClassModule) comments, ∃ rest,
    (Emit.unlines (base.described lines comments).documentationLines).toList =
      "    \"\"\"\n".toList ++ Emit.indentedLines (lines.map Emit.escapeLine) ++ rest

theorem staysText_describe {description : Option String} {lines : List String}
    (h : describe width description = .ok lines) : StaysText lines where
  unbroken := unbroken_describe h
  scanned := Emit.scanBlock_indentedLines fun line hline => (unbroken_describe h line hline).2
  decoded := Emit.yields_indentedLines lines
  documented base comments := Emit.toList_documentationLines base lines comments

theorem definitionNames_mapDefinitions (f : Json → Json) (schema : Json) :
    definitionNames (mapDefinitions f schema) = definitionNames schema := by
  unfold definitionNames
  rw [mapDefinitions, Json.get?_mapAt_self]
  cases schema.get? "definitions" with
  | none => rfl
  | some found =>
      cases found with
      | obj members => simp [Json.mapMembers, Entries.keys]
      | _ => rfl

theorem get?_map_eq {entries others : List (String × Except Failure Definition)}
    (h : entries.map (fun entry => (entry.1, entry.2.map Definition.silent)) =
      others.map fun entry => (entry.1, entry.2.map Definition.silent)) (name : String) :
    (Entries.get? name entries).map (Except.map Definition.silent) =
      (Entries.get? name others).map (Except.map Definition.silent) := by
  rw [← Entries.get?_map fun _ entry => Except.map Definition.silent entry, h,
    Entries.get?_map fun _ entry => Except.map Definition.silent entry]

/-- Whatever descriptions say and whatever they are wrapped to, without the check every definition
comes to the same, and in the modules only lines of description differ; these stay text. -/
theorem descriptions_only_document (hsame : silencedSchema schema = silencedSchema other)
    (hwidth : HasRoom settings.wrapWidth) (hroom : HasRoom width)
    (hvalidate : settings.output.validate.truthy = false) (comment : Json) :
    Alongside (RunsAlike (SameBase settings.wrapWidth width schema other))
      (generate settings comment schema)
      (generate { settings with wrapWidth := width } comment other) ∧
    ∀ width description lines, describe width description = .ok lines → StaysText lines := by
  refine ⟨?_, fun width description lines hlines => staysText_describe hlines⟩
  have hnames : ∀ module twin, SameBase settings.wrapWidth width schema other module twin →
      module.name = twin.name := by
    rintro module twin ⟨base, ⟨-, -, -, -, -, -, -, -, rfl⟩, ⟨-, -, -, -, -, -, -, -, rfl⟩⟩
    rfl
  have hkeys : definitionNames other = definitionNames schema := by
    rw [← definitionNames_mapDefinitions silencedBody schema,
      ← definitionNames_mapDefinitions silencedBody other]
    exact congrArg definitionNames hsame.symm
  unfold generate
  cases hread : Document.read schema with
  | error failure =>
      rw [read_error_of_silenced hsame hread]
      exact .error _
  | ok document =>
      obtain ⟨next, hnext, halike, hentries⟩ := read_of_silenced hsame hread
      rw [hnext, hkeys]
      have hstart : RunsAlike (SameBase settings.wrapWidth width schema other) {} {} :=
        ⟨rfl, rfl, .nil, .nil⟩
      refine (alongside_foldlM (fun name _ run second hrun => ?_) hstart).bind
        fun run second hrun => hrun.finish hnames
      refine hrun.step hnames ?_
      have hfound := get?_map_eq hentries name
      cases hentry : Entries.get? name document.entries with
      | none =>
          rw [hentry] at hfound
          exact .inl ⟨rfl, Option.map_eq_none_iff.mp hfound.symm⟩
      | some entry =>
          rw [hentry] at hfound
          obtain ⟨twin, htwin, hsilent⟩ := Option.map_eq_some_iff.mp hfound.symm
          exact .inr ⟨entry, twin, rfl, htwin,
            attempt_alike hwidth hroom hread hnext halike hvalidate hentry htwin hsilent.symm⟩

/-- A definition and a property that say something. -/
def describedSchema (definition property : String) : Json := .obj [("definitions", .obj [
  ("Stay", .obj [("description", .str definition), ("properties", .obj [
    ("nights", .obj [("type", .str "integer"), ("description", .str property)])])])])]

theorem descriptions_only_document_stay :
    silencedSchema (describedSchema "Ends \"\"\" here \\" "At least\none") =
        silencedSchema (describedSchema "" "import os") ∧
      Alongside (RunsAlike (SameBase (.int 120) (.int 1)
          (describedSchema "Ends \"\"\" here \\" "At least\none") (describedSchema "" "import os")))
        (generate uncheckedSettings .null (describedSchema "Ends \"\"\" here \\" "At least\none"))
        (generate { uncheckedSettings with wrapWidth := .int 1 } .null
          (describedSchema "" "import os")) := by
  have hsame : silencedSchema (describedSchema "Ends \"\"\" here \\" "At least\none") =
      silencedSchema (describedSchema "" "import os") := rfl
  have hwidth : HasRoom uncheckedSettings.wrapWidth := ⟨120, rfl, by decide⟩
  exact ⟨hsame, (descriptions_only_document hsame hwidth ⟨1, rfl, by decide⟩ rfl .null).1⟩

end ModelMint.Package
