import ModelMint.Package
import ModelMint.Proofs.Blueprint.NullFree
import ModelMint.Proofs.Blueprint.Stopping
import ModelMint.Proofs.Emit.NullFree
import ModelMint.Proofs.Package.Origin

/-!
# Why a definition yields no class

An attempt that stops for a failure stops for one of its own definition.  Faults come
from settings of another form and from null characters only.
-/

namespace ModelMint.Package

open ModelMint.Schema
open ModelMint.Blueprint

variable {faults : Prop} {settings : Settings} {heading comment schema : Json}
  {document : Document} {definition : Definition}

/-! ## Composing -/

theorem exists_setterCode {names : BaseNames}
    (hnames : names.hidden.contains "bounds_check" = false)
    (member : Blueprint.Member) : ∃ code, Emit.setterCode names member = .ok code := by
  have hstatement : ∀ rule, ∃ statement,
      Emit.statementOf names member.field rule = .ok statement := by
    intro rule
    cases rule with
    | within measure minimum maximum =>
        unfold Emit.statementOf BaseNames.boundsCheck
        rw [hnames]
        exact ⟨_, rfl⟩
    | _ => exact ⟨_, rfl⟩
  choose statementOf hstatementOf using hstatement
  have hstatements : member.rules.mapM (Emit.statementOf names member.field) =
      .ok (member.rules.map statementOf) := mapM_eq_ok_map fun rule _ => hstatementOf rule
  unfold Emit.setterCode
  rw [hstatements]
  exact ⟨_, rfl⟩

theorem exists_ofPlan {names : BaseNames} (hnames : names.hidden.contains "bounds_check" = false)
    (lines : List String) (plan : Plan) :
    ∃ module, Emit.ClassModule.ofPlan names lines plan = .ok module := by
  choose code hcode using exists_setterCode hnames
  have hsetters : plan.setters.mapM (Emit.setterCode names) = .ok (plan.setters.map code) :=
    mapM_eq_ok_map fun member _ => hcode member
  unfold Emit.ClassModule.ofPlan
  rw [hsetters]
  exact ⟨_, rfl⟩

/-- Settings and a heading that composing a class takes without a fault. -/
structure Suitable (settings : Settings) (heading : Json) : Prop where
  width : HasRoom settings.wrapWidth
  heading : ∃ lines, headingLines heading = .ok lines
  names : settings.base.hidden.contains "bounds_check" = false

theorem compose_stops (h : faults ∨ Suitable settings heading) :
    FailsWith (Stop.Found faults (PlacedIn definition.name))
      (compose settings heading document definition) := by
  unfold compose
  refine (plan_stops (h.imp_right Suitable.width)).bind fun plan _ => ?_
  refine (found_ofFault (h.imp_right Suitable.heading)).bind fun lines _ => ?_
  exact found_ofFault (h.imp_right fun hsuitable => exists_ofPlan hsuitable.names lines plan)

/-! ## Checking -/

/-- The check of a text ends with a finding or none, and not with a fault. -/
def Checkable (settings : Settings) (source : String) : Prop :=
  settings.output.validate.truthy = true → Source.hasNull source = false

theorem checkSource_stops {source : String} (h : faults ∨ Checkable settings source) :
    FailsWith (Stop.Found faults (AssignedTo definition.name))
      (checkSource settings definition source) := by
  unfold checkSource
  split
  · exact failsWith_ok
  next hvalidate =>
    unfold Source.validate
    split
    next fault hfault =>
      refine failsWith_error (h.resolve_right fun hcheckable => ?_)
      rw [hcheckable (by simpa using hvalidate)] at hfault
      simp only [Bool.false_eq_true, if_false] at hfault
      split at hfault <;> cases hfault
    · exact failsWith_ok
    next failure hfailure =>
      have hopen : Unassigned failure := by
        split at hfailure
        · cases hfailure
        · split at hfailure <;> cases hfailure
          rfl
      exact failsWith_error (hopen.inContext rfl)

/-! ## Attempts -/

/-- An entry of a document fails under its own key, also where it is planned and checked. -/
theorem attempt_stops {name : String} {body : Json}
    (hsuitable : faults ∨ Suitable settings heading)
    (hcheckable : faults ∨ ∀ definition module, Document.readEntry name body = .ok definition →
      compose settings heading document definition = .ok module →
      Checkable settings module.text) :
    FailsWith (Stop.Found faults (AssignedTo name))
      (attempt settings heading document (Document.readEntry name body)).module := by
  unfold attempt
  split
  next failure hfailure => exact failsWith_error (readEntry_placed failure hfailure).assigned
  next definition hdefinition =>
    obtain rfl := (readDefinition_eq_ok (readEntry_eq_ok.mp hdefinition)).name
    split
    next stop hstop =>
      exact failsWith_error ((compose_stops hsuitable stop hstop).imp fun _ => PlacedIn.assigned)
    next module hmodule =>
      exact (checkSource_stops
        (hcheckable.imp_right fun h => h definition module hdefinition hmodule)).map

/-- Whatever the settings are, a failure names the definition. -/
theorem attempt_assigned {name : String} {body : Json} :
    FailsWith (Stop.Found True (AssignedTo name))
      (attempt settings heading document (Document.readEntry name body)).module :=
  attempt_stops (.inl trivial) (.inl trivial)

/-! ## Texts without null characters -/

theorem hasNull_eq_false {text : String} (h : Text.NullFree text.toList) :
    Source.hasNull text = false := by
  simpa [Source.hasNull] using show '\x00' ∉ text.toList from h

theorem linesNullFree_headingLines {lines : List String} (hheading : heading.NullFree)
    (h : headingLines heading = .ok lines) : Emit.LinesNullFree lines := by
  unfold headingLines at h
  split at h
  · cases h
    exact Emit.linesNullFree_nil
  · split at h
    next text _ =>
      cases h
      rw [Emit.linesNullFree_map]
      intro c hc
      rw [String.toList_ofList]
      exact Text.NullFree.of_subset hheading (by simpa using hc)
    next items _ =>
      cases h
      rw [Emit.linesNullFree_map]
      exact fun item hitem =>
        Emit.nullFree_plainText (Json.itemsNullFree_iff.mp hheading item hitem)
    next members _ =>
      cases h
      rw [Entries.keys, Emit.linesNullFree_map]
      exact fun entry hentry => (Json.membersNullFree_iff.mp hheading entry hentry).1
    · cases h

/-- Without null characters in what it is made of, every composed text can be checked. -/
theorem checkable_of_nullFree {name : String} {body : Json} {module : Emit.ClassModule}
    (hname : Text.NullFree name.toList) (hbody : body.NullFree) (hheading : heading.NullFree)
    (hbase : settings.base.NullFree)
    (hdefinition : Document.readEntry name body = .ok definition)
    (hmodule : compose settings heading document definition = .ok module) :
    Checkable settings module.text := by
  obtain ⟨plan, lines, hplan, hlines, hofPlan⟩ := compose_eq_ok hmodule
  have hread : definition.NullFree :=
    nullFree_readDefinition hname hbody (readEntry_eq_ok.mp hdefinition)
  have hcode : module.NullFree := Emit.nullFree_ofPlan hbase
    (linesNullFree_headingLines hheading hlines) (nullFree_plan hread hplan) hofPlan
  exact fun _ => hasNull_eq_false (Emit.ClassModule.nullFree_text hcode)

end ModelMint.Package
