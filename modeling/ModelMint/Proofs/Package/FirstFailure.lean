import ModelMint.Proofs.Package.Origin

/-!
# Runs that end at the first failure

A run that ends at the first failure goes the way of one that notes failures down, as far
as that failure.  So the two come to the same package where nothing fails, and otherwise
the one ends with the failure that the other has first.
-/

namespace ModelMint.Package

open ModelMint.Schema
open ModelMint.Blueprint

variable {settings : Settings} {comment heading schema ending : Json} {document : Document}

/-! ## Notices -/

theorem noteFormatter_notices (run : Run) :
    run.notices <+: (run.noteFormatter settings).notices := by
  unfold Run.noteFormatter
  split
  · exact List.prefix_append _ _
  · exact List.prefix_refl _

theorem finish_notices {run after : Run} (h : run.finish settings heading = .ok after) :
    run.notices <+: after.notices := by
  unfold Run.finish at h
  split at h
  · cases h
    exact List.prefix_refl _
  · split at h
    · cases h
    · cases h
      exact noteFormatter_notices run

/-! ## One key -/

/-- What becomes of a run that noted these failures down if the first of them ends it. -/
def EndsAtFirst (noted : Run) (failures : List Failure) (result : Except Halt Run) : Prop :=
  match failures with
  | [] => result = .ok noted
  | first :: _ => ∃ notices, notices <+: noted.notices ∧ result = .error ⟨notices, .failure first⟩

/-- A key either adds no failure, and then the choice is not asked for, or it adds the one that
the run would have ended with. -/
theorem define_endsAtFirst {run after : Run} {name : String} {entry : Except Failure Definition}
    (hending : ending.truthy = true)
    (h : Run.define settings heading document name entry run = .ok after) :
    run.notices <+: after.notices ∧ ∃ added,
      after.package.failures = run.package.failures ++ added ∧
      EndsAtFirst after added
        (Run.define { settings with failFast := ending } heading document name entry run) := by
  have hnoted : ∀ composed : Bool,
      run.notices <+: (if composed then run.noteFormatter settings else run).notices ∧
        (if composed then run.noteFormatter settings else run).package = run.package := by
    intro composed
    cases composed with
    | false => exact ⟨List.prefix_refl _, rfl⟩
    | true => exact ⟨noteFormatter_notices run, noteFormatter_package run⟩
  obtain ⟨hnotices, hpackage⟩ := hnoted (attempt settings heading document entry).composed
  have hattempt : attempt { settings with failFast := ending } heading document entry =
      attempt settings heading document entry := rfl
  have hformatter : run.noteFormatter { settings with failFast := ending } =
      run.noteFormatter settings := rfl
  unfold Run.define at h ⊢
  rw [hattempt, hformatter]
  simp only at h ⊢
  split at h
  next module hmodule =>
    cases h
    refine ⟨hnotices, [], ?_, ?_⟩
    · simp [Run.addClass, hpackage]
    · simp [EndsAtFirst]
  · cases h
  next failure hfailure =>
    split at h
    · cases h
    · cases h
      refine ⟨hnotices.trans (List.prefix_append _ _), [failure], ?_, ?_⟩
      · simp [Run.addFailure, hpackage]
      · refine ⟨_, List.prefix_append _ _, ?_⟩
        simp [hending, Run.halt]

theorem step_endsAtFirst {run after : Run} {name : String} (hending : ending.truthy = true)
    (h : Run.step settings heading document run name = .ok after) :
    run.notices <+: after.notices ∧ ∃ added,
      after.package.failures = run.package.failures ++ added ∧
      EndsAtFirst after added
        (Run.step { settings with failFast := ending } heading document run name) := by
  have hpassed : EndsAtFirst run [] (.ok run) := rfl
  unfold Run.step at h ⊢
  simp only
  -- which keys are left out, and what the others stand for, does not hang on the choice
  generalize isIgnored settings.ignored name = ignored at h ⊢
  cases ignored with
  | error fault => cases h
  | ok ignored =>
      cases ignored with
      | true =>
          cases h
          exact ⟨List.prefix_refl _, [], (List.append_nil _).symm, hpassed⟩
      | false =>
          generalize Entries.get? name document.entries = found at h ⊢
          cases found with
          | none =>
              cases h
              exact ⟨List.prefix_refl _, [], (List.append_nil _).symm, hpassed⟩
          | some entry => exact define_endsAtFirst hending h

/-! ## All keys -/

theorem foldlM_endsAtFirst {run after : Run} {names : List String} (hending : ending.truthy = true)
    (h : names.foldlM (Run.step settings heading document) run = .ok after) :
    run.notices <+: after.notices ∧ ∃ added,
      after.package.failures = run.package.failures ++ added ∧
      EndsAtFirst after added
        (names.foldlM (Run.step { settings with failFast := ending } heading document) run) := by
  induction names generalizing run with
  | nil =>
      cases h
      exact ⟨List.prefix_refl _, [], (List.append_nil _).symm, rfl⟩
  | cons name rest ih =>
      rw [List.foldlM_cons] at h
      obtain ⟨middle, hstep, hrest⟩ := bind_eq_ok.mp h
      obtain ⟨hfirst, added, hadded, hends⟩ := step_endsAtFirst hending hstep
      obtain ⟨hlater, others, hothers, hfollowing⟩ := ih hrest
      refine ⟨hfirst.trans hlater, added ++ others, ?_, ?_⟩
      · rw [hothers, hadded, List.append_assoc]
      · rw [List.foldlM_cons]
        -- until the first failure both runs take the same steps
        cases added with
        | nil =>
            rw [show Run.step _ _ _ run name = .ok middle from hends]
            exact hfollowing
        | cons failure more =>
            obtain ⟨notices, hnotices, hended⟩ := hends
            exact ⟨notices, hnotices.trans hlater, by rw [hended]; rfl⟩

/-- Where a run notes failures down and comes to a package, the run that is to end at the first
failure comes to the same package if there is none.  Otherwise it ends with the first of them, the
same in cause and context, and has reported nothing but what the other reported. -/
theorem first_failure_ends_run {run : Run} (hrun : generate settings comment schema = .ok run)
    (hending : ending.truthy = true) :
    (run.package.failures = [] →
      generate { settings with failFast := ending } comment schema = .ok run) ∧
    ∀ first rest, run.package.failures = first :: rest → ∃ notices, notices <+: run.notices ∧
      generate { settings with failFast := ending } comment schema =
        .error ⟨notices, .failure first⟩ := by
  unfold generate at hrun ⊢
  split at hrun
  · cases hrun
  next document hread =>
    obtain ⟨middle, hmiddle, hfinish⟩ := bind_eq_ok.mp hrun
    obtain ⟨-, added, hadded, hends⟩ := foldlM_endsAtFirst hending hmiddle
    rw [(finish_eq_ok hfinish).2.1, hadded, show ({} : Run).package.failures = [] from rfl,
      List.nil_append]
    constructor
    · intro hnone
      rw [hnone] at hends
      exact bind_eq_ok.mpr ⟨middle, hends, hfinish⟩
    · intro first rest hfirst
      rw [hfirst] at hends
      obtain ⟨notices, hnotices, hended⟩ := hends
      refine ⟨notices, hnotices.trans (finish_notices hfinish), ?_⟩
      exact bind_eq_error.mpr (.inl hended)

/-! ## Three definitions, two failures -/

/-- A class, a property whose type has no form, and a reference that leads nowhere. -/
def faultySchema : Json := .obj [("definitions", .obj [
  ("Guest", .obj [("properties", .obj [("name", .obj [("type", .str "string")])])]),
  ("Room", .obj [("properties", .obj [("beds", .obj [("type", .int 2)])])]),
  ("Stay", .obj [("properties", .obj [("guest", .obj [("$ref", .str "#/definitions/Gast")])])])])]

def faultyRun : Run := runOf uncheckedSettings .null faultySchema

theorem first_failure_ends_run_faulty :
    faultyRun.package.failures.map (·.context.definition) = [some "Room", some "Stay"] ∧
    ∃ first notices, first.context.definition = some "Room" ∧
      generate { uncheckedSettings with failFast := .bool true } .null faultySchema =
        .error ⟨notices, .failure first⟩ := by
  have hrun : generate uncheckedSettings .null faultySchema = .ok faultyRun := rfl
  have hending : (Json.bool true).truthy = true := rfl
  have hnames : faultyRun.package.failures.map (·.context.definition) =
      [some "Room", some "Stay"] := by decide +kernel
  have hsome : faultyRun.package.failures ≠ [] := by
    intro hnone
    rw [hnone] at hnames
    cases hnames
  obtain ⟨first, rest, hfailures⟩ := List.exists_cons_of_ne_nil hsome
  obtain ⟨-, hends⟩ := first_failure_ends_run hrun hending
  obtain ⟨notices, -, hended⟩ := hends first rest hfailures
  refine ⟨hnames, first, notices, ?_, hended⟩
  rw [hfailures] at hnames
  exact (List.cons.inj hnames).1

end ModelMint.Package
