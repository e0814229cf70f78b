import ModelMint.Package.Shared
import ModelMint.Proofs.Blueprint.Shared

/-!
# One resolver for a run

What a definition comes to does not depend on what the definitions before it had the
resolver look up, so a run with one resolver is the run in which each stands alone.
-/

namespace ModelMint.Package.Shared

open ModelMint.Schema
open ModelMint.Blueprint
open ModelMint.Blueprint.Shared

variable {settings : Settings} {heading : Json} {document : Document}

theorem answers_compose {definition : Definition} :
    Answers document.raw (compose settings heading document definition)
      (Package.compose settings heading document definition) :=
  answers_planOf.bind fun _ => (answers_of _).bind fun _ => answers_of _

theorem answers_attempt {ε : Type} (entry : Except Failure Definition) :
    Answers document.raw (attempt settings heading document entry : Asking ε _)
      (.ok (Package.attempt settings heading document entry)) := by
  cases entry with
  | error failure => exact answers_of _
  | ok definition =>
      refine answers_compose.caught.bind_ok ?_
      unfold Package.attempt
      simp only
      cases Package.compose settings heading document definition <;> exact answers_of _

theorem answers_step (run : Run) (name : String) :
    Answers document.raw (step settings heading document run name)
      (Run.step settings heading document run name) := by
  unfold step Run.step
  cases isIgnored settings.ignored name with
  | error fault => exact answers_of _
  | ok ignored =>
      cases ignored with
      | true => exact answers_of _
      | false =>
          cases Entries.get? name document.entries with
          | none => exact answers_of _
          | some entry => exact (answers_attempt entry).bind_ok (answers_of _)

theorem generate_eq (settings : Settings) (comment schema : Json) :
    Shared.generate settings comment schema = Package.generate settings comment schema := by
  unfold generate Package.generate
  cases Document.read schema with
  | error failure => rfl
  | ok document =>
      have hsteps : ∀ heading, Answers document.raw
          ((definitionNames schema).foldlM (step settings heading document) {})
          ((definitionNames schema).foldlM (Run.step settings heading document) {}) :=
        fun heading => answers_foldlM answers_step _ _
      exact (((hsteps _).bind fun _ => answers_of _) _ (sound_new document.raw)).1

end ModelMint.Package.Shared
