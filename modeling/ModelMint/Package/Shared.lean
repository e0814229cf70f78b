import ModelMint.Blueprint.Shared
import ModelMint.Package

/-!
# Runs with one resolver

A run takes one resolver from definition to definition, so that each of them finds what
those before it have found.
-/

namespace ModelMint.Package.Shared

open ModelMint.Schema
open ModelMint.Blueprint
open ModelMint.Blueprint.Shared

def compose (settings : Settings) (heading : Json) (document : Document)
    (definition : Definition) : Asking Stop Emit.ClassModule := do
  let plan ← planOf document settings.wrapWidth definition
  let lines ← Asking.of (Stop.ofFault (headingLines heading))
  Asking.of (Stop.ofFault (Emit.ClassModule.ofPlan settings.base lines plan))

def attempt {ε : Type} (settings : Settings) (heading : Json) (document : Document)
    (entry : Except Failure Definition) : Asking ε Attempt :=
  match entry with
  | .error failure => Asking.of (.ok ⟨false, .error (.failure failure)⟩)
  | .ok definition => do
    let composed ← (compose settings heading document definition).caught
    Asking.of <| .ok <| match composed with
      | .error stop => ⟨false, .error stop⟩
      | .ok module => ⟨true, (checkSource settings definition module.text).map fun _ => module⟩

/-- A run with what came of one more definition. -/
def record (settings : Settings) (name : String) (run : Run) (attempt : Attempt) :
    Except Halt Run :=
  let run := if attempt.composed then run.noteFormatter settings else run
  match attempt.module with
  | .ok module => .ok (run.addClass module)
  | .error (.fault fault) => run.halt (.fault fault)
  | .error (.failure failure) =>
    if settings.failFast.truthy then run.halt (.failure failure)
    else .ok (run.addFailure name failure)

def step (settings : Settings) (heading : Json) (document : Document) (run : Run)
    (name : String) : Asking Halt Run :=
  match isIgnored settings.ignored name with
  | .error fault => Asking.of (run.halt (.fault fault))
  | .ok true => Asking.of (.ok run)
  | .ok false => match Entries.get? name document.entries with
    | none => Asking.of (.ok run)
    | some entry => do
      let attempt ← attempt settings heading document entry
      Asking.of (record settings name run attempt)

def generate (settings : Settings) (comment : Json) (schema : Json) : Except Halt Run :=
  match Document.read schema with
  | .error failure => Run.halt {} (.failure failure)
  | .ok document =>
    let heading := if settings.comment.truthy then comment else .null
    let steps : Asking Halt Run :=
      (definitionNames schema).foldlM (step settings heading document) {}
    ((do Asking.of ((← steps).finish settings heading)) { root := document.raw }).1

end ModelMint.Package.Shared
