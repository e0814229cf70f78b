import ModelMint.Proofs.Package.Attempt
import ModelMint.Proofs.Package.Files

/-!
# Every definition is a class or a failure

With settings of their form a run gets to its end.  Each definition that is not left out
and is no comment is then in one of two lists, once: it is a class, or a failure names
it.  Both lists are in document order.
-/

namespace ModelMint.Package

open ModelMint.Schema
open ModelMint.Blueprint

variable {settings : Settings} {comment heading schema : Json} {document : Document}
  {ignored : List String} {definitions : List (String × Json)} {run : Run}

/-- A name that is left out, or that of a comment. -/
def isPassed (ignored : List String) (name : String) (body : Json) : Bool :=
  ignored.contains name || Document.isComment name body

/-- The names that a run deals with, in document order. -/
def keptNames (ignored : List String) (definitions : List (String × Json)) : List String :=
  Entries.keys (definitions.filter fun entry => !isPassed ignored entry.1 entry.2)

/-! ## Dealing out -/

/-- Names dealt out in order to classes and to the definitions of failures. -/
inductive Dealt : List String → List String → List (Option String) → Prop where
  | nil : Dealt [] [] []
  | toClasses {name : String} {names classes : List String} {failed : List (Option String)}
      (rest : Dealt names classes failed) : Dealt (name :: names) (name :: classes) failed
  | toFailures {name : String} {names classes : List String} {failed : List (Option String)}
      (rest : Dealt names classes failed) : Dealt (name :: names) classes (some name :: failed)

namespace Dealt

variable {names classes : List String} {failed : List (Option String)}

theorem classes_sublist (h : Dealt names classes failed) : classes.Sublist names := by
  induction h with
  | nil => exact .slnil
  | toClasses _ ih => exact ih.cons_cons _
  | toFailures _ ih => exact ih.cons _

theorem failed_sublist (h : Dealt names classes failed) : failed.Sublist (names.map some) := by
  induction h with
  | nil => exact .slnil
  | toClasses _ ih => exact ih.cons _
  | toFailures _ ih => exact ih.cons_cons _

theorem count (h : Dealt names classes failed) (name : String) :
    classes.count name + failed.count (some name) = names.count name := by
  induction h with
  | nil => rfl
  | toClasses _ ih =>
      simp only [List.count_cons]
      omega
  | toFailures _ ih =>
      have hsame : ∀ first : String, (some first == some name) = (first == name) := fun _ => rfl
      simp only [List.count_cons, hsame]
      omega

end Dealt

/-- The run has every name once, as a class or as the definition of a failure, and has them
in order. -/
structure Deals (names : List String) (run : Run) : Prop where
  classes : run.package.classes.Sublist names
  failures : (run.package.failures.map (·.context.definition)).Sublist (names.map some)
  once : ∀ name ∈ names, run.package.classes.count name +
    (run.package.failures.map (·.context.definition)).count (some name) = 1

/-! ## Where the names go -/

theorem isIgnored_texts (name : String) :
    isIgnored (.arr (ignored.map Json.str)) name = .ok (ignored.contains name) := by
  have hany : (ignored.map Json.str).any (·.str? == some name) = ignored.contains name := by
    induction ignored with
    | nil => rfl
    | cons first rest ih =>
        have hsame : ((Json.str first).str? == some name) = (name == first) := by
          rw [Json.str?, Bool.beq_comm]
          rfl
        rw [List.map_cons, List.any_cons, List.contains_cons, ih, hsame]
  rw [isIgnored, hany]

theorem keptNames_cons (name : String) (body : Json) :
    keptNames ignored ((name, body) :: definitions) =
      if isPassed ignored name body then keptNames ignored definitions
      else name :: keptNames ignored definitions := by
  unfold keptNames
  rw [List.filter_cons]
  cases isPassed ignored name body with
  | true => simp
  | false => simp [Entries.keys]

/-- What a key adds is its class or a failure of its own, unless it is passed over. -/
theorem Outcome.deals {name : String} {body : Json} {modules : List Emit.ClassModule}
    {failures : List Failure} (hread : Document.read schema = .ok document)
    (hignored : settings.ignored = .arr (ignored.map Json.str))
    (hentry : Entries.get? name document.entries =
      if Document.isComment name body then none else some (Document.readEntry name body))
    (h : Outcome settings (headingOf settings comment) document name modules failures) :
    isPassed ignored name body = true ∧ modules = [] ∧ failures = [] ∨
      isPassed ignored name body = false ∧
        ((∃ module : Emit.ClassModule, module.name = name ∧ modules = [module] ∧ failures = []) ∨
          ∃ failure, AssignedTo name failure ∧ modules = [] ∧ failures = [failure]) := by
  have hname : ∀ module ∈ modules, module.name = name := by
    intro module hmodule
    obtain ⟨definition, plan, rfl, horigin⟩ := h.origin hread hmodule
    exact horigin.name
  unfold isPassed
  cases h with
  | passed hpassed =>
      refine .inl ⟨?_, rfl, rfl⟩
      rw [hignored, isIgnored_texts] at hpassed
      rcases hpassed with hleft | hmissing
      · rw [Except.ok.inj hleft]
        rfl
      · cases hplain : Document.isComment name body with
        | true => exact Bool.or_true _
        | false =>
            rw [hentry, hplain] at hmissing
            cases hmissing
  | made hkept hfound hattempt =>
      rw [hignored, isIgnored_texts] at hkept
      refine .inr ⟨?_, .inl ⟨_, hname _ List.mem_cons_self, rfl, rfl⟩⟩
      cases hplain : Document.isComment name body with
      | true =>
          rw [hentry, hplain] at hfound
          cases hfound
      | false => rw [Except.ok.inj hkept, Bool.or_false]
  | failed hkept hfound hattempt =>
      rw [hignored, isIgnored_texts] at hkept
      cases hplain : Document.isComment name body with
      | true =>
          rw [hentry, hplain] at hfound
          cases hfound
      | false =>
          rw [hentry, hplain] at hfound
          obtain rfl := Option.some.inj hfound
          have hassigned := attempt_assigned _ hattempt
          refine .inr ⟨by rw [Except.ok.inj hkept, Bool.or_false], .inr ⟨_, hassigned, rfl, rfl⟩⟩

theorem dealt_of_outcomes {added : List (List Emit.ClassModule × List Failure)}
    (hread : Document.read schema = .ok document)
    (hignored : settings.ignored = .arr (ignored.map Json.str))
    (hentries : ∀ entry ∈ definitions, Entries.get? entry.1 document.entries =
      if Document.isComment entry.1 entry.2 then none
      else some (Document.readEntry entry.1 entry.2))
    (houtcomes : List.Forall₂ (fun entry out =>
      Outcome settings (headingOf settings comment) document entry.1 out.1 out.2)
      definitions added) :
    Dealt (keptNames ignored definitions) ((added.flatMap Prod.fst).map (·.name))
      ((added.flatMap Prod.snd).map (·.context.definition)) := by
  induction houtcomes with
  | nil => exact .nil
  | @cons entry out definitions added houtcome _ ih =>
      obtain ⟨name, body⟩ := entry
      obtain ⟨hentry, hrest⟩ := List.forall_mem_cons.mp hentries
      rw [keptNames_cons, List.flatMap_cons, List.flatMap_cons, List.map_append, List.map_append]
      -- a key is passed over, or it goes to the classes or to the failures
      obtain ⟨hpassed, hmodules, hfailures⟩ | ⟨hkept, hsorted⟩ :=
        houtcome.deals hread hignored hentry
      · rw [if_pos hpassed, hmodules, hfailures]
        exact ih hrest
      · rw [if_neg (by rw [hkept]; exact Bool.false_ne_true)]
        obtain ⟨module, hname, hmodules, hfailures⟩ |
          ⟨failure, hname, hmodules, hfailures⟩ := hsorted
        · rw [hmodules, hfailures]
          simpa [hname] using (ih hrest).toClasses
        · rw [hmodules, hfailures]
          have hdefinition : failure.context.definition = some name := hname
          simpa [hdefinition] using (ih hrest).toFailures

/-- Whatever a run of a document with its keys once comes to, it deals out the names. -/
theorem Ran.deals {added : List (List Emit.ClassModule × List Failure)}
    (h : Ran settings comment schema run document added)
    (hdefinitions : schema.get? "definitions" = some (.obj definitions))
    (hkeys : (Entries.keys definitions).Nodup)
    (hignored : settings.ignored = .arr (ignored.map Json.str)) :
    Deals (keptNames ignored definitions) run := by
  have houtcomes := h.outcomes
  rw [definitionNames, hdefinitions] at houtcomes
  have hentries : ∀ entry ∈ definitions, Entries.get? entry.1 document.entries =
      if Document.isComment entry.1 entry.2 then none
      else some (Document.readEntry entry.1 entry.2) :=
    fun entry hentry => get?_of_mem h.read hkeys hdefinitions hentry
  have hdealt := dealt_of_outcomes h.read hignored hentries
    (List.forall₂_map_left_iff.mp houtcomes)
  have hnames : (keptNames ignored definitions).Nodup :=
    hkeys.sublist ((List.filter_sublist).map Prod.fst)
  refine ⟨?_, ?_, fun name hname => ?_⟩
  · rw [classes, h.modules]
    exact hdealt.classes_sublist
  · rw [h.failures]
    exact hdealt.failed_sublist
  · rw [classes, h.modules, h.failures, hdealt.count]
    exact List.count_eq_one_of_mem hnames hname

/-! ## Getting to the end -/

theorem exists_step (hignored : settings.ignored = .arr (ignored.map Json.str))
    (hfast : settings.failFast.truthy = false) {name : String}
    (hattempt : ∀ entry, Entries.get? name document.entries = some entry →
      FailsWith (Stop.Found False (AssignedTo name))
        (attempt settings heading document entry).module)
    (run : Run) : ∃ after, Run.step settings heading document run name = .ok after := by
  unfold Run.step
  rw [hignored, isIgnored_texts]
  cases ignored.contains name with
  | true => exact ⟨_, rfl⟩
  | false =>
      simp only
      split
      · exact ⟨_, rfl⟩
      next entry hentry =>
        unfold Run.define
        simp only
        -- a failure is noted down, so only a fault could end the run
        split
        · exact ⟨_, rfl⟩
        next fault hfault => exact (hattempt entry hentry _ hfault).elim
        · rw [hfast]
          exact ⟨_, rfl⟩

theorem exists_foldlM {α β ε : Type} {f : β → α → Except ε β} {items : List α}
    (h : ∀ item ∈ items, ∀ value, ∃ after, f value item = .ok after) (value : β) :
    ∃ after, items.foldlM f value = .ok after := by
  induction items generalizing value with
  | nil => exact ⟨value, rfl⟩
  | cons item rest ih =>
      obtain ⟨hitem, hrest⟩ := List.forall_mem_cons.mp h
      obtain ⟨middle, hmiddle⟩ := hitem value
      obtain ⟨after, hafter⟩ := ih hrest middle
      exact ⟨after, by rw [List.foldlM_cons, hmiddle]; exact hafter⟩

theorem exists_finish
    (hheading : settings.packageFile.truthy = true → ∃ lines, headingLines heading = .ok lines)
    (run : Run) : ∃ after, run.finish settings heading = .ok after := by
  unfold Run.finish
  split
  · exact ⟨_, rfl⟩
  next hfile =>
    obtain ⟨lines, hlines⟩ := hheading (by simpa using hfile)
    rw [hlines]
    exact ⟨_, rfl⟩

theorem exists_headingLines (settings : Settings)
    (hcomment : comment = .null ∨ ∃ lines : List String,
    comment = .arr (lines.map Json.str)) :
    ∃ lines, headingLines (headingOf settings comment) = .ok lines := by
  unfold headingOf
  split
  · rcases hcomment with rfl | ⟨lines, rfl⟩
    · exact ⟨_, rfl⟩
    · unfold headingLines
      split
      · exact ⟨_, rfl⟩
      · exact ⟨_, rfl⟩
  · exact ⟨_, rfl⟩

theorem nullFree_headingOf (hcomment : comment.NullFree) :
    (headingOf settings comment).NullFree := by
  unfold headingOf
  split
  · exact hcomment
  · trivial

/-- The check of a text that a run composes never ends with a fault. -/
def ChecksCleanly (settings : Settings) (comment schema : Json) : Prop :=
  ∀ document definition module, Document.read schema = .ok document →
    compose settings (headingOf settings comment) document definition = .ok module →
    Checkable settings module.text

/-- A class, a definition whose type has no form, one that is left out and a comment. -/
def mixedSchema : Json := .obj [("definitions", .obj [
  ("_comment", .str "guests and rooms"),
  ("Guest", .obj [("properties", .obj [("name", .obj [("type", .str "string")])])]),
  ("Room", .obj [("properties", .obj [("beds", .obj [("type", .int 2)])])]),
  ("Draft", .obj [])])]

def mixedSettings : Settings := { ignored := .arr [.str "Draft"] }

end ModelMint.Package
