import ModelMint.Proofs.Package.Attempt

/-!
# The files of a package

Every module of a run stands in the file that is named after it, unless that file is the
one of the package and the settings ask for it.
-/

namespace ModelMint.Package

open ModelMint.Schema
open ModelMint.Blueprint

variable {settings : Settings} {comment schema : Json} {document : Document} {run : Run}
  {added : List (List Emit.ClassModule × List Failure)} {module other : Emit.ClassModule}

/-! ## Names -/

theorem ofPlan_eq_ok {names : BaseNames} {lines : List String} {plan : Plan}
    (h : Emit.ClassModule.ofPlan names lines plan = .ok module) :
    module.name = plan.name ∧ module.heading = lines ∧ module.references = plan.references := by
  have hmade := Emit.ClassModule.ofPlan_eq_ok h
  exact ⟨hmade.name, hmade.heading, hmade.references⟩

theorem Origin.name {definition : Definition} {plan : Plan}
    (h : Origin settings comment schema document definition plan module) :
    module.name = definition.name := by
  obtain ⟨lines, -, hofPlan⟩ := h.composed
  rw [(ofPlan_eq_ok hofPlan).1, h.planned_members.name]

theorem Ran.made (h : Ran settings comment schema run document added)
    (hmodule : module ∈ run.package.modules) :
    ∃ entry, Entries.get? module.name document.entries = some entry ∧
      (attempt settings (headingOf settings comment) document entry).module = .ok module := by
  rw [h.modules] at hmodule
  obtain ⟨out, hout, hmodule⟩ := List.mem_flatMap.mp hmodule
  obtain ⟨name, -, houtcome⟩ := exists_left_of_mem h.outcomes hout
  obtain ⟨definition, plan, rfl, horigin⟩ := houtcome.origin h.read hmodule
  rw [horigin.name]
  clear horigin
  generalize hmodules : out.1 = modules at houtcome hmodule
  generalize out.2 = failures at houtcome
  cases houtcome with
  | passed => cases hmodule
  | failed => cases hmodule
  | made hignored hentry hattempt =>
      obtain rfl := List.mem_singleton.mp hmodule
      exact ⟨_, hentry, hattempt⟩

theorem Ran.eq_of_name_eq (h : Ran settings comment schema run document added)
    (hmodule : module ∈ run.package.modules) (hother : other ∈ run.package.modules)
    (hname : module.name = other.name) : module = other := by
  obtain ⟨entry, hentry, hattempt⟩ := h.made hmodule
  obtain ⟨second, hsecond, hagain⟩ := h.made hother
  rw [hname, hsecond] at hentry
  obtain rfl := Option.some.inj hentry
  rw [hattempt] at hagain
  exact Except.ok.inj hagain

/-! ## Texts -/

theorem fileOf_inj {first second : String} : fileOf first = fileOf second ↔ first = second :=
  String.append_left_inj ".py"

theorem get?_foldl_addFile {modules : List Emit.ClassModule} (files : List (String × String))
    (hmem : module ∈ modules ∨ Entries.get? (fileOf module.name) files = some module.text)
    (hunique : ∀ other ∈ modules, other.name = module.name → other = module) :
    Entries.get? (fileOf module.name) (modules.foldl addFile files) = some module.text := by
  induction modules generalizing files with
  | nil => exact hmem.resolve_left (by simp)
  | cons first rest ih =>
      obtain ⟨hfirst, hrest⟩ := List.forall_mem_cons.mp hunique
      refine ih _ ?_ hrest
      by_cases hname : first.name = module.name
      · obtain rfl := hfirst hname
        exact .inr (Entries.get?_insert_self _ _ _)
      · rcases hmem with hmem | hfile
        · rcases List.mem_cons.mp hmem with rfl | hlater
          · exact absurd rfl hname
          · exact .inl hlater
        · refine .inr ?_
          rw [addFile, Entries.get?_insert_of_ne (fun heq => hname (fileOf_inj.mp heq).symm)]
          exact hfile

theorem text_ne_packageText (name : String) (names : List String) :
    module.text ≠ Emit.packageText module.heading (name :: names) := by
  intro h
  unfold Emit.ClassModule.text Emit.packageText at h
  simp only [List.append_assoc, Emit.unlines_append, List.map_cons] at h
  rw [String.append_right_inj] at h
  have hlists := congrArg String.toList h
  simp only [Emit.ClassModule.importLines, Emit.importLine, List.cons_append, List.nil_append,
    String.toList_append, Emit.toList_unlines_cons, List.append_assoc] at hlists
  have hsixth := congrArg (fun text => text[5]?) hlists
  simp at hsixth

/-- A module is lost from the files exactly where the file of the package takes its place. -/
theorem Ran.get?_fileOf (h : Ran settings comment schema run document added)
    (hmodule : module ∈ run.package.modules) :
    Entries.get? (fileOf module.name) run.package.files = some module.text ↔
      (settings.packageFile.truthy = true → module.name ≠ "__init__") := by
  have hfold := get?_foldl_addFile [] (.inl hmodule)
    fun other hother hname => h.eq_of_name_eq hother hmodule hname
  cases hfile : settings.packageFile.truthy with
  | false =>
      rw [h.files hfile, hfold]
      simp
  | true =>
      obtain ⟨lines, hlines, hfiles⟩ := h.filesOfPackage hfile
      rw [hfiles]
      by_cases hname : module.name = "__init__"
      · have hplace : fileOf module.name = packageFile := by rw [hname]; rfl
        rw [hplace, Entries.get?_insert_self]
        simp only [Option.some.injEq, forall_const, hname, ne_eq, not_true_eq_false, iff_false]
        intro htext
        obtain ⟨definition, plan, horigin⟩ := h.exists_origin hmodule
        obtain ⟨others, hothers, hofPlan⟩ := horigin.composed
        rw [hlines] at hothers
        obtain rfl := Except.ok.inj hothers
        rw [← (ofPlan_eq_ok hofPlan).2.1] at htext
        have hclasses : run.package.classes ≠ [] := by
          intro hnone
          rw [classes, List.map_eq_nil_iff] at hnone
          rw [hnone] at hmodule
          cases hmodule
        obtain ⟨first, rest, hcons⟩ := List.exists_cons_of_ne_nil hclasses
        rw [hcons] at htext
        exact text_ne_packageText first rest htext.symm
      · have hplace : fileOf module.name ≠ packageFile :=
          fun heq => hname (fileOf_inj.mp (heq.trans (show packageFile = fileOf "__init__" from rfl)))
        rw [Entries.get?_insert_of_ne hplace, hfold]
        simp [hname]

/-! ## Runs without failures -/

/-- A name that a schema may give for a type without writing code: a word of the language that
stands for a value. -/
def TypeWord (name : String) : Prop :=
  Text.isPlainName name.toList = true ∨ name ∈ ["None", "True", "False"]

instance (name : String) : Decidable (TypeWord name) :=
  inferInstanceAs (Decidable (_ ∨ _))

/-- A run over the standard base in which every definition yields a class.  Types are words and
the lines of the comment are lines, so that the text of a class is what its module says. -/
structure Flawless (settings : Settings) (comment schema : Json) (run : Run) : Prop where
  generated : generate settings comment schema = .ok run
  failures : run.package.failures = []
  base : settings.base = {}
  types : ∀ document, Document.read schema = .ok document →
    ∀ name definition, Entries.get? name document.entries = some (.ok definition) →
      ∀ entry ∈ definition.properties, ∀ type ∈ entry.2.type, TypeWord type
  comment : ∀ lines, headingLines (headingOf settings comment) = .ok lines →
    ∀ line ∈ lines, '\n' ∉ line.toList ∧ '\r' ∉ line.toList

theorem mem_definitionNames (hread : Document.read schema = .ok document) {name : String}
    {entry : Except Failure Definition}
    (hentry : Entries.get? name document.entries = some entry) :
    name ∈ definitionNames schema := by
  obtain ⟨definitions, body, hdefinitions, hbody, -, -⟩ := exists_body_of_get? hread hentry
  rw [definitionNames, hdefinitions]
  exact List.mem_map.mpr ⟨_, hbody, rfl⟩

/-- A key that is kept and stands for a definition has its module, or a failure says why not. -/
theorem Ran.made_or_failed (h : Ran settings comment schema run document added) {name : String}
    {entry : Except Failure Definition}
    (hentry : Entries.get? name document.entries = some entry)
    (hkept : isIgnored settings.ignored name = .ok false) :
    (∃ module ∈ run.package.modules, module.name = name) ∨
      ∃ failure ∈ run.package.failures, AssignedTo name failure := by
  obtain ⟨out, hout, houtcome⟩ := exists_right_of_mem h.outcomes
    (mem_definitionNames h.read hentry)
  have hmodules : ∀ module ∈ out.1, module ∈ run.package.modules ∧ module.name = name := by
    intro module hmodule
    obtain ⟨definition, plan, rfl, horigin⟩ := houtcome.origin h.read hmodule
    rw [h.modules]
    exact ⟨List.mem_flatMap.mpr ⟨out, hout, hmodule⟩, horigin.name⟩
  have hfailures : ∀ failure ∈ out.2, failure ∈ run.package.failures := by
    intro failure hfailure
    rw [h.failures]
    exact List.mem_flatMap.mpr ⟨out, hout, hfailure⟩
  clear hout
  generalize out.1 = modules at houtcome hmodules
  generalize out.2 = failures at houtcome hfailures
  cases houtcome with
  | passed hpassed =>
      rcases hpassed with hignored | hmissing
      · rw [hkept] at hignored
        cases hignored
      · rw [hentry] at hmissing
        cases hmissing
  | made => exact .inl ⟨_, hmodules _ List.mem_cons_self⟩
  | failed hignored hfound hattempt =>
      obtain ⟨definitions, body, -, -, -, rfl⟩ := exists_body_of_get? h.read hfound
      exact .inr ⟨_, hfailures _ List.mem_cons_self, attempt_assigned _ hattempt⟩

theorem Ran.exists_module (h : Ran settings comment schema run document added)
    (hfailures : run.package.failures = []) {name : String} {entry : Except Failure Definition}
    (hentry : Entries.get? name document.entries = some entry)
    (hkept : isIgnored settings.ignored name = .ok false) :
    ∃ module ∈ run.package.modules, module.name = name := by
  obtain hmade | ⟨failure, hfailure, -⟩ := h.made_or_failed hentry hkept
  · exact hmade
  · rw [hfailures] at hfailure
    cases hfailure

end ModelMint.Package
