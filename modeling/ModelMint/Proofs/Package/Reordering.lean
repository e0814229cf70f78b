import ModelMint.Proofs.Blueprint.Reordering
import ModelMint.Proofs.Package.Layout
import ModelMint.Proofs.Package.Partition
import ModelMint.Proofs.Package.Shared

/-!
# The order of the definitions

A definition comes to the same in whatever order the definitions stand, whatever others
are left out and whatever becomes of them.
-/

namespace ModelMint.Package

open ModelMint.Schema
open ModelMint.Blueprint

variable {settings : Settings} {comment heading schema : Json} {document other : Document}
  {run : Run} {added : List (List Emit.ClassModule × List Failure)} {names : List String}

/-! ## What a key comes to -/

/-- What a key adds to a run that ends. -/
def outcomeOf (settings : Settings) (heading : Json) (document : Document) (name : String) :
    List Emit.ClassModule × List Failure :=
  match isIgnored settings.ignored name, Entries.get? name document.entries with
  | .ok false, some entry => match (attempt settings heading document entry).module with
    | .ok module => ([module], [])
    | .error (.failure failure) => ([], [failure])
    | .error (.fault _) => ([], [])
  | _, _ => ([], [])

theorem Outcome.eq_outcomeOf {name : String} {modules : List Emit.ClassModule}
    {failures : List Failure} (h : Outcome settings heading document name modules failures) :
    (modules, failures) = outcomeOf settings heading document name := by
  unfold outcomeOf
  cases h with
  | passed hpassed =>
      rcases hpassed with hignored | hmissing
      · rw [hignored]
      · rw [hmissing]
        split <;> trivial
  | made hignored hentry hattempt => simp only [hignored, hentry, hattempt]
  | failed hignored hentry hattempt => simp only [hignored, hentry, hattempt]

theorem Ran.added_eq (h : Ran settings comment schema run document added) :
    added = (definitionNames schema).map
      (outcomeOf settings (headingOf settings comment) document) := by
  have hpairs := h.outcomes.imp fun name out houtcome => houtcome.eq_outcomeOf
  have hsame : List.Forall₂ Eq added ((definitionNames schema).map
      (outcomeOf settings (headingOf settings comment) document)) := by
    rw [List.forall₂_map_right_iff]
    exact hpairs.flip
  exact List.forall₂_eq_eq_eq ▸ hsame

/-- What a key comes to is called like it. -/
theorem Outcome.named (hread : Document.read schema = .ok document) {name : String}
    {modules : List Emit.ClassModule} {failures : List Failure}
    (h : Outcome settings (headingOf settings comment) document name modules failures) :
    (∀ module ∈ modules, module.name = name) ∧
      ∀ failure ∈ failures, failure.context.definition = some name := by
  refine ⟨fun module hmodule => ?_, fun failure hfailure => ?_⟩
  · obtain ⟨definition, plan, rfl, horigin⟩ := h.origin hread hmodule
    exact horigin.name
  · cases h with
    | passed => cases hfailure
    | made => cases hfailure
    | failed hignored hentry hattempt =>
        obtain rfl := List.mem_singleton.mp hfailure
        obtain ⟨definitions, body, -, -, -, rfl⟩ := exists_body_of_get? hread hentry
        exact attempt_assigned _ hattempt

/-! ## Leaving out more -/

/-- The settings with some more names left out. -/
def leavingOut (names : List String) (items : List Json) (settings : Settings) : Settings :=
  { settings with ignored := .arr (items ++ names.map Json.str) }

theorem isIgnored_leavingOut {items : List Json} (hignored : settings.ignored = .arr items)
    (names : List String) (name : String) : isIgnored (leavingOut names items settings).ignored name =
      (isIgnored settings.ignored name).map (· || names.contains name) := by
  have hnames : isIgnored (.arr (names.map Json.str)) name = .ok (names.contains name) :=
    isIgnored_texts name
  rw [isIgnored] at hnames
  simp only [leavingOut, hignored, isIgnored, List.any_append, Except.map]
  rw [Except.ok.inj hnames]

theorem attempt_leavingOut {items : List Json} (halike : Alike document other)
    (entry : Except Failure Definition) :
    attempt (leavingOut names items settings) heading other entry =
      attempt settings heading document entry := by
  cases entry with
  | error failure => rfl
  | ok definition =>
      simp only [attempt, compose, ← plan_congr_of_alike halike]
      rfl

/-- A key that is left out comes to nothing, and any other to what it came to before. -/
theorem Outcome.leavingOut {items : List Json} (hignored : settings.ignored = .arr items)
    (names : List String) (halike : Alike document other)
    (hentries : ∀ name, Entries.get? name other.entries = Entries.get? name document.entries)
    {name : String} {modules : List Emit.ClassModule} {failures : List Failure}
    (h : Outcome settings heading document name modules failures) :
    Outcome (leavingOut names items settings) heading other name
      (if names.contains name then [] else modules)
      (if names.contains name then [] else failures) := by
  have hkept := isIgnored_leavingOut hignored names name
  cases hname : names.contains name with
  | true =>
      refine .passed (.inl ?_)
      rw [hkept, hname, hignored]
      simp [isIgnored, Except.map]
  | false =>
      rw [hname] at hkept
      simp only [Bool.or_false] at hkept
      cases h with
      | passed hpassed =>
          refine .passed (hpassed.imp (fun hignored => ?_) fun hmissing => ?_)
          · rw [hkept, hignored]
            rfl
          · rw [hentries, hmissing]
      | made hignored hentry hattempt =>
          refine .made (by rw [hkept, hignored]; rfl) (by rw [hentries, hentry]) ?_
          rw [attempt_leavingOut halike, hattempt]
      | failed hignored hentry hattempt =>
          refine .failed (by rw [hkept, hignored]; rfl) (by rw [hentries, hentry]) ?_
          rw [attempt_leavingOut halike, hattempt]

/-! ## Getting to the end -/

theorem Outcome.exists_step {items : List Json} (hignored : settings.ignored = .arr items)
    (hfast : settings.failFast.truthy = false) {name : String}
    {modules : List Emit.ClassModule} {failures : List Failure}
    (h : Outcome settings heading document name modules failures) (run : Run) :
    ∃ after, Run.step settings heading document run name = .ok after := by
  unfold Run.step
  cases h with
  | passed hpassed =>
      rw [hignored] at hpassed ⊢
      rcases hpassed with hleft | hmissing
      · rw [hleft]
        exact ⟨_, rfl⟩
      · rw [hmissing, isIgnored]
        split
        next hfault => cases hfault
        · exact ⟨_, rfl⟩
        · exact ⟨_, rfl⟩
  | made hkept hentry hattempt =>
      rw [hkept, hentry]
      simp only [Run.define, hattempt]
      exact ⟨_, rfl⟩
  | failed hkept hentry hattempt =>
      rw [hkept, hentry]
      simp only [Run.define, hattempt, hfast]
      exact ⟨_, rfl⟩

theorem exists_generate {items : List Json} (hread : Document.read schema = .ok document)
    (hignored : settings.ignored = .arr items) (hfast : settings.failFast.truthy = false)
    (houtcomes : ∀ name ∈ definitionNames schema, ∃ modules failures,
      Outcome settings (headingOf settings comment) document name modules failures)
    (hheading : settings.packageFile.truthy = true →
      ∃ lines, headingLines (headingOf settings comment) = .ok lines) :
    ∃ run, generate settings comment schema = .ok run := by
  have hsteps : ∀ name ∈ definitionNames schema, ∀ run, ∃ after,
      Run.step settings (headingOf settings comment) document run name = .ok after := by
    intro name hname run
    obtain ⟨modules, failures, houtcome⟩ := houtcomes name hname
    exact houtcome.exists_step hignored hfast run
  obtain ⟨middle, hmiddle⟩ := exists_foldlM hsteps {}
  obtain ⟨run, hrun⟩ := exists_finish hheading middle
  refine ⟨run, ?_⟩
  unfold generate
  rw [hread]
  exact bind_eq_ok.mpr ⟨middle, hmiddle, hrun⟩

/-! ## Files -/

/-- Apart from the file of the package, what a file holds is the text of a class. -/
theorem Ran.get?_file (h : Ran settings comment schema run document added)
    (hkeys : (definitionNames schema).Nodup) {name : String}
    (hname : settings.packageFile.truthy = true → fileOf name ≠ packageFile) :
    Entries.get? (fileOf name) run.package.files =
      Entries.get? (fileOf name) (run.package.modules.map classFile) := by
  have hfold : run.package.modules.foldl addFile [] = run.package.modules.map classFile := by
    rw [foldl_addFile (h.classes_nodup hkeys) (by simp [Entries.keys]), List.nil_append]
  cases hfile : settings.packageFile.truthy with
  | false => rw [h.files hfile, hfold]
  | true =>
      obtain ⟨lines, -, hfiles⟩ := h.filesOfPackage hfile
      rw [hfiles, Entries.get?_insert_of_ne (hname hfile), hfold]

theorem get?_classFiles_filter (modules : List Emit.ClassModule) (name : String) :
    Entries.get? (fileOf name)
        ((modules.filter fun module => !names.contains module.name).map classFile) =
      if names.contains name then none else Entries.get? (fileOf name) (modules.map classFile) := by
  induction modules with
  | nil => simp [Entries.get?]
  | cons module rest ih =>
      have hcons : ∀ rest : List Emit.ClassModule,
          Entries.get? (fileOf name) ((module :: rest).map classFile) =
            if module.name = name then some module.text
            else Entries.get? (fileOf name) (rest.map classFile) := by
        intro rest
        simp only [List.map_cons, classFile, Entries.get?, fileOf_inj]
      cases hmodule : names.contains module.name with
      | true =>
          rw [List.filter_cons_of_neg (by rw [hmodule]; exact Bool.false_ne_true), ih, hcons]
          by_cases hname : module.name = name
          · rw [← hname, hmodule]
            rfl
          · rw [if_neg hname]
      | false =>
          rw [List.filter_cons_of_pos (by rw [hmodule]; rfl), hcons, hcons, ih]
          by_cases hname : module.name = name
          · rw [if_pos hname, if_pos hname, ← hname, hmodule]
            rfl
          · rw [if_neg hname, if_neg hname]

/-! ## Reordered runs -/

/-- A run that comes to the same as another one, but for the order and what is left out. -/
structure Reordered (settings : Settings) (names : List String) (run other : Run) : Prop where
  modules : other.package.modules.Perm
    (run.package.modules.filter fun module => !names.contains module.name)
  failures : other.package.failures.Perm
    (run.package.failures.filter fun failure =>
      !(names.map some).contains failure.context.definition)
  files : ∀ name, (settings.packageFile.truthy = true → fileOf name ≠ packageFile) →
    Entries.get? (fileOf name) other.package.files =
      if names.contains name then none else Entries.get? (fileOf name) run.package.files

theorem perm_flatMap_filter {α β : Type} {f g : α → List β} {keep : β → Bool}
    {items others : List α} (hperm : others.Perm items)
    (h : ∀ item ∈ items, g item = (f item).filter keep) :
    (others.flatMap g).Perm ((items.flatMap f).filter keep) := by
  rw [List.filter_flatMap, ← List.flatMap_congr h]
  exact hperm.flatMap_right g

theorem outcomeOf_leavingOut {items : List Json} (hread : Document.read schema = .ok document)
    (hignored : settings.ignored = .arr items) (halike : Alike document other)
    (hentries : ∀ name, Entries.get? name other.entries = Entries.get? name document.entries)
    {name : String} {modules : List Emit.ClassModule} {failures : List Failure}
    (h : Outcome settings (headingOf settings comment) document name modules failures) :
    outcomeOf (leavingOut names items settings) (headingOf settings comment) other name =
      (modules.filter (fun module => !names.contains module.name),
        failures.filter fun failure => !(names.map some).contains failure.context.definition) := by
  have hother := (h.leavingOut hignored names halike hentries).eq_outcomeOf
  obtain ⟨hmodules, hfailures⟩ := h.named hread
  have hkeep : (names.map some).contains (some name) = names.contains name := by
    simp
  have hfirst : modules.filter (fun module => !names.contains module.name) =
      if names.contains name then [] else modules := by
    rw [List.filter_congr fun module hmodule => by rw [hmodules module hmodule]]
    cases names.contains name <;> simp
  have hsecond : failures.filter
      (fun failure => !(names.map some).contains failure.context.definition) =
      if names.contains name then [] else failures := by
    rw [List.filter_congr fun failure hfailure => by rw [hfailures failure hfailure, hkeep]]
    cases names.contains name <;> simp
  rw [← hother, hfirst, hsecond]

section Runs

variable {moved : Json} {after : Run} {again : List (List Emit.ClassModule × List Failure)}
  {items : List Json} (hran : Ran settings comment schema run document added)
  (hignored : settings.ignored = .arr items) (halike : Alike document other)
  (hentries : ∀ name, Entries.get? name other.entries = Entries.get? name document.entries)
  (hnames : (definitionNames moved).Perm (definitionNames schema))

include hran hignored halike hentries hnames in
/-- What came to an end comes to an end in another order, too. -/
theorem Ran.exists_leavingOut (names : List String)
    (hother : Document.read moved = .ok other) (hfast : settings.failFast.truthy = false) :
    ∃ after, generate (leavingOut names items settings) comment moved = .ok after := by
  refine exists_generate hother rfl hfast (fun name hname => ?_) fun hfile => ?_
  · obtain ⟨out, -, houtcome⟩ := exists_right_of_mem hran.outcomes (hnames.mem_iff.mp hname)
    exact ⟨_, _, houtcome.leavingOut hignored names halike hentries⟩
  · obtain ⟨lines, hlines, -⟩ := hran.filesOfPackage hfile
    exact ⟨lines, hlines⟩

include hran hignored halike hentries hnames in
theorem Ran.reordered (hnodup : (definitionNames schema).Nodup)
    (hagain : Ran (leavingOut names items settings) comment moved after other again) :
    Reordered settings names run after := by
  have hsame : ∀ name ∈ definitionNames schema,
      outcomeOf (leavingOut names items settings) (headingOf settings comment) other name =
        ((outcomeOf settings (headingOf settings comment) document name).1.filter
            (fun module => !names.contains module.name),
          (outcomeOf settings (headingOf settings comment) document name).2.filter
            fun failure => !(names.map some).contains failure.context.definition) := by
    intro name hname
    obtain ⟨out, -, houtcome⟩ := exists_right_of_mem hran.outcomes hname
    rw [← houtcome.eq_outcomeOf, outcomeOf_leavingOut hran.read hignored halike hentries houtcome]
  have hmodules : after.package.modules.Perm
      (run.package.modules.filter fun module => !names.contains module.name) := by
    rw [hagain.modules, hran.modules, hagain.added_eq, hran.added_eq, List.flatMap_map,
      List.flatMap_map]
    exact perm_flatMap_filter hnames fun name hname => congrArg Prod.fst (hsame name hname)
  have hagainNodup : (definitionNames moved).Nodup := hnames.nodup_iff.mpr hnodup
  have hfiles : (Entries.keys (after.package.modules.map classFile)).Nodup := by
    have hplaces : Entries.keys (after.package.modules.map classFile) =
        after.package.classes.map fileOf := by
      simp [Entries.keys, classes, classFile, Function.comp_def]
    rw [hplaces]
    exact (hagain.classes_nodup hagainNodup).map fun first second => fileOf_inj.mp
  refine ⟨hmodules, ?_, fun name hname => ?_⟩
  · rw [hagain.failures, hran.failures, hagain.added_eq, hran.added_eq, List.flatMap_map,
      List.flatMap_map]
    exact perm_flatMap_filter hnames fun name hname => congrArg Prod.snd (hsame name hname)
  · rw [hagain.get?_file hagainNodup hname, hran.get?_file hnodup hname,
      Entries.get?_eq_of_perm (hmodules.map classFile) hfiles, get?_classFiles_filter]

end Runs

/-- Planned and checked on its own, every definition comes to the same over both documents. -/
def SameAttempts (settings : Settings) (comment : Json) (names : List String) (items : List Json)
    (schema reordered : Json) : Prop :=
  ∃ document other, Document.read schema = .ok document ∧ Document.read reordered = .ok other ∧
    (∀ name, Entries.get? name other.entries = Entries.get? name document.entries) ∧
    ∀ entry, attempt (leavingOut names items settings) (headingOf settings comment) other entry =
      attempt settings (headingOf settings comment) document entry

/-- One resolver for all definitions is as good as one for each, a definition comes to the same
in every order of the definitions and whatever else is left out, and so does a whole run, but for
the order of its classes and failures. -/
theorem generate_reordered {definitions others : List (String × Json)} {items : List Json}
    (hdefinitions : schema.get? "definitions" = some (.obj definitions))
    (hkeys : (Entries.keys definitions).Nodup) (hperm : definitions.Perm others)
    (hignored : settings.ignored = .arr items) (hfast : settings.failFast.truthy = false)
    (comment : Json) (names : List String) :
    (∀ settings schema, Shared.generate settings comment schema =
      generate settings comment schema) ∧
    SameAttempts settings comment names items schema (withDefinitions others schema) ∧
    ∀ run, generate settings comment schema = .ok run →
      ∃ after, generate (leavingOut names items settings) comment
          (withDefinitions others schema) = .ok after ∧
        Reordered settings names run after := by
  have hreordered : (withDefinitions others schema).get? "definitions" = some (.obj others) :=
    get?_withDefinitions hdefinitions
  obtain ⟨document, hread⟩ := exists_read hdefinitions
  obtain ⟨other, hother⟩ := exists_read hreordered
  have halike := alike_withDefinitions hdefinitions hkeys hperm hread hother
  have hentries := get?_entries_withDefinitions hdefinitions hkeys hperm hread hother
  refine ⟨fun settings schema => Shared.generate_eq settings comment schema,
    ⟨document, other, hread, hother, hentries, attempt_leavingOut halike⟩, fun run hrun => ?_⟩
  have hnames : (definitionNames (withDefinitions others schema)).Perm
      (definitionNames schema) := by
    simp only [definitionNames, hreordered, hdefinitions]
    exact (hperm.map Prod.fst).symm
  have hnodup : (definitionNames schema).Nodup := by
    rwa [definitionNames, hdefinitions]
  obtain ⟨found, added, hran⟩ := generate_eq_ok hrun
  obtain rfl : document = found := Except.ok.inj (hread.symm.trans hran.read)
  obtain ⟨after, hafter⟩ :=
    hran.exists_leavingOut hignored halike hentries hnames names hother hfast
  obtain ⟨found, again, hagain⟩ := generate_eq_ok hafter
  obtain rfl : other = found := Except.ok.inj (hother.symm.trans hagain.read)
  exact ⟨after, hafter, hran.reordered hignored halike hentries hnames hnodup hagain⟩

/-! ## Two orders of a document -/

/-- A class that refers to one, one that refers to nothing and one that can not be read. -/
def roomDefinitions : List (String × Json) := [
  ("Booking", .obj [("properties", .obj [("guest", .obj [("$ref", .str "#/definitions/Guest")])])]),
  ("Guest", .obj [("properties", .obj [("name", .obj [("type", .str "string")])])]),
  ("Room", .obj [("properties", .obj [("beds", .obj [("type", .int 2)])])])]

def roomSchema : Json := .obj [("definitions", .obj roomDefinitions)]

def roomRun : Run := runOf uncheckedSettings .null roomSchema

theorem generate_reordered_rooms :
    generate uncheckedSettings .null roomSchema = .ok roomRun ∧
      roomRun.package.classes = ["Booking", "Guest"] ∧ roomRun.package.failures.length = 1 ∧
      ∃ after, generate (leavingOut ["Guest"] [] uncheckedSettings) .null
          (withDefinitions roomDefinitions.reverse roomSchema) = .ok after ∧
        Reordered uncheckedSettings ["Guest"] roomRun after := by
  have hrun : generate uncheckedSettings .null roomSchema = .ok roomRun := rfl
  have hreverse : roomDefinitions.Perm roomDefinitions.reverse := (List.reverse_perm _).symm
  refine ⟨hrun, by decide +kernel, by decide +kernel, ?_⟩
  exact (generate_reordered rfl (by decide) hreverse rfl rfl .null ["Guest"]).2.2 roomRun hrun

end ModelMint.Package
