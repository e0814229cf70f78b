import ModelMint.Proofs.Package.Files

/-!
# The layout of a package

Every class has a file of its own, in the order of the classes, and the file of the
package comes last: it imports the classes and lists them.  A class that is called like
that file is the one exception.
-/

namespace ModelMint.Package

open ModelMint.Schema
open ModelMint.Blueprint

/-! ## Reading the file of the package -/

/-- The name in a line that is written around it, up to the character behind it. -/
def writtenName? (write : String → String) (start : Nat) (stop : Char) (line : List Char) :
    Option String :=
  let name := String.ofList ((line.drop start).takeWhile (· != stop))
  if line = (write name).toList then some name else none

def listLine (name : String) : String := "    \"" ++ name ++ "\","

/-- The names that the lines of a text import from its own package. -/
def importedNames (text : String) : List String :=
  (Text.parts '\n' text.toList).filterMap (writtenName? Emit.importLine 6 ' ')

/-- The names that stand as texts in lines of their own. -/
def listedNames (text : String) : List String :=
  (Text.parts '\n' text.toList).filterMap (writtenName? listLine 5 '"')

section Reading

variable {write : String → String} {start : Nat} {stop : Char}

/-- Lines that begin otherwise hold no names. -/
theorem filterMap_writtenName?_eq_nil {first : Char} {lines : List (List Char)}
    (hwrite : ∀ name, (write name).toList.head? = some first)
    (hlines : ∀ line ∈ lines, line.head? ≠ some first) :
    lines.filterMap (writtenName? write start stop) = [] := by
  refine List.filterMap_eq_nil_iff.mpr fun line hline => ?_
  unfold writtenName?
  simp only
  split
  next hsame =>
    refine absurd ?_ (hlines line hline)
    rw [hsame, hwrite]
  · rfl

theorem writtenName?_write {name : String} (before after : List Char)
    (hwrite : (write name).toList = before ++ name.toList ++ stop :: after)
    (hstart : before.length = start) (hstop : stop ∉ name.toList) :
    writtenName? write start stop (write name).toList = some name := by
  have hname : (name.toList ++ stop :: after).takeWhile (· != stop) = name.toList := by
    rw [List.takeWhile_append_of_pos (by simpa using fun c hc => (ne_of_mem_of_not_mem hc hstop))]
    simp
  have hread : String.ofList (((write name).toList.drop start).takeWhile (· != stop)) = name := by
    rw [hwrite, List.append_assoc, ← hstart, List.drop_left, hname, String.ofList_toList]
  unfold writtenName?
  simp only [hread, if_true]

theorem filterMap_map_eq_self {α β : Type} {f : α → β} {g : β → Option α} {items : List α}
    (h : ∀ item ∈ items, g (f item) = some item) : (items.map f).filterMap g = items := by
  induction items with
  | nil => rfl
  | cons item rest ih =>
      obtain ⟨hfirst, hrest⟩ := List.forall_mem_cons.mp h
      rw [List.map_cons, List.filterMap_cons_some hfirst, ih hrest]

theorem parts_unlines {lines : List String} (h : ∀ line ∈ lines, '\n' ∉ line.toList) :
    Text.parts '\n' (Emit.unlines lines).toList = lines.map String.toList ++ [[]] := by
  induction lines with
  | nil => simp [Emit.unlines, Text.parts]
  | cons line rest ih =>
      obtain ⟨hfirst, hrest⟩ := List.forall_mem_cons.mp h
      rw [Emit.toList_unlines_cons, Text.parts_append hfirst, ih hrest]
      rfl

end Reading

/-- Below the character 128 a plain name has only letters, digits and underscores. -/
theorem not_mem_of_isPlainName {name : List Char} (h : Text.isPlainName name = true) {c : Char}
    (hascii : c.toNat < 128) (hother : (c.isAlphanum || c == '_') = false) : c ∉ name := by
  obtain ⟨halnum, hunderscore⟩ := Bool.or_eq_false_iff.mp hother
  have hcontinue : Text.isNameContinue c = false := by
    simp [Text.isNameContinue, hascii, halnum, hunderscore]
  have hstart : Text.isNameStart c = false := by
    have halpha : c.isAlpha = false := by
      simp only [Char.isAlphanum, Bool.or_eq_false_iff] at halnum
      exact halnum.1
    simp [Text.isNameStart, hascii, halpha, hunderscore]
  obtain ⟨hidentifier, -⟩ := Bool.and_eq_true_iff.mp h
  cases name with
  | nil => exact List.not_mem_nil
  | cons first rest =>
      obtain ⟨hfirst, hrest⟩ := Bool.and_eq_true_iff.mp hidentifier
      intro hmem
      rcases List.mem_cons.mp hmem with rfl | hlater
      · rw [hstart] at hfirst
        cases hfirst
      · rw [List.all_eq_true.mp hrest c hlater] at hcontinue
        cases hcontinue

/-- What stands below the heading of the file of a package. -/
def packageBody (names : List String) : String :=
  Emit.unlines (names.map Emit.importLine ++ ["", "__all__ = ["] ++ names.map listLine ++ ["]"])

theorem packageText_eq (heading names : List String) :
    Emit.packageText heading names =
      Emit.unlines (Emit.headingLines heading) ++ packageBody names := by
  rw [packageBody, ← Emit.unlines_append]
  simp only [Emit.packageText, List.append_assoc]
  rfl

section Names

variable {names : List String}

theorem parts_packageBody (h : ∀ name ∈ names, Text.isPlainName name.toList = true) :
    Text.parts '\n' (packageBody names).toList =
      names.map (fun name => (Emit.importLine name).toList) ++ ["".toList, "__all__ = [".toList] ++
        names.map (fun name => (listLine name).toList) ++ ["]".toList, []] := by
  have hname : ∀ name ∈ names, '\n' ∉ name.toList :=
    fun name hmem => not_mem_of_isPlainName (h name hmem) (by decide) (by decide)
  rw [packageBody, parts_unlines]
  · simp [Function.comp_def]
  · intro line hline
    simp only [List.mem_append, List.mem_map, List.mem_cons, List.not_mem_nil, or_false] at hline
    rcases hline with ((⟨name, hmem, rfl⟩ | rfl | rfl) | ⟨name, hmem, rfl⟩) | rfl
    · simp [Emit.importLine, hname name hmem]
    · decide
    · decide
    · simp [listLine, hname name hmem]
    · decide

/-- The file of a package imports the classes that it is written for. -/
theorem importedNames_packageBody (h : ∀ name ∈ names, Text.isPlainName name.toList = true) :
    importedNames (packageBody names) = names := by
  have himport : ∀ name ∈ names,
      writtenName? Emit.importLine 6 ' ' (Emit.importLine name).toList = some name := by
    intro name hname
    refine writtenName?_write "from .".toList ("import " ++ name).toList
      (by simp [Emit.importLine]) rfl ?_
    exact not_mem_of_isPlainName (h name hname) (by decide) (by decide)
  have hfirst : ∀ name, (Emit.importLine name).toList.head? = some 'f' := by simp [Emit.importLine]
  rw [importedNames, parts_packageBody h, List.filterMap_append, List.filterMap_append,
    List.filterMap_append, filterMap_map_eq_self himport,
    filterMap_writtenName?_eq_nil hfirst (by decide),
    filterMap_writtenName?_eq_nil hfirst (by simp [listLine]),
    filterMap_writtenName?_eq_nil hfirst (by decide)]
  simp

theorem listedNames_packageBody (h : ∀ name ∈ names, Text.isPlainName name.toList = true) :
    listedNames (packageBody names) = names := by
  have hlist : ∀ name ∈ names, writtenName? listLine 5 '"' (listLine name).toList = some name := by
    intro name hname
    refine writtenName?_write "    \"".toList [','] (by simp [listLine]) rfl ?_
    exact not_mem_of_isPlainName (h name hname) (by decide) (by decide)
  have hfirst : ∀ name, (listLine name).toList.head? = some ' ' := by simp [listLine]
  rw [listedNames, parts_packageBody h, List.filterMap_append, List.filterMap_append,
    List.filterMap_append, filterMap_map_eq_self hlist,
    filterMap_writtenName?_eq_nil hfirst (by simp [Emit.importLine]),
    filterMap_writtenName?_eq_nil hfirst (by decide),
    filterMap_writtenName?_eq_nil hfirst (by decide)]
  simp

end Names

/-! ## The files of a run -/

variable {settings : Settings} {comment schema : Json} {document : Document} {run : Run}
  {added : List (List Emit.ClassModule × List Failure)} {module : Emit.ClassModule}

def classFile (module : Emit.ClassModule) : String × String := (fileOf module.name, module.text)

/-- The file of a package makes the classes available, whatever its heading is. -/
def Exposes (classes : List String) (text : String) : Prop :=
  ∃ heading body, text = Emit.unlines (Emit.headingLines heading) ++ body ∧
    importedNames body = classes ∧ listedNames body = classes

/-- A file for each class in order, and then that of the package if the settings ask for it. -/
def LaidOut (settings : Settings) (package : Package) : Prop :=
  if settings.packageFile.truthy then
    ∃ text, package.files = package.modules.map classFile ++ [(packageFile, text)] ∧
      Exposes package.classes text
  else package.files = package.modules.map classFile

theorem classes_sublist_of_outcomes {names : List String}
    (hread : Document.read schema = .ok document)
    (houtcomes : List.Forall₂ (fun name out =>
      Outcome settings (headingOf settings comment) document name out.1 out.2) names added) :
    ((added.flatMap Prod.fst).map (·.name)).Sublist names := by
  induction houtcomes with
  | nil => exact .slnil
  | @cons name out names added houtcome _ ih =>
      rw [List.flatMap_cons, List.map_append]
      have hname : ∀ module ∈ out.1, module.name = name := by
        intro module hmodule
        obtain ⟨definition, plan, rfl, horigin⟩ := houtcome.origin hread hmodule
        exact horigin.name
      generalize out.1 = modules at houtcome hname
      generalize out.2 = failures at houtcome
      cases houtcome with
      | passed => exact ih.cons _
      | failed => exact ih.cons _
      | made =>
          rw [List.map_singleton, hname _ List.mem_cons_self]
          exact ih.cons_cons _

theorem Ran.classes_nodup (h : Ran settings comment schema run document added)
    (hkeys : (definitionNames schema).Nodup) : run.package.classes.Nodup := by
  rw [classes, h.modules]
  exact hkeys.sublist (classes_sublist_of_outcomes h.read h.outcomes)

theorem foldl_addFile {modules : List Emit.ClassModule} {files : List (String × String)}
    (hnames : (modules.map (·.name)).Nodup)
    (hnew : ∀ module ∈ modules, fileOf module.name ∉ Entries.keys files) :
    modules.foldl addFile files = files ++ modules.map classFile := by
  induction modules generalizing files with
  | nil => simp
  | cons first rest ih =>
      obtain ⟨hfirst, hrest⟩ := List.forall_mem_cons.mp hnew
      obtain ⟨hdistinct, hnames⟩ := List.nodup_cons.mp hnames
      have hadd : addFile files first = files ++ [classFile first] := by
        refine Entries.insert_of_not_contains _ ?_
        rwa [← Bool.not_eq_true, Entries.contains_iff_mem_keys]
      rw [List.foldl_cons, hadd, ih hnames]
      · simp
      · intro module hmodule
        rw [Entries.keys, List.map_append, List.mem_append, not_or]
        refine ⟨hrest module hmodule, ?_⟩
        rw [List.map_singleton, List.mem_singleton, classFile, fileOf_inj]
        intro hname
        exact hdistinct (List.mem_map.mpr ⟨module, hmodule, hname⟩)

theorem mem_keys_classFiles {modules : List Emit.ClassModule} {name : String} :
    fileOf name ∈ Entries.keys (modules.map classFile) ↔ name ∈ modules.map (·.name) := by
  simp only [Entries.keys, classFile, List.map_map, List.mem_map, Function.comp_apply]
  exact exists_congr fun module => and_congr_right fun _ => fileOf_inj

theorem Ran.plain_of_mem_classes (h : Ran settings comment schema run document added) :
    ∀ name ∈ run.package.classes, Text.isPlainName name.toList = true := by
  intro name hname
  obtain ⟨module, hmodule, rfl⟩ := List.mem_map.mp hname
  obtain ⟨definition, plan, horigin⟩ := h.exists_origin hmodule
  rw [horigin.name]
  exact horigin.planned_members.plain

/-- The files are laid out unless the file of the package replaces that of a class. -/
theorem Ran.laidOut_iff (h : Ran settings comment schema run document added)
    (hkeys : (definitionNames schema).Nodup) :
    LaidOut settings run.package ↔
      (settings.packageFile.truthy = true → "__init__" ∉ run.package.classes) := by
  have hclassFiles : run.package.modules.foldl addFile [] = run.package.modules.map classFile := by
    rw [foldl_addFile (h.classes_nodup hkeys) (by simp [Entries.keys]), List.nil_append]
  have hplace : packageFile ∈ Entries.keys (run.package.modules.map classFile) ↔
      "__init__" ∈ run.package.classes := by
    rw [show packageFile = fileOf "__init__" from rfl]
    exact mem_keys_classFiles
  unfold LaidOut
  cases hfile : settings.packageFile.truthy with
  | false =>
      rw [h.files hfile, hclassFiles]
      simp
  | true =>
      obtain ⟨heading, -, hfiles⟩ := h.filesOfPackage hfile
      rw [if_pos rfl, hfiles, hclassFiles, forall_prop_of_true rfl, ← hplace]
      constructor
      · rintro ⟨text, htext, -⟩ hmem
        -- then the file of the package replaces one of a class, and none comes last
        have hkeys := congrArg Entries.keys htext
        rw [Entries.keys_insert_of_contains _ (Entries.contains_iff_mem_keys.mpr hmem)] at hkeys
        simp [Entries.keys] at hkeys
      · intro hnew
        refine ⟨_, Entries.insert_of_not_contains _ ?_, heading, _, packageText_eq _ _, ?_, ?_⟩
        · rwa [← Bool.not_eq_true, Entries.contains_iff_mem_keys]
        · exact importedNames_packageBody h.plain_of_mem_classes
        · exact listedNames_packageBody h.plain_of_mem_classes

/-- Every class module is rendered for the definition that it is called like, and the files of a
run are laid out exactly where no class is called like the file of the package. -/
theorem files_laid_out_iff (hrun : generate settings comment schema = .ok run)
    (hkeys : (definitionNames schema).Nodup) :
    (∀ module ∈ run.package.modules, ∃ document definition plan, definition.name = module.name ∧
      Origin settings comment schema document definition plan module) ∧
    (LaidOut settings run.package ↔
      (settings.packageFile.truthy = true → "__init__" ∉ run.package.classes)) := by
  obtain ⟨document, added, hran⟩ := generate_eq_ok hrun
  refine ⟨fun module hmodule => ?_, hran.laidOut_iff hkeys⟩
  obtain ⟨definition, plan, horigin⟩ := hran.exists_origin hmodule
  exact ⟨document, definition, plan, horigin.name.symm, horigin⟩

/-! ## A class called like the file of the package -/

def initSchema (name : String) : Json := .obj [("definitions", .obj [
  ("Room", .obj [("properties", .obj [("beds", .obj [("type", .str "integer")])])]),
  (name, .obj [("properties", .obj [("beds", .obj [("type", .str "integer")])])])])]

def initRun (name : String) : Run := runOf uncheckedSettings .null (initSchema name)

theorem init_class_not_laid_out :
    generate uncheckedSettings .null (initSchema "__init__") = .ok (initRun "__init__") ∧
      (initRun "__init__").package.classes = ["Room", "__init__"] ∧
      ¬ LaidOut uncheckedSettings (initRun "__init__").package := by
  have hlength : (initRun "__init__").package.files.length = 2 := by decide +kernel
  have hmodules : (initRun "__init__").package.modules.length = 2 := by decide +kernel
  refine ⟨rfl, by decide +kernel, ?_⟩
  rintro ⟨text, htext, -⟩
  have hlonger := congrArg List.length htext
  simp [hlength, hmodules] at hlonger

theorem files_laid_out_iff_suite :
    LaidOut uncheckedSettings (initRun "Suite").package := by
  have hclasses : (initRun "Suite").package.classes = ["Room", "Suite"] := by decide +kernel
  have hrun : generate uncheckedSettings .null (initSchema "Suite") = .ok (initRun "Suite") := rfl
  refine (files_laid_out_iff hrun (by decide)).2.mpr fun _ => ?_
  simp [hclasses]

end ModelMint.Package
