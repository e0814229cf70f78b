import ModelMint.Proofs.Emit.Written
import ModelMint.Proofs.Instance.Beginning
import ModelMint.Proofs.Package.Layout

/-!
# The files of a checked run

Where the settings ask for the check, no class gets into a package without it.  The file
of the package is the one that no check stands before, and only the comment decides
whether it can be read.
-/

namespace ModelMint.Package

open ModelMint.Schema
open ModelMint.Blueprint
open ModelMint.Emit (Unbroken)

variable {settings : Settings} {comment heading schema : Json} {document : Document} {run : Run}
  {definition : Definition} {module : Emit.ClassModule}

/-! ## Texts of files -/

theorem mem_insert {file entry : String × String} {files : List (String × String)}
    (h : entry ∈ Entries.insert file.1 file.2 files) : entry ∈ files ∨ entry.2 = file.2 := by
  induction files with
  | nil =>
      rw [List.mem_singleton.mp h]
      exact .inr rfl
  | cons first rest ih =>
      obtain ⟨other, old⟩ := first
      rw [Entries.insert] at h
      split at h
      · rcases List.mem_cons.mp h with rfl | hrest
        · exact .inr rfl
        · exact .inl (List.mem_cons_of_mem _ hrest)
      · rcases List.mem_cons.mp h with rfl | hrest
        · exact .inl List.mem_cons_self
        · exact (ih hrest).imp_left (List.mem_cons_of_mem _)

theorem mem_foldl_addFile {modules : List Emit.ClassModule} {files : List (String × String)}
    {entry : String × String} (h : entry ∈ modules.foldl addFile files) :
    entry ∈ files ∨ ∃ module ∈ modules, entry.2 = module.text := by
  induction modules generalizing files with
  | nil => exact .inl h
  | cons first rest ih =>
      rcases ih h with hadded | ⟨module, hmodule, htext⟩
      · exact (@mem_insert (fileOf first.name, first.text) entry files hadded).imp_right
          fun htext => ⟨first, List.mem_cons_self, htext⟩
      · exact .inr ⟨module, List.mem_cons_of_mem _ hmodule, htext⟩

/-! ## Checked texts -/

/-- Whatever classes it lists, the file of the package is read under lines that stay lines. -/
theorem validate_packageText {lines classNames : List String}
    (hlines : ∀ line ∈ lines, Unbroken line.toList ∧ Text.NullFree line.toList)
    (hnames : ∀ name ∈ classNames, Text.isPlainName name.toList = true) :
    Source.validate (Emit.packageText lines classNames) = .ok none := by
  have hnull : Text.NullFree (Emit.packageText lines classNames).toList := by
    have hname : ∀ name ∈ classNames, Text.NullFree name.toList := fun name hname =>
      (Text.bare_of_isPlainName (hnames name hname)).nullFree
    have hempty : Text.NullFree "".toList := by decide
    have hopen : Text.NullFree "__all__ = [".toList := by decide
    have hclose : Text.NullFree "]".toList := by decide
    rw [Emit.packageText, Emit.nullFree_unlines]
    simp only [Emit.linesNullFree_append, Emit.linesNullFree_cons, Emit.linesNullFree_nil,
      Emit.linesNullFree_map, hempty, hopen, hclose, and_true]
    refine ⟨⟨Emit.linesNullFree_headingLines fun line hline => (hlines line hline).2,
      fun name hmem => Emit.nullFree_importLine (hname name hmem)⟩, fun name hmem => ?_⟩
    have hfront : Text.NullFree "    \"".toList := by decide
    have hback : Text.NullFree "\",".toList := by decide
    simp only [String.toList_append, Text.nullFree_append, hfront, hback, hname name hmem, and_self]
  unfold Source.validate
  rw [hasNull_eq_false hnull,
    Emit.isValid_packageText (fun line hline => (hlines line hline).1) hnames]
  rfl

/-! ## Files of a run -/

/-- The file of the package, where there is one, can be read. -/
def PackageFileParses (settings : Settings) (comment : Json) (package : Package) : Prop :=
  settings.packageFile.truthy = true → ∀ lines, headingLines (headingOf settings comment) = .ok lines →
    Source.validate (Emit.packageText lines package.classes) = .ok none

/-- A checked run has files that can be read, perhaps but for the file of the package; and that
one can be read as well if every line of the comment is a line. -/
theorem files_parse_iff (hvalidate : settings.output.validate.truthy = true)
    (hrun : generate settings comment schema = .ok run) :
    ((∀ file ∈ run.package.files, Source.validate file.2 = .ok none) ↔
      PackageFileParses settings comment run.package) ∧
    ((∀ lines, headingLines (headingOf settings comment) = .ok lines →
      ∀ line ∈ lines, Unbroken line.toList ∧ Text.NullFree line.toList) →
        ∀ file ∈ run.package.files, Source.validate file.2 = .ok none) := by
  obtain ⟨document, added, hran⟩ := generate_eq_ok hrun
  have hmodules : ∀ module ∈ run.package.modules, Source.validate module.text = .ok none := by
    intro module hmodule
    obtain ⟨definition, plan, horigin⟩ := hran.exists_origin hmodule
    exact validate_of_checkSource hvalidate horigin.valid
  have hclasses : ∀ file ∈ run.package.modules.foldl addFile [],
      Source.validate file.2 = .ok none := by
    intro file hfile
    rcases mem_foldl_addFile hfile with hnone | ⟨module, hmodule, htext⟩
    · cases hnone
    · rw [htext]
      exact hmodules module hmodule
  have hiff : (∀ file ∈ run.package.files, Source.validate file.2 = .ok none) ↔
      PackageFileParses settings comment run.package := by
    unfold PackageFileParses
    cases hpackage : settings.packageFile.truthy with
    | false =>
        rw [hran.files hpackage]
        exact iff_of_true hclasses nofun
    | true =>
        obtain ⟨lines, hlines, hfiles⟩ := hran.filesOfPackage hpackage
        rw [hfiles]
        constructor
        · intro hall _ other hother
          obtain rfl : lines = other := Except.ok.inj (hlines.symm.trans hother)
          exact hall (packageFile, _) (Entries.mem_of_get? (Entries.get?_insert_self _ _ _))
        · intro hparses file hfile
          rcases @mem_insert (packageFile, _) file _ hfile with hclass | htext
          · exact hclasses file hclass
          · rw [htext]
            exact hparses rfl lines hlines
  refine ⟨hiff, fun hcomment => hiff.mpr fun _ lines hlines => ?_⟩
  exact validate_packageText (hcomment lines hlines) hran.plain_of_mem_classes

theorem files_parse_iff_endless :
    generate {} .null endlessSchema = .ok endlessRun ∧
      ∀ file ∈ endlessRun.package.files, Source.validate file.2 = .ok none := by
  refine ⟨endless_generated, (files_parse_iff rfl endless_generated).2 fun lines hlines => ?_⟩
  obtain rfl : [] = lines := Except.ok.inj hlines
  nofun

/-! ## A comment of two lines -/

/-- What stands behind the line end is no comment. -/
def foldedComment : Json := .arr [.str "by\nhand )"]

def bareRoomSchema : Json := .obj [("definitions", .obj [("Room", .obj [])])]

def bareRoomDocument : Document where
  raw := bareRoomSchema
  entries := [("Room", .ok { name := "Room", path := "#/definitions/Room" })]

def bareRoomModule : Emit.ClassModule :=
  Emit.standardModule ["by\nhand )"] { name := "Room", path := "#/definitions/Room" }

def bareRoomFailure : Failure where
  cause := .unwritable .invalidSource
  context := { definition := some "Room", path := some "#/definitions/Room" }

def foldedRun : Run :=
  match Run.finish {} foldedComment (Run.addFailure "Room" bareRoomFailure {}) with
  | .ok run => run
  | .error _ => {}

theorem folded_generated : generate {} foldedComment bareRoomSchema = .ok foldedRun := by
  have hread : Document.read bareRoomSchema = .ok bareRoomDocument := rfl
  have hcompose : compose {} foldedComment bareRoomDocument
      { name := "Room", path := "#/definitions/Room" } = .ok bareRoomModule := rfl
  have hinvalid : Source.validate bareRoomModule.text =
      .ok (some { cause := .unwritable .invalidSource }) := by
    refine validate_of_read false ?_
    rw [Emit.ClassModule.text, Emit.toList_unlines]
    decide +kernel
  have hattempt := attempt_of_invalid hcompose rfl hinvalid
  have hfinish : generate {} foldedComment bareRoomSchema =
      Run.finish {} foldedComment (Run.addFailure "Room" bareRoomFailure {}) :=
    generate_of_step hread rfl (step_of_refused rfl rfl hattempt rfl)
  rw [hfinish]
  rfl

/-- The check refuses the class under the comment, and the file of the package is made. -/
theorem folded_comment_not_parsed :
    ({} : Settings).output.validate = .bool true ∧
      generate {} foldedComment bareRoomSchema = .ok foldedRun ∧
      ¬ ∀ file ∈ foldedRun.package.files, Source.validate file.2 = .ok none := by
  refine ⟨rfl, folded_generated, fun hall => ?_⟩
  have hparsed : ∀ name text, (name, text) ∈ foldedRun.package.files →
      Source.validate text = .ok none := fun _ _ hmem => hall _ hmem
  have hfile : (packageFile, Emit.packageText ["by\nhand )"] []) ∈ foldedRun.package.files :=
    List.mem_singleton_self _
  have hrefused : Source.validate (Emit.packageText ["by\nhand )"] []) =
      .ok (some { cause := .unwritable .invalidSource }) := by
    refine validate_of_read false ?_
    rw [Emit.packageText, Emit.toList_unlines]
    decide +kernel
  have hsame := Except.ok.inj (hrefused.symm.trans (hparsed _ _ hfile))
  exact Option.some_ne_none _ hsame

end ModelMint.Package
