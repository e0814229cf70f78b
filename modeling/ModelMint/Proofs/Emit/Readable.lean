import ModelMint.Proofs.Emit.Trees
import ModelMint.Proofs.Source.Quotations
import ModelMint.Proofs.Text.PlainNames
import ModelMint.Source.Validity

/-!
# Modules can be read

A module whose names are plain, whose comments stay on their lines and whose types are
written expressions is read as the statements of its trees, unless a value does not fit
the bounds for brackets and digits.
-/

namespace ModelMint.Emit

open ModelMint.Blueprint
open ModelMint.Source (Expr Line Head Parameter Tree)

/-! ## Written modules -/

/-- A text that stays on its line. -/
def Unbroken (text : List Char) : Prop := '\n' ∉ text ∧ '\r' ∉ text

theorem Unbroken.append {text more : List Char} (h : Unbroken text) (hmore : Unbroken more) :
    Unbroken (text ++ more) := by
  simp only [Unbroken, List.mem_append, not_or] at *
  exact ⟨⟨h.1, hmore.1⟩, h.2, hmore.2⟩

/-- A name that can be declared. -/
abbrev Plain (name : String) : Prop := Text.isPlainName name.toList = true

section Typed

-- what a type text stands for
variable (typed : String → Expr)

/-- A type text that stands for an expression. -/
structure IsType (text : String) : Prop where
  chars : Source.Piece.charsOf (typed text).pieces = text.toList
  sound : (typed text).Sound
  single : (typed text).isMember = false

structure FieldCode.IsWritten (field : FieldCode) : Prop where
  attr : Plain field.attr
  getter : Plain ("get_" ++ field.attr)
  annotation : IsType typed field.annotation
  comment : ∀ line ∈ field.comment, Unbroken line.toList
  parsed : ∀ operation value, field.start = some (.parsed operation value) → Plain operation
  exported : ∀ operation ∈ field.exported, Plain operation

def Statement.IsWritten : Statement → Prop
  | .elements operation className renamed => Plain operation ∧ Plain className ∧
      Plain (ClassModule.localName className renamed)
  | .within operation _ _ | .moment operation | .oneOf operation _ => Plain operation

structure SetterCode.IsWritten (setter : SetterCode) : Prop where
  attr : Plain setter.attr
  name : Plain ("set_" ++ setter.attr)
  parameterType : IsType typed setter.parameterType
  statements : ∀ statement ∈ setter.statements, statement.IsWritten

structure ClassModule.IsWritten (module : ClassModule) : Prop where
  heading : ∀ line ∈ module.heading, Unbroken line.toList
  references : ∀ name ∈ module.references, Plain name
  baseModule : ∀ part ∈ Text.parts '.' module.baseModule.toList, Text.isPlainName part = true
  baseClass : Plain module.baseClass
  name : Plain module.name
  documentation : ∀ line ∈ module.documentation, Source.HoldsLine line.toList
  constants : ∀ constant ∈ module.constants, Plain constant.name
  fields : ∀ field ∈ module.fields, field.IsWritten typed
  setters : ∀ setter ∈ module.setters, setter.IsWritten typed

end Typed

/-! ## Sound trees -/

section Sound

open Source.Expr (areSound_iff sound_ofLiteral isMember_ofLiteral)

theorem isSilent_comment (width : Nat) {text : List Char} (h : Unbroken text) :
    Source.IsSilent (List.replicate width ' ' ++ '#' :: text) where
  blank := .inr ⟨width, text, rfl⟩
  unbroken := by
    have hblanks : Unbroken (List.replicate width ' ') :=
      ⟨by simp [List.mem_replicate], by simp [List.mem_replicate]⟩
    have hmark : Unbroken ('#' :: text) := by simpa [Unbroken] using h
    exact hblanks.append hmark

theorem sound_empty : (Tree.silent []).Sound := ⟨.inl rfl, by simp, by simp⟩

theorem sound_headingTrees {heading : List String} (h : ∀ line ∈ heading, Unbroken line.toList) :
    ∀ tree ∈ headingTrees heading, tree.Sound := by
  unfold headingTrees
  split
  · simp
  · rw [List.forall_mem_append, List.forall_mem_map, List.forall_mem_singleton]
    refine ⟨fun line hline => ?_, sound_empty⟩
    have hcomment : Unbroken (' ' :: line.toList) := by simpa [Unbroken] using h line hline
    rw [String.toList_append]
    exact isSilent_comment 0 hcomment

theorem sound_importTree {name : String} (h : Plain name) : (importTree name).Sound :=
  ⟨h, rfl, by simp, by simpa using h, by simp⟩

theorem sound_fromTree {path : Expr} {names : List String} (h : path.Sound)
    (hpath : path.isPath = true) (hsome : names ≠ []) (hnames : ∀ name ∈ names, Plain name) :
    (fromTree path names).Sound :=
  ⟨h, hpath, by simpa using hsome, by simpa using hnames, by simp⟩

theorem sound_foldl_attr {rest : List (List Char)} {owner : Expr} (h : owner.Sound)
    (hpath : owner.isPath = true) (hrest : ∀ word ∈ rest, Text.isPlainName word = true) :
    (rest.foldl Expr.attr owner).Sound ∧ (rest.foldl Expr.attr owner).isPath = true := by
  induction rest generalizing owner with
  | nil => exact ⟨h, hpath⟩
  | cons word others ih =>
      obtain ⟨hword, hothers⟩ := List.forall_mem_cons.mp hrest
      exact @ih (.attr owner word) ⟨h, Expr.isPrimary_of_isPath hpath, hword⟩ hpath hothers

theorem sound_pathOf {path : String}
    (h : ∀ part ∈ Text.parts '.' path.toList, Text.isPlainName part = true) :
    (pathOf path).Sound ∧ (pathOf path).isPath = true := by
  unfold pathOf
  split
  next hnil => exact absurd hnil (Text.parts_ne_nil _ _)
  next first rest hparts =>
    rw [hparts] at h
    obtain ⟨hfirst, hrest⟩ := List.forall_mem_cons.mp h
    exact @sound_foldl_attr rest (.name first) hfirst rfl hrest

theorem sound_callOf {operation : String} {arguments : List Expr} (h : Plain operation)
    (harguments : ∀ argument ∈ arguments, argument.Sound ∧ argument.isMember = false) :
    (callOf operation arguments).Sound :=
  ⟨Expr.sound_stored h, rfl, areSound_iff.mpr fun argument hmem => (harguments argument hmem).1,
    List.all_eq_true.mpr fun argument hmem => by rw [(harguments argument hmem).2]; rfl⟩

theorem opensLine_callOf {operation : String} (h : Plain operation) (arguments : List Expr) :
    Source.opensLine (callOf operation arguments).tokens = true := by
  rw [callOf, Expr.tokens_call]
  exact Source.Line.opensLine_append _ (Source.Line.opensLine_stored h)

theorem sound_argument {name : String} (h : Plain name) :
    (nameOf name).Sound ∧ (nameOf name).isMember = false := ⟨h, rfl⟩

theorem sound_literal (value : Json) :
    (Expr.ofLiteral value).Sound ∧ (Expr.ofLiteral value).isMember = false :=
  ⟨sound_ofLiteral value, isMember_ofLiteral value⟩

theorem sound_memberOf (key : String) {value : Expr} (h : value.Sound)
    (hsingle : value.isMember = false) : (memberOf key value).Sound :=
  ⟨Source.isBody_written key.toList, h, hsingle⟩

theorem sound_dict {α : Type} {items : List α} (layout : Option Nat) {key : α → String}
    {value : α → Expr} (h : ∀ item ∈ items, (value item).Sound ∧ (value item).isMember = false) :
    (Expr.dict layout (items.map fun item => memberOf (key item) (value item))).Sound := by
  refine ⟨areSound_iff.mpr ?_, List.all_eq_true.mpr ?_⟩
  · rw [List.forall_mem_map]
    exact fun item hitem => sound_memberOf (key item) (h item hitem).1 (h item hitem).2
  · rw [List.forall_mem_map]
    exact fun _ _ => rfl

theorem plain_fixed : ∀ name ∈ ["annotations", "datetime", "typing", "__future__", "TYPE_CHECKING",
    "Any", "ClassVar", "final", "_FIELDS", "dict", "str", "super", "__init__", "values", "to_dict",
    "__all__"], Plain name := by
  have hall : ["annotations", "datetime", "typing", "__future__", "TYPE_CHECKING", "Any", "ClassVar",
      "final", "_FIELDS", "dict", "str", "super", "__init__", "values", "to_dict", "__all__"].all
        (fun name => Text.isPlainName name.toList) = true := by decide
  exact List.all_eq_true.mp hall

theorem sound_method {name : String} {parameter : Option Parameter} {result : Expr}
    {body : List Tree} (hname : Plain name) (hparameter : ∀ other ∈ parameter, other.Sound)
    (hresult : result.Sound ∧ result.isMember = false) (hbody : ∀ tree ∈ body, tree.Sound)
    (hcode : body.all Tree.isSilent = false) :
    (Tree.block none (.method name.toList parameter result) body).Sound :=
  ⟨⟨hname, hparameter, hresult⟩, by simp, Tree.areSound_iff.mpr hbody, hcode⟩

theorem sound_anyMap : anyMap.Sound ∧ anyMap.isMember = false := by
  have hstr : Plain "str" := plain_fixed _ (by simp)
  have hany : Plain "Any" := plain_fixed _ (by simp)
  have hdict : Plain "dict" := plain_fixed _ (by simp)
  exact ⟨⟨hdict, rfl, ⟨hstr, hany, trivial⟩, rfl, by simp⟩, rfl⟩

theorem sound_baseInit : baseInit.Sound := by
  have hsuper : Plain "super" := plain_fixed _ (by simp)
  exact ⟨⟨⟨hsuper, rfl, trivial, rfl⟩, rfl, plain_fixed "__init__" (by simp)⟩, rfl,
    plain_fixed "values" (by simp)⟩

theorem opensLine_baseInit : Source.opensLine baseInit.tokens = true := by
  have hsuper : Source.opensLine (nameOf "super").tokens = true := by
    rw [nameOf, Expr.tokens_name (plain_fixed "super" (by simp))]
    decide
  rw [baseInit, Expr.tokens_spread (plain_fixed "values" (by simp)),
    Expr.tokens_attr (plain_fixed "__init__" (by simp)), Expr.tokens_call]
  exact Source.Line.opensLine_append _
    (Source.Line.opensLine_append _ (Source.Line.opensLine_append _ hsuper))

variable {typed : String → Expr}

namespace FieldCode

variable {field : FieldCode}

theorem IsWritten.sound_fieldTrees (h : field.IsWritten typed) :
    ∀ tree ∈ fieldTrees typed field, tree.Sound := by
  unfold fieldTrees
  rw [List.forall_mem_append, List.forall_mem_append, List.forall_mem_singleton,
    List.forall_mem_singleton, List.forall_mem_map]
  refine ⟨⟨sound_empty, fun line hline => ?_⟩,
    h.attr, ⟨h.annotation.sound, h.annotation.single⟩, by simp⟩
  have hcomment : Unbroken (':' :: ' ' :: line.toList) := by
    simpa [Unbroken] using h.comment line hline
  rw [String.toList_append]
  exact isSilent_comment 4 hcomment

theorem IsWritten.sound_startTree (h : field.IsWritten typed) :
    ∀ tree ∈ startTree? field, tree.Sound := by
  intro tree htree
  obtain ⟨start, hstart, rfl⟩ := Option.map_eq_some_iff.mp htree
  cases start with
  | literal value => exact ⟨h.attr, sound_literal value⟩
  | parsed operation value =>
      refine ⟨h.attr, sound_callOf (h.parsed operation value hstart) ?_, rfl⟩
      simpa using sound_literal value

theorem IsWritten.sound_exportExpr (h : field.IsWritten typed) :
    (exportExpr field).Sound ∧ (exportExpr field).isMember = false := by
  have hstored : (storedExpr field).Sound := sound_callOf h.getter (by simp)
  unfold exportExpr
  split
  next operation hoperation =>
    exact ⟨sound_callOf (h.exported operation hoperation) (by simpa using ⟨hstored, rfl⟩), rfl⟩
  · exact ⟨hstored, rfl⟩

end FieldCode

theorem Statement.IsWritten.sound_statementTree {attr : String} (hattr : Plain attr)
    {statement : Statement} (h : statement.IsWritten) : (statementTree attr statement).Sound := by
  cases statement with
  | elements operation className renamed =>
      obtain ⟨hoperation, -, hlocal⟩ := h
      refine ⟨sound_callOf hoperation ?_, rfl, opensLine_callOf hoperation _⟩
      simpa using ⟨sound_argument hattr, sound_argument hlocal⟩
  | within operation minimum maximum =>
      refine ⟨sound_callOf h ?_, rfl, opensLine_callOf h _⟩
      simpa using ⟨sound_argument hattr, sound_literal minimum, sound_literal maximum⟩
  | moment operation =>
      refine ⟨hattr, sound_callOf h ?_, rfl⟩
      simpa using sound_argument hattr
  | oneOf operation values =>
      refine ⟨sound_callOf h ?_, rfl, opensLine_callOf h _⟩
      have hvalues : (Expr.list (some 8) (values.map Expr.ofLiteral)).Sound := by
        refine ⟨areSound_iff.mpr ?_, List.all_eq_true.mpr ?_⟩ <;> rw [List.forall_mem_map]
        · exact fun value _ => sound_ofLiteral value
        · exact fun value _ => by rw [isMember_ofLiteral]; rfl
      simpa using ⟨sound_argument hattr, hvalues, rfl⟩

theorem Statement.IsWritten.sound_setterImport {statement : Statement} (h : statement.IsWritten) :
    ∀ tree ∈ setterImportTree? statement, tree.Sound := by
  cases statement with
  | elements operation className renamed =>
      obtain ⟨-, hclass, hlocal⟩ := h
      rintro tree ⟨⟩
      refine ⟨hclass, rfl, by simp, by simpa using hclass, ?_⟩
      cases renamed with
      | false => simp
      | true => simpa using hlocal
  | _ => simp [setterImportTree?]

theorem SetterCode.IsWritten.sound_setterTrees {setter : SetterCode} (h : setter.IsWritten typed)
    {className : String} (hclass : Plain className) :
    ∀ tree ∈ setterTrees typed className setter, tree.Sound := by
  unfold setterTrees
  rw [List.forall_mem_cons, List.forall_mem_singleton]
  refine ⟨sound_empty, sound_method h.name ?_ (sound_argument hclass) ?_ (by simp [Tree.isSilent])⟩
  · rintro other ⟨⟩
    exact ⟨h.attr, h.parameterType.sound, h.parameterType.single⟩
  · simp only [List.forall_mem_append, List.forall_mem_cons, List.forall_mem_map]
    refine ⟨⟨⟨?_, ?_⟩, fun statement hmem => (h.statements statement hmem).sound_statementTree h.attr⟩,
      ⟨h.attr, sound_argument h.attr⟩, ⟨Expr.sound_receiver, rfl⟩, by simp⟩
    · intro tree htree
      obtain ⟨statement, hmem, hmade⟩ := List.mem_filterMap.mp htree
      exact (h.statements statement hmem).sound_setterImport tree hmade
    · split
      · simp
      · simpa using sound_empty

namespace ClassModule.IsWritten

variable {module : ClassModule}

theorem sound_importTrees (h : module.IsWritten typed) : ∀ tree ∈ module.importTrees, tree.Sound := by
  have hfixed : ∀ path name, Plain path → Plain name → (fromTree (nameOf path) [name]).Sound :=
    fun path name hpath hname => sound_fromTree hpath rfl (by simp) (by simpa using hname)
  have hnames : ∀ name ∈ (if module.references.isEmpty then [] else ["TYPE_CHECKING"]) ++
      ["Any", "ClassVar", "final"], Plain name := by
    intro name hname
    apply plain_fixed
    cases hempty : module.references.isEmpty <;> simp [hempty] at hname ⊢ <;> tauto
  obtain ⟨hpath, hdotted⟩ := sound_pathOf h.baseModule
  unfold importTrees
  simp only [List.forall_mem_append, List.forall_mem_cons]
  refine ⟨⟨⟨⟨hfixed _ _ (plain_fixed _ (by simp)) (plain_fixed _ (by simp)), sound_empty, by simp⟩,
    ?_⟩, ?_, sound_empty, ?_, by simp⟩, ?_⟩
  · split
    · simpa using hfixed "datetime" "datetime" (plain_fixed _ (by simp)) (plain_fixed _ (by simp))
    · simp
  · exact sound_fromTree (plain_fixed "typing" (by simp)) rfl (by simp) hnames
  · exact sound_fromTree hpath hdotted (by simp) (by simpa using h.baseClass)
  · split
    · simp
    next hsome =>
      rw [List.forall_mem_cons, List.forall_mem_singleton]
      refine ⟨sound_empty, ⟨plain_fixed "TYPE_CHECKING" (by simp), rfl⟩, by simp,
        Tree.areSound_iff.mpr ?_, ?_⟩
      · rw [List.forall_mem_map]
        exact fun name hname => sound_importTree (h.references name hname)
      · cases hreferences : module.references with
        | nil => simp [hreferences] at hsome
        | cons first rest => rfl

theorem sound_constantTrees (h : module.IsWritten typed) :
    ∀ tree ∈ module.constantTrees, tree.Sound := by
  unfold constantTrees
  split
  · simp
  · rw [List.forall_mem_cons, List.forall_mem_map]
    exact ⟨sound_empty,
      fun constant hmem => ⟨h.constants constant hmem, sound_literal constant.value⟩⟩

theorem sound_nameTableTree (module : ClassModule) : module.nameTableTree.Sound := by
  have hstr : Plain "str" := plain_fixed _ (by simp)
  have hdict : Plain "dict" := plain_fixed _ (by simp)
  have hvar : Plain "ClassVar" := plain_fixed _ (by simp)
  have htable : (Expr.item (nameOf "dict") [nameOf "str", nameOf "str"]).Sound :=
    ⟨hdict, rfl, ⟨hstr, hstr, trivial⟩, rfl, by simp⟩
  refine ⟨plain_fixed "_FIELDS" (by simp), ⟨⟨hvar, rfl, ⟨htable, trivial⟩, rfl, by simp⟩, rfl⟩, ?_⟩
  rintro expr ⟨⟩
  exact ⟨sound_dict _ fun field _ => sound_literal _, rfl⟩

theorem sound_initTrees (h : module.IsWritten typed) : ∀ tree ∈ module.initTrees, tree.Sound := by
  unfold initTrees
  rw [List.forall_mem_cons, List.forall_mem_singleton]
  refine ⟨sound_empty, sound_method (plain_fixed "__init__" (by simp)) ?_ ?_ ?_
    (by simp [Tree.isSilent])⟩
  · rintro other ⟨⟩
    exact ⟨plain_fixed "values" (by simp), plain_fixed "Any" (by simp), rfl⟩
  · refine ⟨?_, rfl⟩
    change "None".toList ∈ Expr.constants
    decide
  · rw [List.forall_mem_append, List.forall_mem_singleton]
    refine ⟨fun tree htree => ?_, sound_baseInit, rfl, opensLine_baseInit⟩
    obtain ⟨field, hfield, hmade⟩ := List.mem_filterMap.mp htree
    exact (h.fields field hfield).sound_startTree tree hmade

theorem sound_exportTrees (h : module.IsWritten typed) :
    ∀ tree ∈ module.exportTrees, tree.Sound := by
  unfold exportTrees
  rw [List.forall_mem_cons, List.forall_mem_singleton]
  refine ⟨sound_empty, sound_method (plain_fixed "to_dict" (by simp)) (by simp) sound_anyMap ?_ rfl⟩
  rw [List.forall_mem_singleton]
  exact ⟨sound_dict _ fun field hfield => (h.fields field hfield).sound_exportExpr, rfl⟩

theorem sound_memberTrees (h : module.IsWritten typed) :
    ∀ tree ∈ module.memberTrees typed, tree.Sound := by
  unfold memberTrees
  simp only [List.forall_mem_append, List.forall_mem_singleton, List.forall_mem_flatMap]
  refine ⟨⟨⟨⟨⟨⟨⟨?_, h.sound_constantTrees⟩, sound_empty⟩, sound_nameTableTree module⟩, ?_⟩,
    h.sound_initTrees⟩, ?_⟩, h.sound_exportTrees⟩
  · exact ⟨Source.isBlock_documentationBody h.documentation, rfl, rfl⟩
  · exact fun field hfield => (h.fields field hfield).sound_fieldTrees
  · exact fun setter hsetter => (h.setters setter hsetter).sound_setterTrees h.name

theorem areSound_trees (h : module.IsWritten typed) : Tree.AreSound (module.trees typed) := by
  rw [Tree.areSound_iff]
  unfold trees classTree
  simp only [List.forall_mem_append, List.forall_mem_cons]
  refine ⟨⟨⟨sound_headingTrees h.heading, h.sound_importTrees⟩, sound_empty, sound_empty, by simp⟩,
    ⟨⟨h.name, h.baseClass⟩, ?_, Tree.areSound_iff.mpr h.sound_memberTrees, ?_⟩, by simp⟩
  · rintro name ⟨⟩
    exact ⟨plain_fixed "final" (by simp), rfl⟩
  · simp [memberTrees, documentationTree, Tree.isSilent]

end ClassModule.IsWritten

end Sound

/-! ## Bounds -/

/-- Whether the values can be read where they stand. -/
def Start.fits : Start → Bool
  | .literal value => (Expr.ofLiteral value).fits 0
  | .parsed _ value => (Expr.ofLiteral value).fits 1

def Statement.fits : Statement → Bool
  | .within _ minimum maximum =>
    (Expr.ofLiteral minimum).fits 1 && (Expr.ofLiteral maximum).fits 1
  | .oneOf _ values => values.all fun value => (Expr.ofLiteral value).fits 2
  | _ => true

def ClassModule.valuesFit (module : ClassModule) : Bool :=
  module.constants.all (fun constant => (Expr.ofLiteral constant.value).fits 0) &&
    module.fields.all (fun field => field.start.all Start.fits) &&
    module.setters.all (fun setter => setter.statements.all Statement.fits)

section Bounds

open Source (bracketLimit)

variable {depth : Nat}

theorem fits_callOf (operation : String) (arguments : List Expr) (h : depth < bracketLimit) :
    (callOf operation arguments).fits depth = arguments.all (·.fits (depth + 1)) := by
  simp [callOf, Expr.stored, Expr.receiver, Expr.fits, h, Expr.allFit_eq_all]

@[simp] theorem fits_nameOf (name : String) : (nameOf name).fits depth = true := rfl

@[simp] theorem fits_memberOf (key : String) (value : Expr) :
    (memberOf key value).fits depth = value.fits depth := rfl

theorem fits_list (layout : Option Nat) (items : List Expr) (h : depth < bracketLimit) :
    (Expr.list layout items).fits depth = items.all (·.fits (depth + 1)) := by
  simp [Expr.fits, h, Expr.allFit_eq_all]

theorem fits_dict {α : Type} (layout : Option Nat) {items : List α} {key : α → String}
    {value : α → Expr} (h : depth < bracketLimit)
    (hvalues : ∀ item ∈ items, (value item).fits (depth + 1) = true) :
    (Expr.dict layout (items.map fun item => memberOf (key item) (value item))).fits depth =
      true := by
  simpa [Expr.fits, h, Expr.allFit_eq_all] using hvalues

theorem all_fits_headingTrees (heading : List String) :
    (headingTrees heading).all Tree.fits = true := by
  unfold headingTrees
  split <;> simp [Tree.fits]

theorem all_fits_importTrees (module : ClassModule) : module.importTrees.all Tree.fits = true := by
  have hreferences : Tree.fitAll (module.references.map importTree) = true := by
    rw [Tree.fitAll_eq_all, List.all_map]
    exact List.all_eq_true.mpr fun _ _ => rfl
  unfold ClassModule.importTrees
  split <;> split <;>
    simp [Tree.fits, fromTree, Line.fits, Head.fits, Expr.fits, nameOf, hreferences]

theorem all_fits_constantTrees (module : ClassModule) : module.constantTrees.all Tree.fits =
    module.constants.all fun constant => (Expr.ofLiteral constant.value).fits 0 := by
  unfold ClassModule.constantTrees
  cases hconstants : module.constants with
  | nil => rfl
  | cons first rest => simp [Tree.fits, constantTree, Line.fits, Function.comp_def]

theorem fits_nameTableTree (module : ClassModule) : module.nameTableTree.fits = true := by
  have htable : (Expr.dict (layoutOf 4 module.fields) (module.fields.map fun field =>
      memberOf field.attr (.ofLiteral (.str field.name)))).fits 0 = true :=
    fits_dict _ (by decide) fun field _ => rfl
  rw [ClassModule.nameTableTree, Tree.fits, Line.fits, Option.all_some, htable]
  rfl

theorem fits_startTree (field : FieldCode) :
    (startTree? field).all Tree.fits = field.start.all Start.fits := by
  unfold startTree?
  cases field.start with
  | none => rfl
  | some start =>
      cases start with
      | literal value => rfl
      | parsed operation value =>
          simp [Tree.fits, Line.fits, startExpr, Start.fits,
            fits_callOf operation [Expr.ofLiteral value] (show 0 < bracketLimit by decide)]

theorem all_fits_method (head : Head) (body : List Tree) :
    [Tree.silent [], .block none head body].all Tree.fits =
      (head.fits 0 && body.all Tree.fits) := by
  simp only [List.all_cons, List.all_nil, Tree.fits, Tree.fitAll_eq_all, Bool.true_and,
    Bool.and_true]

theorem all_fits_filterMap {α : Type} {items : List α} {tree? : α → Option Tree} {fits : α → Bool}
    (h : ∀ item ∈ items, (tree? item).all Tree.fits = fits item) :
    (items.filterMap tree?).all Tree.fits = items.all fits := by
  induction items with
  | nil => rfl
  | cons item rest ih =>
      obtain ⟨hitem, hrest⟩ := List.forall_mem_cons.mp h
      rw [List.all_cons, ← ih hrest, ← hitem]
      cases htree : tree? item with
      | none => rw [List.filterMap_cons_none htree, Option.all_none, Bool.true_and]
      | some tree => rw [List.filterMap_cons_some htree, List.all_cons, Option.all_some]

theorem all_fits_initTrees (module : ClassModule) : module.initTrees.all Tree.fits =
    module.fields.all fun field => field.start.all Start.fits := by
  have hstarts : (module.fields.filterMap startTree?).all Tree.fits =
      module.fields.all fun field => field.start.all Start.fits :=
    all_fits_filterMap fun field _ => fits_startTree field
  have hbase : [Tree.code (.evaluate baseInit)].all Tree.fits = true := rfl
  rw [ClassModule.initTrees, all_fits_method, List.all_append, hstarts, hbase, Bool.and_true]
  rfl

theorem fits_exportExpr (field : FieldCode) : (exportExpr field).fits 1 = true := by
  unfold exportExpr storedExpr
  cases field.exported <;> rfl

theorem all_fits_exportTrees (module : ClassModule) : module.exportTrees.all Tree.fits = true := by
  have hmembers : (Expr.dict (layoutOf 8 module.fields)
      (module.fields.map fun field => memberOf field.name (exportExpr field))).fits 0 = true :=
    fits_dict _ (by decide) fun field _ => fits_exportExpr field
  rw [ClassModule.exportTrees, all_fits_method, List.all_cons, List.all_nil, Tree.fits, Line.fits,
    hmembers]
  rfl

theorem fits_statementTree (attr : String) (statement : Statement) :
    (statementTree attr statement).fits = statement.fits := by
  have hzero : 0 < bracketLimit := by decide
  cases statement with
  | oneOf operation values =>
      have hone : 0 + 1 < bracketLimit := by decide
      simp [statementTree, Tree.fits, Line.fits, Statement.fits, fits_callOf _ _ hzero,
        fits_list _ _ hone, List.all_map, Function.comp_def]
  | _ => simp [statementTree, Tree.fits, Line.fits, Statement.fits, fits_callOf _ _ hzero]

section Typed

variable {typed : String → Expr}

theorem all_fits_fieldTrees (field : FieldCode) :
    (fieldTrees typed field).all Tree.fits = (typed field.annotation).fits 0 := by
  simp [fieldTrees, Tree.fits, Line.fits]

theorem all_fits_setterTrees (className : String) (setter : SetterCode) :
    (setterTrees typed className setter).all Tree.fits =
      ((typed setter.parameterType).fits 1 && setter.statements.all Statement.fits) := by
  have himports : (setter.statements.filterMap setterImportTree?).all Tree.fits = true := by
    have hall : (setter.statements.filterMap setterImportTree?).all Tree.fits =
        setter.statements.all fun _ => true :=
      all_fits_filterMap fun statement _ => by cases statement <;> rfl
    rw [hall]
    simp
  have hempty : (if (setter.statements.filterMap ClassModule.setterImport?).isEmpty then []
      else [Tree.silent []]).all Tree.fits = true := by
    split <;> rfl
  have hstatements : (setter.statements.map (statementTree setter.attr)).all Tree.fits =
      setter.statements.all Statement.fits := by
    rw [List.all_map]
    exact List.all_congr rfl fun statement => fits_statementTree setter.attr statement
  have hhead : (Head.method ("set_" ++ setter.attr).toList
      (some ⟨false, setter.attr.toList, typed setter.parameterType⟩) (nameOf className)).fits 0 =
        (typed setter.parameterType).fits 1 := by
    have hzero : 0 < bracketLimit := by decide
    simp [Head.fits, hzero]
  rw [setterTrees, all_fits_method, hhead, List.all_append, List.all_append, List.all_append,
    himports, hempty, hstatements]
  simp [Tree.fits, Line.fits, Expr.receiver, Expr.fits]

theorem fits_classTree (module : ClassModule) : (module.classTree typed).fits =
    (module.valuesFit && module.fields.all (fun field => (typed field.annotation).fits 0) &&
      module.setters.all fun setter => (typed setter.parameterType).fits 1) := by
  have hdocumentation : [module.documentationTree].all Tree.fits = true := rfl
  have hempty : [Tree.silent []].all Tree.fits = true := rfl
  have hfields : (module.fields.flatMap (fieldTrees typed)).all Tree.fits =
      module.fields.all fun field => (typed field.annotation).fits 0 := by
    rw [List.all_flatMap]
    exact List.all_congr rfl fun field => all_fits_fieldTrees field
  have hsetters : (module.setters.flatMap (setterTrees typed module.name)).all Tree.fits =
      (module.setters.all (fun setter => (typed setter.parameterType).fits 1) &&
        module.setters.all fun setter => setter.statements.all Statement.fits) := by
    rw [List.all_flatMap, Bool.eq_iff_iff]
    simp only [all_fits_setterTrees, Bool.and_eq_true, List.all_eq_true, ← forall_and]
  have hhead : (Head.subclass module.name.toList module.baseClass.toList).fits 0 = true := rfl
  rw [ClassModule.classTree, Tree.fits, hhead, Tree.fitAll_eq_all, ClassModule.memberTrees]
  simp only [List.all_append, hdocumentation, hempty, all_fits_constantTrees, hfields, hsetters,
    all_fits_initTrees, all_fits_exportTrees, List.all_cons, List.all_nil, fits_nameTableTree,
    ClassModule.valuesFit, Bool.true_and, Bool.and_true]
  ac_rfl

/-- A module fits the bounds if its values and its types do. -/
theorem fitAll_trees (module : ClassModule) : Tree.fitAll (module.trees typed) =
    (module.valuesFit && module.fields.all (fun field => (typed field.annotation).fits 0) &&
      module.setters.all fun setter => (typed setter.parameterType).fits 1) := by
  simp only [Tree.fitAll_eq_all, ClassModule.trees, List.all_append, all_fits_headingTrees,
    all_fits_importTrees, List.all_cons, List.all_nil, fits_classTree, Tree.fits, Bool.true_and,
    Bool.and_true]

end Typed

end Bounds

/-! ## Reading modules -/

section Reading

variable {typed : String → Expr} {module : ClassModule}

theorem height_setterImportTree {statement : Statement} :
    ∀ tree ∈ setterImportTree? statement, tree.height = 0 := by
  cases statement with
  | elements operation className renamed =>
      rintro tree ⟨⟩
      rfl
  | _ => simp [setterImportTree?]

theorem height_statementTree (attr : String) (statement : Statement) :
    (statementTree attr statement).height = 0 := by
  cases statement <;> rfl

theorem height_block {head : Head} {decorator : Option (List Char)} {body : List Tree} {bound : Nat}
    (h : ∀ tree ∈ body, tree.height ≤ bound) :
    (Tree.block decorator head body).height ≤ bound + 1 :=
  Nat.succ_le_succ (Tree.heightOf_le_iff.mpr h)

theorem height_setterTrees (className : String) (setter : SetterCode) :
    ∀ tree ∈ setterTrees typed className setter, tree.height ≤ 1 := by
  unfold setterTrees
  rw [List.forall_mem_cons, List.forall_mem_singleton]
  refine ⟨Nat.zero_le _, height_block ?_⟩
  simp only [List.forall_mem_append, List.forall_mem_cons, List.forall_mem_map]
  refine ⟨⟨⟨fun tree htree => ?_, ?_⟩, fun statement _ => (height_statementTree _ _).le⟩,
    Nat.zero_le _, Nat.zero_le _, by simp⟩
  · obtain ⟨statement, -, hmade⟩ := List.mem_filterMap.mp htree
    exact (height_setterImportTree tree hmade).le
  · split
    · simp
    · rw [List.forall_mem_singleton]
      exact Nat.zero_le _

theorem height_memberTrees : ∀ tree ∈ module.memberTrees typed, tree.height ≤ 1 := by
  have hconstants : ∀ tree ∈ module.constantTrees, tree.height ≤ 1 := by
    unfold ClassModule.constantTrees
    split
    · simp
    · rw [List.forall_mem_cons, List.forall_mem_map]
      exact ⟨Nat.zero_le _, fun _ _ => Nat.zero_le _⟩
  have hfields : ∀ field ∈ module.fields, ∀ tree ∈ fieldTrees typed field, tree.height ≤ 1 := by
    intro field _
    unfold fieldTrees
    rw [List.forall_mem_append, List.forall_mem_append, List.forall_mem_singleton,
      List.forall_mem_singleton, List.forall_mem_map]
    exact ⟨⟨Nat.zero_le _, fun _ _ => Nat.zero_le _⟩, Nat.zero_le _⟩
  have hinit : ∀ tree ∈ module.initTrees, tree.height ≤ 1 := by
    unfold ClassModule.initTrees
    rw [List.forall_mem_cons, List.forall_mem_singleton]
    refine ⟨Nat.zero_le _, height_block ?_⟩
    rw [List.forall_mem_append, List.forall_mem_singleton]
    refine ⟨fun tree htree => ?_, Nat.zero_le _⟩
    obtain ⟨field, -, hmade⟩ := List.mem_filterMap.mp htree
    obtain ⟨start, -, rfl⟩ := Option.map_eq_some_iff.mp hmade
    exact Nat.zero_le _
  have hexport : ∀ tree ∈ module.exportTrees, tree.height ≤ 1 := by
    unfold ClassModule.exportTrees
    rw [List.forall_mem_cons, List.forall_mem_singleton]
    refine ⟨Nat.zero_le _, height_block ?_⟩
    rw [List.forall_mem_singleton]
    exact Nat.zero_le _
  unfold ClassModule.memberTrees
  simp only [List.forall_mem_append, List.forall_mem_singleton, List.forall_mem_flatMap]
  exact ⟨⟨⟨⟨⟨⟨⟨Nat.zero_le _, hconstants⟩, Nat.zero_le _⟩, Nat.zero_le _⟩, hfields⟩, hinit⟩,
    fun setter _ => height_setterTrees module.name setter⟩, hexport⟩

theorem height_headingTrees (heading : List String) :
    ∀ tree ∈ headingTrees heading, tree.height ≤ 0 := by
  unfold headingTrees
  split
  · simp
  · rw [List.forall_mem_append, List.forall_mem_map, List.forall_mem_singleton]
    exact ⟨fun _ _ => Nat.zero_le _, Nat.zero_le _⟩

theorem height_importTrees : ∀ tree ∈ module.importTrees, tree.height ≤ 1 := by
  unfold ClassModule.importTrees
  simp only [List.forall_mem_append, List.forall_mem_cons]
  refine ⟨⟨⟨⟨Nat.zero_le _, Nat.zero_le _, by simp⟩, ?_⟩, Nat.zero_le _, Nat.zero_le _,
    Nat.zero_le _, by simp⟩, ?_⟩
  · split
    · rw [List.forall_mem_singleton]
      exact Nat.zero_le _
    · simp
  · split
    · simp
    · rw [List.forall_mem_cons, List.forall_mem_singleton]
      refine ⟨Nat.zero_le _, height_block ?_⟩
      rw [List.forall_mem_map]
      exact fun _ _ => Nat.zero_le _

theorem heightOf_trees : Source.Tree.heightOf (module.trees typed) ≤ 2 := by
  rw [Tree.heightOf_le_iff]
  unfold ClassModule.trees
  simp only [List.forall_mem_append, List.forall_mem_cons]
  exact ⟨⟨⟨fun tree htree => (height_headingTrees _ tree htree).trans (Nat.zero_le _),
    fun tree htree => (height_importTrees tree htree).trans (by decide)⟩,
    Nat.zero_le _, Nat.zero_le _, by simp⟩, height_block height_memberTrees, by simp⟩

theorem rowsOf_ne_nil {trees more : List Tree} {line : Line} :
    Tree.rowsOf 0 (trees ++ .code line :: more) ≠ [] := by
  rw [rowsOf_append, Tree.rowsOf]
  simp [Tree.rows]

/-- A module is read as the statements of its trees, unless a value or a type does not fit. -/
theorem ClassModule.IsWritten.readModule (h : module.IsWritten typed) :
    Source.readModule module.text.toList =
      if Tree.fitAll (module.trees typed) then some (Tree.statementsOf (module.trees typed))
      else none := by
  rw [toList_text (fun field hfield => ( FieldCode.IsWritten.annotation (h.fields field hfield)).chars)
    (fun setter hsetter => (h.setters setter hsetter).parameterType.chars)]
  refine Tree.readModule_text h.areSound_trees (heightOf_trees.trans (by decide)) ?_
  unfold ClassModule.trees importTrees
  simp only [List.append_assoc, List.cons_append]
  exact rowsOf_ne_nil

theorem ClassModule.IsWritten.isValid_iff (h : module.IsWritten typed) :
    Source.isValid module.text = true ↔ Tree.fitAll (module.trees typed) = true := by
  rw [Source.isValid, h.readModule]
  cases Tree.fitAll (module.trees typed) <;> simp

end Reading

/-! ## The file of a package -/

/-- The file of a package can be read, whatever classes it lists. -/
theorem isValid_packageText {heading classNames : List String}
    (hheading : ∀ line ∈ heading, Unbroken line.toList) (hnames : ∀ name ∈ classNames, Plain name) :
    Source.isValid (packageText heading classNames) = true := by
  have hlist : (Expr.list (some 0) (classNames.map fun name => .quoted name.toList)).Sound := by
    refine ⟨Expr.areSound_iff.mpr ?_, List.all_eq_true.mpr ?_⟩ <;> rw [List.forall_mem_map]
    · exact fun name hname => Source.isBody_of_isIdentifier
        (Expr.isIdentifier_of_isPlainName (hnames name hname))
    · exact fun _ _ => rfl
  have hsound : Tree.AreSound (packageTrees heading classNames) := by
    rw [Tree.areSound_iff]
    unfold packageTrees
    simp only [List.forall_mem_append, List.forall_mem_cons, List.forall_mem_map]
    exact ⟨⟨sound_headingTrees hheading, fun name hname => sound_importTree (hnames name hname)⟩,
      sound_empty, ⟨plain_fixed "__all__" (by simp), hlist, rfl⟩, by simp⟩
  have hheight : Source.Tree.heightOf (packageTrees heading classNames) ≤ 0 := by
    rw [Tree.heightOf_le_iff]
    unfold packageTrees
    simp only [List.forall_mem_append, List.forall_mem_cons, List.forall_mem_map]
    exact ⟨⟨height_headingTrees heading, fun _ _ => Nat.zero_le _⟩, Nat.zero_le _, Nat.zero_le _,
      by simp⟩
  have hfits : Tree.fitAll (packageTrees heading classNames) = true := by
    have himports : (classNames.map importTree).all Tree.fits = true := by
      rw [List.all_map]
      exact List.all_eq_true.mpr fun _ _ => rfl
    have hlisted : (Expr.list (some 0) (classNames.map fun name => .quoted name.toList)).fits 0 =
        true := by
      rw [fits_list _ _ (by decide), List.all_map]
      exact List.all_eq_true.mpr fun _ _ => rfl
    simp only [Tree.fitAll_eq_all, packageTrees, List.all_append, all_fits_headingTrees, himports,
      List.all_cons, List.all_nil, Tree.fits, Line.fits, hlisted, Bool.and_true]
  have hrows : Tree.rowsOf 0 (packageTrees heading classNames) ≠ [] := by
    have hcode : packageTrees heading classNames = (headingTrees heading ++
        classNames.map importTree ++ [.silent []]) ++ .code (.assign "__all__".toList
          (.list (some 0) (classNames.map fun name => .quoted name.toList))) :: [] := by
      simp [packageTrees]
    rw [hcode]
    exact rowsOf_ne_nil
  rw [Source.isValid, toList_packageText,
    Tree.readModule_text hsound (hheight.trans (Nat.zero_le _)) hrows, hfits]
  rfl

end ModelMint.Emit
