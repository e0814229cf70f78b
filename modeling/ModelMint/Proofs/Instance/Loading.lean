import ModelMint.Proofs.Instance.Literal
import ModelMint.Proofs.Instance.Lookup
import ModelMint.Proofs.Package.Files

/-!
# Which classes can be loaded

A module over the standard base is loaded exactly where it gives nothing the name that
is fixed in the language, and where its constants have literals.  A library finds a
class by the name of its module.
-/

namespace ModelMint

open ModelMint.Emit
open ModelMint.Blueprint

variable {module : ClassModule} {item : LoadedClass} {library : Library}
  {modules : List ClassModule}

/-! ## Constants -/

theorem isFinite_of_load (h : LoadedClass.load module = .ok item) :
    ∀ constant ∈ module.constants, constant.value.isFinite = true := by
  obtain ⟨constants, hconstants, -⟩ := LoadedClass.load_eq_ok h
  intro constant hconstant
  obtain ⟨loaded, -, hloaded⟩ := exists_right_of_mem (mapM_eq_ok.mp hconstants) hconstant
  obtain ⟨value, hvalue, -⟩ := map_eq_ok.mp hloaded
  exact literalValue_noNames_iff.mp ⟨value, hvalue⟩

theorem exists_load (h : ∀ constant ∈ module.constants, constant.value.isFinite = true) :
    ∃ item, LoadedClass.load module = .ok item := by
  have hconstants : module.constants.mapM (LoadedClass.loadConstant module.name) =
      .ok (module.constants.map fun constant =>
        (privateName module.name constant.name, Value.ofJson constant.value)) := by
    apply mapM_eq_ok_map
    intro constant hconstant
    rw [LoadedClass.loadConstant, literalValue_of_isFinite (h constant hconstant)]
    rfl
  exact ⟨_, bind_eq_ok.mpr ⟨_, hconstants, rfl⟩⟩

/-- Every constant of a module is one of the class, but for the one that the table of names takes
the place of. -/
theorem LoadedClass.mem_keys_constants (h : LoadedClass.load module = .ok item)
    {constant : Constant} (hconstant : constant ∈ module.constants)
    (htable : privateName module.name constant.name ≠ tableName) :
    privateName module.name constant.name ∈ Entries.keys item.constants := by
  obtain ⟨constants, hconstants, rfl⟩ := load_eq_ok h
  obtain ⟨loaded, hmem, hloaded⟩ := exists_right_of_mem (mapM_eq_ok.mp hconstants) hconstant
  obtain ⟨value, -, rfl⟩ := map_eq_ok.mp hloaded
  have hkey : privateName module.name constant.name ∈ Entries.keys (Entries.ofList constants) :=
    Entries.mem_keys_ofList.mpr (List.mem_map.mpr ⟨_, hmem, rfl⟩)
  obtain ⟨entry, hentry, hname⟩ := List.mem_map.mp hkey
  exact List.mem_map.mpr ⟨entry, List.mem_filter.mpr ⟨hentry, by simpa [hname] using htable⟩, hname⟩

/-- A private name is none of the base, so only a constant of its own name takes one of these. -/
theorem constant_eq_none (h : LoadedClass.load module = .ok item) {name : String}
    (hbase : (baseMember? name).isSome = true)
    (hall : ∀ constant ∈ module.constants, constant.name ≠ name) :
    Entries.get? name item.constants = none := by
  rw [Entries.get?_eq_none_iff]
  intro hmem
  obtain ⟨constant, hconstant, hname, -⟩ := LoadedClass.exists_constant h hmem
  rcases privateName_cases module.name constant.name with hself | ⟨c, owner, rest, hc, hlist⟩
  · exact hall constant hconstant (hself ▸ hname).symm
  · rw [← hname] at hlist
    rw [baseMember?_of_private hc hlist] at hbase
    cases hbase

/-- A name with one underscore in front is taken by a constant that has it. -/
theorem constant_eq_none_iff (h : LoadedClass.load module = .ok item) {name : String}
    (htable : name ≠ LoadedClass.tableName) (hprivate : ¬ ['_', '_'] <+: name.toList)
    (hbase : (baseMember? name).isSome = true) :
    Entries.get? name item.constants = none ↔
      ∀ constant ∈ module.constants, constant.name ≠ name := by
  refine ⟨?_, constant_eq_none h hbase⟩
  rintro hnone constant hconstant rfl
  have hself : privateName module.name constant.name = constant.name :=
    privateName_eq_self hprivate
  rw [← hself] at hnone htable
  exact Entries.get?_eq_none_iff.mp hnone (LoadedClass.mem_keys_constants h hconstant htable)

/-! ## Libraries -/

/-- What is known of a library that was loaded. -/
def LoadedFrom (module : ClassModule) (entry : String × LoadedClass) : Prop :=
  Library.checkNames module = .ok () ∧ Library.checkBase module = .ok () ∧
    entry.1 = module.name ∧ LoadedClass.load module = .ok entry.2

theorem Library.load_eq_ok :
    Library.load modules = .ok library ↔ List.Forall₂ LoadedFrom modules library := by
  unfold Library.load
  rw [mapM_eq_ok]
  have hone : ∀ (module : ClassModule) (entry : String × LoadedClass),
      (do
        checkNames module
        checkBase module
        let item ← LoadedClass.load module
        .ok (module.name, item) : Except Fault (String × LoadedClass)) = .ok entry ↔
      LoadedFrom module entry := by
    intro module entry
    unfold LoadedFrom
    constructor
    · intro h
      obtain ⟨_, hnames, h⟩ := bind_eq_ok.mp h
      obtain ⟨_, hbase, h⟩ := bind_eq_ok.mp h
      obtain ⟨item, hload, h⟩ := bind_eq_ok.mp h
      cases h
      exact ⟨hnames, hbase, rfl, hload⟩
    · rintro ⟨hnames, hbase, hname, hload⟩
      obtain ⟨name, item⟩ := entry
      subst hname
      exact bind_eq_ok.mpr ⟨_, hnames, bind_eq_ok.mpr ⟨_, hbase,
        bind_eq_ok.mpr ⟨_, hload, rfl⟩⟩⟩
  simp only [hone]

theorem checkNames_eq_ok :
    Library.checkNames module = .ok () ↔
      Library.fixedName ∉ module.name :: module.baseClass :: module.references := by
  unfold Library.checkNames
  split
  next h =>
    rw [List.contains_iff_mem] at h
    exact iff_of_false (by simp) (not_not_intro h)
  next h =>
    rw [List.contains_iff_mem] at h
    exact iff_of_true rfl h

theorem checkBase_standard (lines : List String) (plan : Plan) :
    Library.checkBase (standardModule lines plan) = .ok () := by
  have hmodule : Library.baseModules.contains "json_schema_to_model.runtime" = true := by decide
  have hclass : ("Model" != Library.baseName) = false := by decide
  simp only [Library.checkBase, standardModule, hmodule, hclass]
  rfl

/-- A module that shares its name with no other one is found under it. -/
theorem find?_of_load (hload : Library.load modules = .ok library) (hmodule : module ∈ modules)
    (hunique : ∀ other ∈ modules, other.name = module.name → other = module) :
    ∃ item, LoadedClass.load module = .ok item ∧ library.find? module.name = some item := by
  have hall := Library.load_eq_ok.mp hload
  clear hload
  induction hall with
  | nil => cases hmodule
  | @cons first entry rest others hfirst _ ih =>
      obtain ⟨hhead, hrest⟩ := List.forall_mem_cons.mp hunique
      obtain ⟨-, -, hname, hitem⟩ := hfirst
      obtain ⟨name, item⟩ := entry
      simp only at hname hitem
      subst hname
      -- an earlier module of the name would hide this one, so it has to be this one
      by_cases hsame : first.name = module.name
      · obtain rfl := hhead hsame
        exact ⟨item, hitem, by simp [Library.find?, Entries.get?]⟩
      · have hlater : module ∈ rest := by
          rcases List.mem_cons.mp hmodule with rfl | hlater
          · exact absurd rfl hsame
          · exact hlater
        obtain ⟨found, hfound, hfind⟩ := ih hlater hrest
        refine ⟨found, hfound, ?_⟩
        rw [Library.find?, Entries.get?, if_neg hsame]
        exact hfind

theorem find?_isSome_iff (hload : Library.load modules = .ok library) {name : String} :
    (library.find? name).isSome = true ↔ ∃ module ∈ modules, module.name = name := by
  have hall := Library.load_eq_ok.mp hload
  clear hload
  unfold Library.find?
  induction hall with
  | nil => simp [Entries.get?]
  | @cons first entry rest others hfirst _ ih =>
      obtain ⟨-, -, hname, -⟩ := hfirst
      obtain ⟨key, item⟩ := entry
      simp only at hname
      subst hname
      rw [Entries.get?]
      split
      next h => simp [h]
      next h => simp [h, ih]

end ModelMint
