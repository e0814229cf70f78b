import ModelMint.Proofs.Settings.Names

/-!
# Settings that are written and read again

What settings are read from an object depends on the entries alone that name settings, and
they are written so that they read back as the same.  Both fail where an entry has the name
of an operation of the settings: the operation is gone afterwards.
-/

namespace ModelMint

open Entries (keys)

variable {key : String} {value : Json} {members : List (String × Json)}

/-! ## Entries that name settings -/

def Settings.settingKeys : List String := [
  "ignore_classes", "base", "wrap_width", "add_generation_comment", "write_package_init",
  "fail_fast", "output", "formatter"
]

/-- The entries of a part that name settings. -/
def essentialPart (key : String) (value : Json) : Json :=
  match key, value with
  | "base", .obj members => .obj (entriesNamed BaseNames.settingKeys members)
  | "output", .obj members => .obj (entriesNamed OutputSettings.settingKeys members)
  | _, value => value

/-- The entries that name settings, in the whole and in its parts. -/
def essence (members : List (String × Json)) : List (String × Json) :=
  (entriesNamed Settings.settingKeys members).map fun entry =>
    (entry.1, essentialPart entry.1 entry.2)

/-! ## Settings -/

namespace Settings

variable {settings next last : Settings} {entry : String × Json}

/-- What an entry does that does not give all settings at once. -/
inductive Takes (settings : Settings) (key : String) (value : Json) : Settings → Prop
  | base {base : BaseNames} (hkey : key = "base") (h : BaseNames.read value = .ok base) :
      Takes settings key value { settings with base }
  | output {output : OutputSettings} (hkey : key = "output")
      (h : OutputSettings.read value = .ok output) :
      Takes settings key value { settings with output }
  | formatter {formatter : FormatterSettings} (hkey : key = "formatter")
      (h : FormatterSettings.read value = .ok formatter) :
      Takes settings key value { settings with formatter }
  | plain (hbase : key ≠ "base") (houtput : key ≠ "output") (hformatter : key ≠ "formatter")
      (haccepted : refusedEntry? key value = none) :
      Takes settings key value (settings.setPlain key value)

theorem found_of_missing (h : settings.missing = []) (part : String) :
    settings.found part = settings := by
  rw [found, h, List.filter_nil, ← h]

theorem isMissing_of_missing (h : settings.missing = []) (part : String) :
    settings.isMissing part = false := by
  rw [isMissing, h]
  rfl

theorem set_eq_ok_iff (hmissing : settings.missing = []) (hkey : key ≠ "__dict__") :
    settings.set key value = .ok next ↔ Takes settings key value next := by
  constructor
  · intro h
    unfold set at h
    split at h
    · obtain ⟨base, hbase, rfl⟩ := map_eq_ok.mp h
      rw [found_of_missing hmissing]
      exact .base rfl hbase
    · obtain ⟨output, houtput, rfl⟩ := map_eq_ok.mp h
      rw [found_of_missing hmissing]
      exact .output rfl houtput
    · obtain ⟨formatter, hformatter, rfl⟩ := map_eq_ok.mp h
      rw [found_of_missing hmissing]
      exact .formatter rfl hformatter
    · contradiction
    next hbase houtput hformatter _ =>
      split at h
      · cases h
      next haccepted =>
        rw [isMissing_of_missing hmissing] at h
        cases h
        exact .plain hbase houtput hformatter haccepted
  · intro h
    cases h with
    | base hkey h => simp [set, hkey, h, Except.map, found_of_missing hmissing]
    | output hkey h => simp [set, hkey, h, Except.map, found_of_missing hmissing]
    | formatter hkey h => simp [set, hkey, h, Except.map, found_of_missing hmissing]
    | plain hbase houtput hformatter haccepted =>
        unfold set
        split
        · contradiction
        · contradiction
        · contradiction
        · contradiction
        · simp [haccepted, isMissing_of_missing hmissing]

theorem setPlain_missing (settings : Settings) (key : String) (value : Json) :
    (settings.setPlain key value).missing = settings.missing := by
  unfold setPlain
  split <;> rfl

theorem setPlain_base (settings : Settings) (key : String) (value : Json) :
    (settings.setPlain key value).base = settings.base := by
  unfold setPlain
  split <;> rfl

theorem setPlain_writeHidden (settings : Settings) (key : String) (value : Json) :
    (settings.setPlain key value).writeHidden = (key == "to_dict" || settings.writeHidden) := by
  unfold setPlain
  split <;> simp_all

theorem Takes.missing (h : Takes settings key value next) : next.missing = settings.missing := by
  cases h with
  | plain => exact setPlain_missing _ _ _
  | _ => rfl

theorem Takes.writeHidden (h : Takes settings key value next) :
    next.writeHidden = true ↔ key = "to_dict" ∨ settings.writeHidden = true := by
  cases h with
  | plain => simp [setPlain_writeHidden]
  | base hkey => simp [hkey]
  | output hkey => simp [hkey]
  | formatter hkey => simp [hkey]

/-! ### All entries -/

/-- The entries in order, none of which gives all settings at once. -/
inductive TakesAll : Settings → List (String × Json) → Settings → Prop
  | nil (settings : Settings) : TakesAll settings [] settings
  | cons {settings next last : Settings} {key : String} {value : Json}
      {rest : List (String × Json)} (h : Takes settings key value next)
      (hrest : TakesAll next rest last) : TakesAll settings ((key, value) :: rest) last

theorem takesAll_iff (hmissing : settings.missing = []) (hdict : "__dict__" ∉ keys members) :
    members.foldlM (fun settings (key, value) => settings.set key value) settings = .ok last ↔
      TakesAll settings members last := by
  induction members generalizing settings with
  | nil =>
      constructor
      · intro h
        cases h
        exact .nil last
      · intro h
        cases h
        rfl
  | cons entry rest ih =>
      obtain ⟨key, value⟩ := entry
      obtain ⟨hfirst, hrest⟩ := not_or.mp (mt List.mem_cons.mpr hdict)
      have hstep : ∀ next, settings.set key value = .ok next ↔ Takes settings key value next :=
        fun next => set_eq_ok_iff hmissing (Ne.symm hfirst)
      rw [List.foldlM_cons, bind_eq_ok]
      constructor
      · rintro ⟨next, hnext, hlast⟩
        have htakes := (hstep next).mp hnext
        exact .cons htakes ((ih (htakes.missing.trans hmissing) hrest).mp hlast)
      · rintro (_ | ⟨htakes, hlast⟩)
        exact ⟨_, (hstep _).mpr htakes, (ih (htakes.missing.trans hmissing) hrest).mpr hlast⟩

theorem read_eq_ok_iff (hdict : "__dict__" ∉ keys members) :
    read (.obj members) = .ok settings ↔ TakesAll {} members settings :=
  takesAll_iff rfl hdict

theorem TakesAll.missing (h : TakesAll settings members last) :
    last.missing = settings.missing := by
  induction h with
  | nil => rfl
  | cons h _ ih => rw [ih, h.missing]

theorem TakesAll.writeHidden (h : TakesAll settings members last) :
    last.writeHidden = true ↔ "to_dict" ∈ keys members ∨ settings.writeHidden = true := by
  induction h with
  | nil => simp [keys]
  | cons h _ ih =>
      rw [ih, h.writeHidden]
      simp only [keys, List.map_cons, List.mem_cons]
      rw [or_left_comm, or_assoc, eq_comm]

/-- The names of the base are those of its entry, if there is one. -/
theorem TakesAll.base (h : TakesAll settings members last) (hkeys : (keys members).Nodup) :
    (∀ value, ("base", value) ∈ members → BaseNames.read value = .ok last.base) ∧
      ("base" ∉ keys members → last.base = settings.base) := by
  induction h with
  | nil => exact ⟨fun _ hvalue => absurd hvalue List.not_mem_nil, fun _ => rfl⟩
  | cons h hrest ih =>
      rename_i settings next last key value rest
      obtain ⟨hnew, hdistinct⟩ := List.nodup_cons.mp hkeys
      obtain ⟨hentry, hnone⟩ := ih hdistinct
      constructor
      · intro given hgiven
        rcases List.mem_cons.mp hgiven with hsame | hlater
        · cases hsame
          -- keys come once, so nothing behind this entry touches the base again
          rw [hnone hnew]
          cases h with
          | base hkey hbase => exact hbase
          | output hkey => simp at hkey
          | formatter hkey => simp at hkey
          | plain hbase => contradiction
        · exact hentry given hlater
      · intro hother
        obtain ⟨hfirst, hothers⟩ := not_or.mp (mt List.mem_cons.mpr hother)
        rw [hnone hothers]
        cases h with
        | base hkey => exact absurd hkey.symm hfirst
        | plain => exact setPlain_base _ _ _
        | _ => rfl

/-! ### Entries that name settings -/

theorem essentialPart_of_ne (hbase : key ≠ "base") (houtput : key ≠ "output") :
    essentialPart key value = value := by
  unfold essentialPart
  split
  · contradiction
  · contradiction
  · rfl

/-- No entry of the base is about all its names at once. -/
def HasEntrywiseBase (members : List (String × Json)) : Prop :=
  ∀ base, ("base", .obj base) ∈ members → BaseNames.Entrywise base

/-- An entry has the name of an operation. -/
def HidesOperation (members : List (String × Json)) : Prop :=
  "to_dict" ∈ keys members ∨
    ∃ base, ("base", .obj base) ∈ members ∧
      ∃ operation ∈ BaseNames.operations, operation ∈ keys base

theorem Takes.essentialPart (h : Takes settings key value next)
    (hbase : ∀ base, key = "base" → value = .obj base → BaseNames.Entrywise base ∧
      ∀ operation ∈ BaseNames.operations, operation ∉ keys base) :
    Takes settings key (essentialPart key value) next := by
  cases h with
  | base hkey h =>
      obtain ⟨base, rfl⟩ := BaseNames.read_eq_ok h
      obtain ⟨hplain, hoperations⟩ := hbase base hkey rfl
      rw [hkey]
      exact .base rfl (BaseNames.read_essence h hplain hoperations)
  | output hkey h =>
      rw [hkey]
      refine .output rfl ?_
      cases value with
      | obj members => rwa [ModelMint.essentialPart, OutputSettings.read_essence]
      | _ => exact h
  | formatter hkey h =>
      rw [essentialPart_of_ne (by simp [hkey]) (by simp [hkey])]
      exact .formatter hkey h
  | plain hbase houtput hformatter haccepted =>
      rw [essentialPart_of_ne hbase houtput]
      exact .plain hbase houtput hformatter haccepted

theorem Takes.eq_of_not_mem (h : Takes settings key value next) (hkey : key ∉ settingKeys)
    (hoperation : key ≠ "to_dict") : next = settings := by
  cases h with
  | base hbase => simp [settingKeys, hbase] at hkey
  | output houtput => simp [settingKeys, houtput] at hkey
  | formatter hformatter => simp [settingKeys, hformatter] at hkey
  | plain hbase houtput hformatter haccepted =>
      unfold setPlain
      split <;> simp_all [settingKeys]

theorem essence_cons_of_mem (h : key ∈ settingKeys) :
    essence ((key, value) :: members) =
      (key, ModelMint.essentialPart key value) :: essence members := by
  rw [essence, entriesNamed_cons_of_mem h]
  rfl

theorem essence_cons_of_not_mem (h : key ∉ settingKeys) :
    essence ((key, value) :: members) = essence members := by
  rw [essence, entriesNamed_cons_of_not_mem h]
  rfl

theorem TakesAll.essence (h : TakesAll settings members last) (hplain : HasEntrywiseBase members)
    (hhides : ¬ HidesOperation members) : TakesAll settings (essence members) last := by
  induction h with
  | nil => exact .nil _
  | cons h hrest ih =>
      rename_i key value rest
      rw [HidesOperation, not_or] at hhides
      obtain ⟨htop, hbase⟩ := hhides
      have hparts : ∀ base, ("base", .obj base) ∈ (key, value) :: rest →
          BaseNames.Entrywise base ∧ ∀ operation ∈ BaseNames.operations, operation ∉ keys base :=
        fun base hmem => ⟨hplain base hmem, fun operation hoperation hother =>
          hbase ⟨base, hmem, operation, hoperation, hother⟩⟩
      have hlater := ih (fun base hmem => hplain base (List.mem_cons_of_mem _ hmem)) (by
        rintro (hmem | ⟨base, hmem, hother⟩)
        · exact htop (List.mem_cons_of_mem _ hmem)
        · exact hbase ⟨base, List.mem_cons_of_mem _ hmem, hother⟩)
      -- an entry of a setting is kept with its essential part, and any other changes nothing
      by_cases hkey : key ∈ settingKeys
      · rw [essence_cons_of_mem hkey]
        refine .cons (h.essentialPart fun base hsame hvalue => hparts base ?_) hlater
        rw [hsame, hvalue]
        exact List.mem_cons_self
      · have hoperation : key ≠ "to_dict" := fun hsame => htop (by simp [keys, hsame])
        rw [essence_cons_of_not_mem hkey]
        rwa [h.eq_of_not_mem hkey hoperation] at hlater

theorem mem_essence (h : (key, value) ∈ essence members) :
    key ∈ settingKeys ∧ ∃ given, (key, given) ∈ members ∧ value = essentialPart key given := by
  obtain ⟨entry, hentry, hsame⟩ := List.mem_map.mp h
  cases hsame
  obtain ⟨hmem, hkey⟩ := mem_entriesNamed.mp hentry
  exact ⟨hkey, entry.2, hmem, rfl⟩

theorem keys_essence (members : List (String × Json)) :
    keys (essence members) = keys (entriesNamed settingKeys members) := by
  simp [essence, keys]

theorem mem_settingKeys_of_essence (h : key ∈ keys (essence members)) : key ∈ settingKeys := by
  rw [keys_essence] at h
  exact (mem_keys_entriesNamed.mp h).2

theorem mem_settingKeys_of_base {base : List (String × Json)}
    (h : ("base", .obj base) ∈ essence members) (hkey : key ∈ keys base) :
    key ∈ BaseNames.settingKeys := by
  obtain ⟨-, given, -, hgiven⟩ := mem_essence h
  cases given with
  | obj entries =>
      cases hgiven
      exact (mem_keys_entriesNamed.mp hkey).2
  | _ => cases hgiven

theorem nodup_keys_essence (h : (keys members).Nodup) : (keys (essence members)).Nodup := by
  rw [keys_essence]
  exact (List.filter_sublist.map Prod.fst).nodup h

/-- No entry is about all settings or names at once. -/
def Entrywise (members : List (String × Json)) : Prop :=
  "__dict__" ∉ keys members ∧ HasEntrywiseBase members

theorem entrywise_essence (members : List (String × Json)) : Entrywise (essence members) := by
  refine ⟨fun h => absurd (mem_settingKeys_of_essence h) (by decide), fun base hmem => ⟨?_, ?_⟩⟩
  · exact fun h => absurd (mem_settingKeys_of_base hmem h) (by decide)
  · exact fun h => absurd (mem_settingKeys_of_base hmem h) (by decide)

theorem not_hidesOperation_essence (members : List (String × Json)) :
    ¬ HidesOperation (essence members) := by
  rintro (hmem | ⟨base, hmem, operation, hoperation, hother⟩)
  · exact absurd (mem_settingKeys_of_essence hmem) (by decide)
  · exact BaseNames.not_mem_settingKeys operation hoperation (mem_settingKeys_of_base hmem hother)

/-! ### What is hidden -/

section Read

variable (hread : read (.obj members) = .ok settings) (hkeys : (keys members).Nodup)
  (hplain : Entrywise members)

include hread hplain

theorem writeHidden_read : settings.writeHidden = true ↔ "to_dict" ∈ keys members := by
  simp [((read_eq_ok_iff hplain.1).mp hread).writeHidden]

theorem missing_read : settings.missing = [] :=
  ((read_eq_ok_iff hplain.1).mp hread).missing

include hkeys

theorem base_read : (∃ base, ("base", .obj base) ∈ members ∧
      BaseNames.read (.obj base) = .ok settings.base) ∨
    (∀ base, ("base", .obj base) ∉ members) ∧ settings.base = {} := by
  obtain ⟨hentry, hnone⟩ := ((read_eq_ok_iff hplain.1).mp hread).base hkeys
  by_cases hbase : "base" ∈ keys members
  · obtain ⟨⟨key, value⟩, hmem, rfl⟩ := List.mem_map.mp hbase
    have hvalue := hentry value hmem
    obtain ⟨base, rfl⟩ := BaseNames.read_eq_ok hvalue
    exact .inl ⟨base, hmem, hvalue⟩
  · refine .inr ⟨fun base hmem => hbase ?_, hnone hbase⟩
    exact List.mem_map.mpr ⟨_, hmem, rfl⟩

theorem mem_hidden_base {operation : String} (h : operation ∈ BaseNames.operations) :
    operation ∈ settings.base.hidden ↔
      ∃ base, ("base", .obj base) ∈ members ∧ operation ∈ keys base := by
  rcases base_read hread hkeys hplain with ⟨base, hmem, hbase⟩ | ⟨hnone, hbase⟩
  · rw [BaseNames.mem_hidden_read h hbase (hplain.2 base hmem)]
    refine ⟨fun hother => ⟨base, hmem, hother⟩, ?_⟩
    rintro ⟨other, hother, hkey⟩
    have hsame : base = other := by
      have := List.inj_on_of_nodup_map hkeys hmem hother rfl
      simpa using this
    rwa [hsame]
  · rw [hbase]
    constructor
    · rintro ⟨⟩
    · rintro ⟨base, hmem, -⟩
      exact absurd hmem (hnone base)

theorem table_base : settings.base.table = none := by
  rcases base_read hread hkeys hplain with ⟨base, hmem, hbase⟩ | ⟨-, hbase⟩
  · exact BaseNames.table_read hbase (hplain.2 base hmem)
  · rw [hbase]

theorem hidesOperation_iff : HidesOperation members ↔ settings.writeHidden = true ∨
    ∃ operation ∈ BaseNames.operations, operation ∈ settings.base.hidden := by
  rw [HidesOperation, writeHidden_read hread hplain]
  refine or_congr_right ⟨?_, ?_⟩
  · rintro ⟨base, hmem, operation, hoperation, hkey⟩
    exact ⟨operation, hoperation,
      (mem_hidden_base hread hkeys hplain hoperation).mpr ⟨base, hmem, hkey⟩⟩
  · rintro ⟨operation, hoperation, hhidden⟩
    obtain ⟨base, hmem, hkey⟩ := (mem_hidden_base hread hkeys hplain hoperation).mp hhidden
    exact ⟨base, hmem, operation, hoperation, hkey⟩

theorem read_essence_iff :
    read (.obj (essence members)) = .ok settings ↔ ¬ HidesOperation members := by
  have hessence := entrywise_essence members
  constructor
  · intro hagain hhides
    have hdistinct := nodup_keys_essence hkeys
    refine not_hidesOperation_essence members ?_
    rw [hidesOperation_iff hagain hdistinct hessence, ← hidesOperation_iff hread hkeys hplain]
    exact hhides
  · intro hhides
    exact (read_eq_ok_iff hessence.1).mpr
      (((read_eq_ok_iff hplain.1).mp hread).essence hplain.2 hhides)

end Read

/-! ## Writing -/

theorem OutputMode.read_name (mode : OutputMode) : OutputMode.read (.str mode.name) = .ok mode := by
  cases mode <;> rfl

theorem read_writeOutput (output : OutputSettings) :
    OutputSettings.read (writeOutput output) = .ok output := by
  simp [OutputSettings.read, writeOutput, membersOf, Entries.get?, OutputMode.read_name, bind,
    Except.bind]

theorem read_writeFormatter (formatter : FormatterSettings) :
    FormatterSettings.read (writeFormatter formatter) = .ok formatter := by
  simp [FormatterSettings.read, writeFormatter, FormatterSettings.set, bind, Except.bind, pure,
    Except.pure]

theorem read_entries (settings : Settings) :
    read (.obj (settings.entries (.obj settings.base.entries))) = .ok settings.visible := by
  have hdict : "__dict__" ∉ keys (settings.entries (.obj settings.base.entries)) := by
    simp [keys, entries]
  rw [read_eq_ok_iff hdict]
  refine .cons (.plain ?_ ?_ ?_ rfl) (.cons (.base rfl (BaseNames.read_entries settings.base))
    (.cons (.plain ?_ ?_ ?_ rfl) (.cons (.plain ?_ ?_ ?_ rfl) (.cons (.plain ?_ ?_ ?_ rfl)
    (.cons (.plain ?_ ?_ ?_ rfl) (.cons (.output rfl (read_writeOutput settings.output))
    (.cons (.formatter rfl (read_writeFormatter settings.formatter)) (.nil _))))))))
  all_goals decide

/-- What is written unless it is hidden reads back as all that can be seen. -/
theorem write_eq_ok (hmissing : settings.missing = []) (htable : settings.base.table = none)
    (hwrite : settings.writeHidden = false) (hbase : "to_dict" ∉ settings.base.hidden) :
    settings.write = .ok (.obj (settings.entries (.obj settings.base.entries))) := by
  have hask : ∀ part, settings.ask part = .ok () := by
    intro part
    rw [ask, hmissing]
    rfl
  have hnames : settings.base.write = .ok (.obj settings.base.entries) := by
    simp [BaseNames.write, htable, hbase]
  simp [write, hwrite, hask, hnames, bind, Except.bind]

/-! ## Reading, writing and reading -/

/-- An entry has the name of the operation that writes. -/
def HidesWriting (members : List (String × Json)) : Prop :=
  "to_dict" ∈ keys members ∨ ∃ base, ("base", .obj base) ∈ members ∧ "to_dict" ∈ keys base

theorem visible_visible (settings : Settings) : settings.visible.visible = settings.visible := rfl

theorem writes_iff (hread : read (.obj members) = .ok settings) (hkeys : (keys members).Nodup)
    (hplain : Entrywise members) :
    (∃ written again, settings.write = .ok written ∧ read written = .ok again ∧
      again.visible = settings.visible) ↔ ¬ HidesWriting members := by
  have hmissing := missing_read hread hplain
  have htable := table_base hread hkeys hplain
  have hbase := mem_hidden_base hread hkeys hplain (show "to_dict" ∈ BaseNames.operations by decide)
  rw [HidesWriting, ← writeHidden_read hread hplain, ← hbase, not_or, Bool.not_eq_true]
  constructor
  · rintro ⟨written, again, hwritten, -⟩
    constructor
    · rw [← Bool.not_eq_true]
      intro hhidden
      rw [write, if_pos hhidden] at hwritten
      cases hwritten
    · intro hhidden
      have hnames : settings.base.write = .error .unsuitable := by simp [BaseNames.write, hhidden]
      rw [write] at hwritten
      split at hwritten
      · cases hwritten
      · simp [hnames, ask, hmissing, Entries.get?, bind, Except.bind] at hwritten
  · rintro ⟨hwrite, hnames⟩
    exact ⟨_, _, write_eq_ok hmissing htable hwrite hnames, read_entries settings,
      visible_visible settings⟩

/-- Settings that were read can be written, and what is written reads back as the same settings,
unless the operation that writes is hidden.  They are those of the entries that name settings,
unless any operation is hidden. -/
theorem read_back_unless_hidden (members : List (String × Json)) (settings : Settings)
    (hread : read (.obj members) = .ok settings) (hkeys : (keys members).Nodup)
    (hplain : Entrywise members) :
    ((∃ written again, settings.write = .ok written ∧ read written = .ok again ∧
      again.visible = settings.visible) ↔ ¬ HidesWriting members) ∧
    (read (.obj (essence members)) = .ok settings ↔ ¬ HidesOperation members) :=
  ⟨writes_iff hread hkeys hplain, read_essence_iff hread hkeys hplain⟩

/-- Entries of which two name nothing. -/
def shopEntries : List (String × Json) := [
  ("base", .obj [("module", .str "shop.models"), ("owner", .int 1)]),
  ("output", .obj [("mode", .str "error")]),
  ("unknown", .int 1)
]

theorem base_shopEntries {base : List (String × Json)} (h : ("base", .obj base) ∈ shopEntries) :
    keys base = ["module", "owner"] := by
  have hbase : base = [("module", .str "shop.models"), ("owner", .int 1)] := by
    simpa [shopEntries] using h
  rw [hbase]
  rfl

theorem read_back_unless_hidden_shop :
    ∃ settings : Settings, settings.base.module = .str "shop.models" ∧
      (∃ written again, settings.write = .ok written ∧ read written = .ok again ∧
        again.visible = settings.visible) ∧
      read (.obj (essence shopEntries)) = .ok settings := by
  have hread : read (.obj shopEntries) =
      .ok { base := { module := .str "shop.models" }, output := { mode := .error } } := by
    decide +kernel
  have hplain : Entrywise shopEntries := by
    refine ⟨by decide, fun base hbase => ?_⟩
    rw [BaseNames.Entrywise, base_shopEntries hbase]
    decide
  have hshop := read_back_unless_hidden shopEntries _ hread (by decide) hplain
  refine ⟨_, rfl, hshop.1.mpr ?_, hshop.2.mpr ?_⟩
  · rintro (hmem | ⟨base, hbase, hmem⟩)
    · exact absurd hmem (by decide)
    · rw [base_shopEntries hbase] at hmem
      exact absurd hmem (by decide)
  · rintro (hmem | ⟨base, hbase, hmem⟩)
    · exact absurd hmem (by decide)
    · rw [base_shopEntries hbase] at hmem
      exact absurd hmem (by decide)

/-- An entry that has the name of an operation is taken, and then the operation is gone. -/
theorem hidden_writing : ∃ settings, read (.obj [("to_dict", .int 1)]) = .ok settings ∧
    ∀ written, settings.write ≠ .ok written :=
  ⟨{ writeHidden := true }, by decide +kernel, nofun⟩

end Settings

end ModelMint
