import ModelMint.Instance.Run
import ModelMint.Proofs.Instance.Store
import ModelMint.Proofs.Package.Origin
import ModelMint.Proofs.Text.AttributeNames

/-!
# What names mean on an instance

The names of a generated class keep out of each other's way: its attributes are no
accessors and no names of the base, and its constants are no accessors.  So a getter and
a setter mean those of their field, and a name of the base means the operation of the
base unless a constant has taken it.
-/

namespace ModelMint

open ModelMint.Emit
open ModelMint.Blueprint

/-! ## Names of the base -/

/-- A name with an underscore in front that is followed by no digit. -/
def Internal (name : String) : Prop :=
  ∃ c rest, name.toList = '_' :: c :: rest ∧ c.isDigit = false

theorem baseMember?_eq_some {name : String} {member : Member}
    (h : baseMember? name = some member) : name = "to_dict" ∨ Internal name := by
  unfold baseMember? at h
  split at h
  next htable =>
    obtain rfl : name = LoadedClass.tableName := by simpa using htable
    exact .inr ⟨'F', _, rfl, rfl⟩
  · split at h
    next hhash =>
      obtain rfl : name = "__hash__" := by simpa using hhash
      exact .inr ⟨'_', _, rfl, rfl⟩
    · unfold Operation.ofName? at h
      split at h <;> first
        | exact .inl rfl
        | exact .inr ⟨_, _, rfl, rfl⟩
        | cases h

theorem baseMember?_of_isLower {name : String} {c : Char} (hname : name ≠ "to_dict")
    (hhead : name.toList.head? = some c) (hlower : c.isLower = true) : baseMember? name = none := by
  cases hmember : baseMember? name with
  | none => rfl
  | some member =>
      rcases baseMember?_eq_some hmember with rfl | ⟨second, rest, hname, -⟩
      · exact absurd rfl hname
      · rw [hname] at hhead
        cases hhead
        cases hlower

/-! ## Private names -/

/-- A private name carries the name of its class between one underscore and two. -/
theorem privateName_cases (className name : String) :
    privateName className name = name ∨
      ∃ c owner rest, c ≠ '_' ∧
        (privateName className name).toList = '_' :: c :: (owner ++ '_' :: '_' :: rest) := by
  unfold privateName
  simp only
  split
  next hprivate =>
    right
    simp only [Bool.and_eq_true, List.isPrefixOf_iff_prefix] at hprivate
    obtain ⟨⟨⟨rest, hrest⟩, -⟩, howner⟩ := hprivate
    cases hdrop : className.toList.dropWhile (· == '_') with
    | nil => simp [hdrop] at howner
    | cons c owner =>
        refine ⟨c, owner, rest, ?_, by simp [← hrest]⟩
        have hhead := List.head?_dropWhile_not (· == '_') className.toList
        rw [hdrop] at hhead
        simpa using hhead
  · exact .inl rfl

theorem privateName_eq_self {className name : String}
    (h : ¬ ['_', '_'] <+: name.toList) : privateName className name = name := by
  have hprefix : ['_', '_'].isPrefixOf name.toList = false := by
    rw [← Bool.not_eq_true, List.isPrefixOf_iff_prefix]
    exact h
  simp [privateName, hprefix]

theorem baseMember?_of_private {name : String} {c : Char} {owner rest : List Char} (hc : c ≠ '_')
    (hname : name.toList = '_' :: c :: (owner ++ '_' :: '_' :: rest)) : baseMember? name = none := by
  have hinfix : ['_', '_'] <:+: name.toList.drop 2 := by
    rw [hname]
    exact ⟨owner, rest, by simp⟩
  have hsecond : name.toList.take 2 = ['_', c] := by rw [hname]; simp
  clear hname
  cases hmember : baseMember? name with
  | none => rfl
  | some member =>
      exfalso
      unfold baseMember? at hmember
      split at hmember
      next htable =>
        obtain rfl : name = LoadedClass.tableName := by simpa using htable
        revert hinfix
        decide
      · split at hmember
        next hhash =>
          obtain rfl : name = "__hash__" := by simpa using hhash
          cases hsecond
          exact hc rfl
        · unfold Operation.ofName? at hmember
          split at hmember <;> first
            | (revert hinfix; decide)
            | (cases hsecond; exact hc rfl)
            | cases hmember

theorem baseMember?_privateName {className name : String} (h : baseMember? name = none) :
    baseMember? (privateName className name) = none := by
  rcases privateName_cases className name with hsame | ⟨c, owner, rest, hc, hname⟩
  · rw [hsame]
    exact h
  · exact baseMember?_of_private hc hname

theorem privateName_head {className name : String}
    (h : ∀ c, name.toList.head? = some c → c.isLower = false) {c : Char}
    (hc : (privateName className name).toList.head? = some c) : c.isLower = false := by
  rcases privateName_cases className name with hsame | ⟨second, owner, rest, -, hname⟩
  · rw [hsame] at hc
    exact h c hc
  · rw [hname] at hc
    cases hc
    decide

/-! ## Regular classes -/

/-- A class whose names keep out of each other's way. -/
structure LoadedClass.Regular (item : LoadedClass) : Prop where
  internal : ∀ field ∈ item.fields, ¬ Internal field.attr
  exported : ∀ field ∈ item.fields, field.attr ≠ "to_dict"
  distinct : (item.fields.map FieldCode.attr).Nodup
  accessors : ∀ field ∈ item.fields, ∀ other ∈ item.fields,
    isAccessorOf field.attr other.attr = false
  constants : ∀ key ∈ Entries.keys item.constants, ∀ c, key.toList.head? = some c →
    c.isLower = false
  setterFields : ∀ code ∈ item.setters, ∃ field ∈ item.fields, field.attr = code.attr
  setterDistinct : (item.setters.map SetterCode.attr).Nodup

theorem isAccessorOf_self (attr : String) : isAccessorOf attr attr = false := by
  have hlength : ∀ verb : String, verb.length ≠ 0 → attr ≠ verb ++ attr := by
    intro verb hverb heq
    have := congrArg String.length heq
    rw [String.length_append] at this
    omega
  simp only [isAccessorOf, getter, setter, Bool.or_eq_false_iff, beq_eq_false_iff_ne]
  exact ⟨hlength _ (by decide), hlength _ (by decide)⟩

variable {className : String} {module : ClassModule} {item : LoadedClass}

theorem LoadedClass.load_eq_ok (h : LoadedClass.load module = .ok item) :
    ∃ constants, module.constants.mapM (loadConstant module.name) = .ok constants ∧
      item = {
        name := module.name
        constants := (Entries.ofList constants).filter (·.1 != tableName)
        fields := module.fields
        setters := module.setters } := by
  unfold load at h
  obtain ⟨constants, hconstants, h⟩ := bind_eq_ok.mp h
  exact ⟨constants, hconstants, (Except.ok.inj h).symm⟩

theorem LoadedClass.exists_constant (h : LoadedClass.load module = .ok item) {key : String}
    (hkey : key ∈ Entries.keys item.constants) :
    ∃ constant ∈ module.constants, key = privateName module.name constant.name ∧
      key ≠ tableName := by
  obtain ⟨constants, hconstants, rfl⟩ := load_eq_ok h
  obtain ⟨entry, hentry, rfl⟩ := List.mem_map.mp hkey
  obtain ⟨hmem, htable⟩ := List.mem_filter.mp hentry
  have hname : entry.1 ∈ Entries.keys constants :=
    Entries.mem_keys_ofList.mp (List.mem_map.mpr ⟨entry, hmem, rfl⟩)
  obtain ⟨pair, hpair, hfirst⟩ := List.mem_map.mp hname
  obtain ⟨constant, hconstant, hloaded⟩ := exists_left_of_mem (mapM_eq_ok.mp hconstants) hpair
  obtain ⟨value, -, rfl⟩ := map_eq_ok.mp hloaded
  exact ⟨constant, hconstant, hfirst.symm, by simpa using htable⟩

section Planned

variable {document : Schema.Document} {width : Json} {definition : Schema.Definition} {plan : Plan}
  {member other : Blueprint.Member} (hplanned : Planned document width definition plan)
include hplanned

theorem Blueprint.Planned.attr_not_internal (hmember : member ∈ plan.members) :
    ¬ Internal member.field.attr := by
  rintro ⟨c, rest, hname, hdigit⟩
  rw [hplanned.attr_eq hmember, String.toList_ofList] at hname
  obtain ⟨digit, tail, hrest, hisDigit⟩ := Text.attributeName_underscore hname
  cases hrest
  rw [hisDigit] at hdigit
  cases hdigit

theorem Blueprint.Planned.attr_ne_export (hmember : member ∈ plan.members) :
    member.field.attr ≠ "to_dict" := by
  intro hname
  have hreserved : "to_dict" ∈ Text.reservedAttributes := by decide
  apply Text.attributeName_ne_reserved member.field.name.toList hreserved
  rw [← hname, hplanned.attr_eq hmember, String.toList_ofList]

/-- No member is named like an accessor, whichever of two members comes first. -/
theorem Blueprint.Planned.not_isAccessorOf (hmember : member ∈ plan.members)
    (hother : other ∈ plan.members) : isAccessorOf member.field.attr other.field.attr = false := by
  have hcompatible := hplanned.compatible.imp fun h => compatible_iff.mp h
  obtain ⟨i, hi, rfl⟩ := List.mem_iff_getElem.mp hmember
  obtain ⟨j, hj, rfl⟩ := List.mem_iff_getElem.mp hother
  rcases Nat.lt_trichotomy i j with hlt | rfl | hlt
  · exact (List.pairwise_iff_getElem.mp hcompatible i j hi hj hlt).2.2
  · exact isAccessorOf_self _
  · exact (List.pairwise_iff_getElem.mp hcompatible j i hj hi hlt).2.1

/-- A class that is loaded from a plan, over the standard base, is regular. -/
theorem Blueprint.Planned.regular {lines : List String}
    (hload : LoadedClass.load (standardModule lines plan) = .ok item) : item.Regular := by
  have hconstants : ∀ key ∈ Entries.keys item.constants,
      ∃ constant ∈ (standardModule lines plan).constants,
        key = privateName (standardModule lines plan).name constant.name ∧
          key ≠ LoadedClass.tableName :=
    fun key hkey => LoadedClass.exists_constant hload hkey
  obtain ⟨constants, -, rfl⟩ := LoadedClass.load_eq_ok hload
  have hmembers : ∀ field ∈ (standardModule lines plan).fields,
      ∃ member ∈ plan.members, fieldCode {} member.field = field := by
    intro field hfield
    obtain ⟨planned, hfields, rfl⟩ := List.mem_map.mp hfield
    obtain ⟨member, hmember, rfl⟩ := List.mem_map.mp hfields
    exact ⟨member, hmember, rfl⟩
  have hdistinct := List.pairwise_map.mp hplanned.distinct_attrs
  refine ⟨?_, ?_, ?_, ?_, ?_, ?_, ?_⟩
  · intro field hfield
    obtain ⟨member, hmember, rfl⟩ := hmembers field hfield
    exact hplanned.attr_not_internal hmember
  · intro field hfield
    obtain ⟨member, hmember, rfl⟩ := hmembers field hfield
    exact hplanned.attr_ne_export hmember
  · change ((plan.fields.map (fieldCode {})).map FieldCode.attr).Nodup
    rw [Plan.fields, List.map_map, List.map_map, List.Nodup, List.pairwise_map]
    exact hdistinct
  · intro field hfield other hother
    obtain ⟨member, hmember, rfl⟩ := hmembers field hfield
    obtain ⟨second, hsecond, rfl⟩ := hmembers other hother
    exact hplanned.not_isAccessorOf hmember hsecond
  · intro key hkey c hc
    obtain ⟨constant, hconstant, rfl, -⟩ := hconstants key hkey
    obtain ⟨entry, -, values, -, value, -, rfl⟩ := (mem_constants_iff hplanned).mp hconstant
    exact privateName_head (fun c hc => Constant.ofValue_name_head hc) hc
  · intro code hcode
    obtain ⟨member, hmember, rfl⟩ := List.mem_map.mp hcode
    have hmem := (List.mem_filter.mp hmember).1
    exact ⟨fieldCode {} member.field, List.mem_map.mpr ⟨_, List.mem_map.mpr ⟨_, hmem, rfl⟩, rfl⟩,
      rfl⟩
  · change ((plan.setters.map standardSetter).map SetterCode.attr).Nodup
    rw [List.map_map, List.Nodup, List.pairwise_map]
    exact hdistinct.filter _

end Planned

/-! ## Standard classes -/

/-- A loaded class over the standard base, with the plan that it comes from. -/
structure Standard (plan : Plan) (item : LoadedClass) : Prop where
  name : item.name = plan.name
  fields : item.fields = plan.fields.map (fieldCode {})
  setters : item.setters = plan.setters.map standardSetter
  regular : item.Regular

theorem Blueprint.Planned.standard_class {document : Schema.Document} {width : Json}
    {definition : Schema.Definition} {plan : Plan} {lines : List String}
    (hplanned : Planned document width definition plan)
    (hload : LoadedClass.load (standardModule lines plan) = .ok item) : Standard plan item := by
  have hregular := hplanned.regular hload
  obtain ⟨constants, -, rfl⟩ := LoadedClass.load_eq_ok hload
  exact ⟨rfl, rfl, rfl, hregular⟩

theorem Package.Origin.standard_class {settings : Settings} {comment schema : Json}
    {document : Schema.Document} {definition : Schema.Definition} {plan : Plan}
    (horigin : Package.Origin settings comment schema document definition plan module)
    (hbase : settings.base = {}) (hload : LoadedClass.load module = .ok item) :
    Standard plan item := by
  obtain ⟨lines, rfl⟩ := horigin.standard hbase
  exact horigin.planned_members.standard_class hload

variable {plan : Plan}

theorem Standard.field_mem (h : Standard plan item) {member : Blueprint.Member}
    (hmember : member ∈ plan.members) : fieldCode {} member.field ∈ item.fields := by
  rw [h.fields]
  exact List.mem_map.mpr ⟨_, List.mem_map.mpr ⟨_, hmember, rfl⟩, rfl⟩

theorem Standard.member_of_field (h : Standard plan item) {field : FieldCode}
    (hfield : field ∈ item.fields) : ∃ member ∈ plan.members, field = fieldCode {} member.field := by
  rw [h.fields] at hfield
  obtain ⟨planned, hplanned, rfl⟩ := List.mem_map.mp hfield
  obtain ⟨member, hmember, rfl⟩ := List.mem_map.mp hplanned
  exact ⟨member, hmember, rfl⟩

theorem Standard.eq_of_attr_eq (h : Standard plan item) {member other : Blueprint.Member}
    (hmember : member ∈ plan.members) (hother : other ∈ plan.members)
    (hattr : member.field.attr = other.field.attr) : member = other := by
  have hdistinct := h.regular.distinct
  rw [h.fields, Plan.fields, List.map_map, List.map_map] at hdistinct
  exact List.inj_on_of_nodup_map hdistinct hmember hother hattr

/-- Exactly the members with rules have a setter of their own. -/
theorem Standard.setter?_eq (h : Standard plan item) {member : Blueprint.Member}
    (hmember : member ∈ plan.members) :
    item.setter? member.field.attr =
      if member.rules.isEmpty then none else some (standardSetter member) := by
  have hof : ∀ code ∈ item.setters, code.attr = member.field.attr →
      code = standardSetter member ∧ member.rules.isEmpty = false := by
    intro code hcode hattr
    rw [h.setters] at hcode
    obtain ⟨other, hother, rfl⟩ := List.mem_map.mp hcode
    obtain ⟨hmem, hrules⟩ := List.mem_filter.mp hother
    obtain rfl := h.eq_of_attr_eq hmem hmember hattr
    exact ⟨rfl, by simpa using hrules⟩
  unfold LoadedClass.setter?
  cases hfind : item.setters.find? (·.attr == member.field.attr) with
  | some code =>
      have hattr : code.attr = member.field.attr := by simpa using List.find?_some hfind
      obtain ⟨hcode, hrules⟩ := hof code (List.mem_of_find?_eq_some hfind) hattr
      rw [hrules, hcode]
      rfl
  | none =>
      cases hrules : member.rules.isEmpty with
      | true => rfl
      | false =>
          have hmem : standardSetter member ∈ item.setters := by
            rw [h.setters]
            exact List.mem_map.mpr ⟨member, List.mem_filter.mpr ⟨hmember, by simp [hrules]⟩, rfl⟩
          have := List.find?_eq_none.mp hfind _ hmem
          exact absurd (beq_self_eq_true _) this

/-! ## Instances of a loaded class -/

/-- An instance of a loaded class that holds attributes of the class only. -/
structure Live (library : Library) (item : LoadedClass) (store : Store) (id : Nat) : Prop where
  inside : id < store.size
  loaded : library.find? (store.classOf id) = some item
  held : ∀ attr ∈ Entries.keys (store.attributes id), ∃ field ∈ item.fields, field.attr = attr

variable {library : Library} {store : Store} {id : Nat}

theorem Live.put (h : Live library item store id) {field : FieldCode} (hfield : field ∈ item.fields)
    (value : Value) : Live library item (store.put id field.attr value) id := by
  refine ⟨by simpa using h.inside, by simpa using h.loaded, ?_⟩
  intro attr hattr
  rw [Store.attributes_put_self _ _ _ _ h.inside, Entries.mem_keys_insert] at hattr
  rcases hattr with rfl | hattr
  · exact ⟨field, hfield, rfl⟩
  · exact h.held attr hattr

theorem Live.attribute?_eq_none (h : Live library item store id) {name : String}
    (hname : ∀ field ∈ item.fields, field.attr ≠ name) : store.attribute? id name = none := by
  rw [Store.attribute?, Entries.get?_eq_none_iff]
  intro hmem
  obtain ⟨field, hfield, hattr⟩ := h.held name hmem
  exact hname field hfield hattr

theorem LoadedClass.contains_fieldNames {field : FieldCode} (hfield : field ∈ item.fields) :
    Entries.contains field.attr item.fieldNames = true := by
  rw [Entries.contains_iff_mem_keys, fieldNames, Entries.keys, List.map_map]
  exact List.mem_map.mpr ⟨field, hfield, rfl⟩

/-- The attribute of a key is that of a field which the key is the attribute or the name of. -/
theorem LoadedClass.field_of_attributeOf? {key attr : String}
    (h : item.attributeOf? key = some attr) :
    ∃ field ∈ item.fields, field.attr = attr ∧ (key = field.attr ∨ key = field.name) := by
  unfold attributeOf? at h
  split at h
  next hcontains =>
    cases h
    rw [Entries.contains_iff_mem_keys, fieldNames, Entries.keys, List.map_map] at hcontains
    obtain ⟨field, hfield, rfl⟩ := List.mem_map.mp hcontains
    exact ⟨field, hfield, rfl, .inl rfl⟩
  · obtain ⟨field, hfield, hattr⟩ := Option.map_eq_some_iff.mp h
    have hname := List.find?_some hfield
    exact ⟨field, List.mem_of_find?_eq_some hfield, hattr, .inr (beq_iff_eq.mp hname).symm⟩

theorem LoadedClass.exists_attributeOf? {field : FieldCode} (hfield : field ∈ item.fields)
    {key : String} (hkey : key = field.attr ∨ key = field.name) :
    ∃ attr, item.attributeOf? key = some attr := by
  rw [← Option.isSome_iff_exists]
  unfold attributeOf?
  split
  · rfl
  next hcontains =>
    obtain rfl : key = field.name := by
      refine hkey.resolve_left ?_
      rintro rfl
      exact hcontains (contains_fieldNames hfield)
    rw [Option.isSome_map, List.find?_isSome]
    exact ⟨field, hfield, beq_self_eq_true _⟩

/-- A name that begins with a small letter is no constant. -/
theorem LoadedClass.Regular.constant_eq_none (h : item.Regular) {name : String} {c : Char}
    (hhead : name.toList.head? = some c) (hlower : c.isLower = true) :
    Entries.get? name item.constants = none := by
  rw [Entries.get?_eq_none_iff]
  intro hmem
  rw [h.constants name hmem c hhead] at hlower
  cases hlower

/-! ## Accessors -/

theorem toList_getter (attr : String) :
    (getter attr).toList = 'g' :: 'e' :: 't' :: '_' :: attr.toList := by
  simp [getter]

theorem toList_setter (attr : String) :
    (setter attr).toList = 's' :: 'e' :: 't' :: '_' :: attr.toList := by
  simp [setter]

theorem ne_of_head?_ne {name other : String} (h : name.toList.head? ≠ other.toList.head?) :
    name ≠ other := fun heq => h (by rw [heq])

theorem findMember_getter (hregular : item.Regular) (hlive : Live library item store id)
    {field : FieldCode} (hfield : field ∈ item.fields) :
    findMember library id (getter field.attr) store = .ok (.reader field.attr) := by
  have hhead : (getter field.attr).toList.head? = some 'g' := by rw [toList_getter]; rfl
  have hexport : getter field.attr ≠ "to_dict" :=
    ne_of_head?_ne (by rw [hhead]; decide)
  have hheld : store.attribute? id (getter field.attr) = none := by
    apply hlive.attribute?_eq_none
    intro other hother hsame
    have := hregular.accessors other hother field hfield
    simp [isAccessorOf, hsame] at this
  have hclass : item.member? (getter field.attr) = none := by
    have htable : getter field.attr ≠ LoadedClass.tableName :=
      ne_of_head?_ne (by rw [hhead]; decide)
    have hconstant := hregular.constant_eq_none hhead (by decide)
    simp [LoadedClass.member?, toList_getter, hexport, htable, hconstant]
  have hbase : baseMember? (getter field.attr) = none :=
    baseMember?_of_isLower hexport hhead (by decide)
  have haccessor : item.accessor? (getter field.attr) = some (.reader field.attr) := by
    simp [LoadedClass.accessor?, LoadedClass.splitName, toList_getter,
      LoadedClass.contains_fieldNames hfield]
  have hattributes : getter field.attr ≠ attributesName :=
    ne_of_head?_ne (by rw [hhead]; decide)
  simp [findMember, hattributes, hheld, classMember?, hlive.loaded, hclass, hbase, findAccessor,
    haccessor]

/-- The setter of a field is the one of the class, or else an accessor without code. -/
theorem findMember_setter (hregular : item.Regular) (hlive : Live library item store id)
    {field : FieldCode} (hfield : field ∈ item.fields) :
    findMember library id (setter field.attr) store =
      .ok (match item.setter? field.attr with
        | some code => .setter code
        | none => .writer field.attr) := by
  have hhead : (setter field.attr).toList.head? = some 's' := by rw [toList_setter]; rfl
  have hexport : setter field.attr ≠ "to_dict" :=
    ne_of_head?_ne (by rw [hhead]; decide)
  have hheld : store.attribute? id (setter field.attr) = none := by
    apply hlive.attribute?_eq_none
    intro other hother hsame
    have := hregular.accessors other hother field hfield
    simp [isAccessorOf, hsame] at this
  have hattributes : setter field.attr ≠ attributesName :=
    ne_of_head?_ne (by rw [hhead]; decide)
  cases hcode : item.setter? field.attr with
  | some code =>
      simp [findMember, hattributes, hheld, classMember?, hlive.loaded, LoadedClass.member?,
        toList_setter, hcode]
  | none =>
      have hclass : item.member? (setter field.attr) = none := by
        have htable : setter field.attr ≠ LoadedClass.tableName :=
          ne_of_head?_ne (by rw [hhead]; decide)
        have hconstant := hregular.constant_eq_none hhead (by decide)
        simp [LoadedClass.member?, toList_setter, hcode, hexport, htable, hconstant]
      have hbase : baseMember? (setter field.attr) = none :=
        baseMember?_of_isLower hexport hhead (by decide)
      have haccessor : item.accessor? (setter field.attr) = some (.writer field.attr) := by
        simp [LoadedClass.accessor?, LoadedClass.splitName, toList_setter,
          LoadedClass.contains_fieldNames hfield]
      simp [findMember, hattributes, hheld, classMember?, hlive.loaded, hclass, hbase,
        findAccessor, haccessor]

/-! ## Operations of the base -/

/-- An operation of the base is found unless a constant of the class has its name. -/
theorem findMember_operation (hregular : item.Regular) (hlive : Live library item store id)
    {name : String} {operation : Operation} (hinternal : Internal name)
    (hname : baseMember? name = some (.operation operation)) (htable : name ≠ LoadedClass.tableName)
    (hattributes : name ≠ attributesName) :
    findMember library id name store =
      .ok (match Entries.get? name item.constants with
        | some value => .value value
        | none => .operation operation) := by
  obtain ⟨c, rest, hlist, hdigit⟩ := hinternal
  have hheld : store.attribute? id name = none := by
    apply hlive.attribute?_eq_none
    rintro field hfield rfl
    exact hregular.internal field hfield ⟨c, rest, hlist, hdigit⟩
  have hexport : name ≠ "to_dict" := ne_of_head?_ne (by rw [hlist]; simp)
  have hclass : item.member? name = (Entries.get? name item.constants).map Member.value := by
    simp [LoadedClass.member?, hlist, hexport, htable]
  cases hconstant : Entries.get? name item.constants <;>
    simp [findMember, hattributes, hheld, classMember?, hlive.loaded, hclass, hconstant, hname]

/-- The base has the operation under the name, and no class makes the name its own. -/
structure Operation.HasName (operation : Operation) (name : String) : Prop where
  known : baseMember? name = some (.operation operation)
  internal : Internal name
  shared : ¬ ['_', '_'] <+: name.toList

namespace Operation.HasName

theorem elements : checkElements.HasName "_check_if_pure_array" :=
  ⟨rfl, ⟨_, _, rfl, rfl⟩, by decide⟩

theorem number : checkNumber.HasName numberCheckName := ⟨rfl, ⟨_, _, rfl, rfl⟩, by decide⟩

theorem moment : parseMoment.HasName "_parse_date" := ⟨rfl, ⟨_, _, rfl, rfl⟩, by decide⟩

theorem oneOf : checkOneOf.HasName "_check_enum_bounds" := ⟨rfl, ⟨_, _, rfl, rfl⟩, by decide⟩

theorem exporter : exportElements.HasName "_convert_pure_array" :=
  ⟨rfl, ⟨_, _, rfl, rfl⟩, by decide⟩

theorem reader : readAttribute.HasName readerName := ⟨rfl, ⟨_, _, rfl, rfl⟩, by decide⟩

theorem writer : writeAttribute.HasName writerName := ⟨rfl, ⟨_, _, rfl, rfl⟩, by decide⟩

variable {operation : Operation} {name : String} (h : operation.HasName name)
include h

theorem privateName_eq (className : String) : privateName className name = name :=
  privateName_eq_self h.shared

theorem findMember (hregular : item.Regular) (hlive : Live library item store id) :
    ModelMint.findMember library id name store =
      .ok (match Entries.get? name item.constants with
        | some value => .value value
        | none => .operation operation) := by
  have hknown := h.known
  refine findMember_operation hregular hlive h.internal hknown ?_ ?_ <;>
    (rintro rfl; cases hknown)

end Operation.HasName

end ModelMint
