import ModelMint.Proofs.Instance.Constants
import ModelMint.Proofs.Instance.Limits
import ModelMint.Proofs.Text.AttributeNames

/-!
# The names of a class

Four kinds of names share one class: the attributes of its fields, their accessors, the
constants of allowed values, and the members of the base.  Fields are checked against
each other and against the base when a class is planned.  Constants are not: what keeps
them apart is the form of their names, and it does not where a property has no name or
one that is led by a digit.
-/

namespace ModelMint

open ModelMint.Emit
open ModelMint.Blueprint
open ModelMint.Schema

/-! ## Names of the base -/

/-- A word between two underscores on each side. -/
def IsSpecial (name : String) : Prop :=
  ∃ word, word ≠ [] ∧ name.toList = '_' :: '_' :: (word ++ ['_', '_'])

/-- A name that the base has a member for: the table of names, an operation, or what the language
gives to every class. -/
def IsBaseName (name : String) : Prop := (baseMember? name).isSome = true ∨ IsSpecial name

/-- What stands behind the underscore in the names of the base that are not special. -/
def baseWords : List String :=
  ["FIELDS", "get_field", "set_field", "check_if_pure_array", "check_array_bounds",
    "check_integer_bounds", "check_float_bounds", "check_bounds", "check_enum_bounds",
    "parse_date", "convert_pure_array"]

/-- The special names among those that are looked up on instances. -/
def specialNames : List String :=
  ["__hash__", "__getattr__", "__setattr__", "__repr__", "__str__", "__init__"]

theorem isSpecial_of_mem : ∀ name ∈ specialNames, IsSpecial name := by
  simp only [specialNames, List.forall_mem_cons]
  exact ⟨⟨"hash".toList, by decide, rfl⟩, ⟨"getattr".toList, by decide, rfl⟩,
    ⟨"setattr".toList, by decide, rfl⟩, ⟨"repr".toList, by decide, rfl⟩,
    ⟨"str".toList, by decide, rfl⟩, ⟨"init".toList, by decide, rfl⟩, by simp⟩

theorem mem_names_of_baseMember? {name : String} (h : (baseMember? name).isSome = true) :
    name ∈ "to_dict" :: (baseWords.map ("_" ++ ·) ++ specialNames) := by
  unfold baseMember? at h
  split at h
  next htable =>
    obtain rfl : name = LoadedClass.tableName := by simpa using htable
    decide
  · split at h
    next hhash =>
      obtain rfl : name = "__hash__" := by simpa using hhash
      decide
    · unfold Operation.ofName? at h
      split at h <;> first
        | decide
        | cases h

theorem baseMember?_cases {name : String} (h : (baseMember? name).isSome = true) :
    name = "to_dict" ∨ (∃ word ∈ baseWords, name = "_" ++ word) ∨ IsSpecial name := by
  rcases List.mem_cons.mp (mem_names_of_baseMember? h) with hexport | hothers
  · exact .inl hexport
  · rcases List.mem_append.mp hothers with hword | hspecial
    · obtain ⟨word, hmem, rfl⟩ := List.mem_map.mp hword
      exact .inr (.inl ⟨word, hmem, rfl⟩)
    · exact .inr (.inr (isSpecial_of_mem name hspecial))

theorem isBaseName_word : ∀ word ∈ baseWords, (baseMember? ("_" ++ word)).isSome = true := by
  decide

theorem IsBaseName.cases {name : String} (h : IsBaseName name) :
    name = "to_dict" ∨ (∃ word ∈ baseWords, name = "_" ++ word) ∨ IsSpecial name := by
  rcases h with hmember | hspecial
  · exact baseMember?_cases hmember
  · exact .inr (.inr hspecial)

/-- Every name of the base but the export has an underscore in front and no digit behind it. -/
theorem IsBaseName.internal {name : String} (h : IsBaseName name) :
    name = "to_dict" ∨ Internal name := by
  rcases h with hmember | ⟨word, -, hname⟩
  · obtain ⟨member, hmember⟩ := Option.isSome_iff_exists.mp hmember
    exact baseMember?_eq_some hmember
  · exact .inr ⟨'_', _, hname, by decide⟩

/-! ## Fields -/

/-- Attributes that are apart from each other, from their accessors and from the base. -/
structure FieldsApart (plan : Plan) : Prop where
  pairwise : plan.fields.Pairwise fun earlier later => earlier.attr ≠ later.attr ∧
    isAccessorOf earlier.attr later.attr = false ∧ isAccessorOf later.attr earlier.attr = false
  declared : ∀ field ∈ plan.fields,
    Text.isPlainName field.attr.toList = true ∧ field.attr ≠ receiverName
  base : ∀ field ∈ plan.fields, ∀ name,
    name = field.attr ∨ name = getter field.attr ∨ name = setter field.attr → ¬ IsBaseName name

/-- On an instance the accessors of a member are found: its getter, and its setter with or without
checks. -/
structure AccessorsFound (library : Library) (store : Store) (id : Nat)
    (member : Blueprint.Member) : Prop where
  getter : findMember library id (getter member.field.attr) store = .ok (.reader member.field.attr)
  setter : findMember library id (setter member.field.attr) store =
    .ok (if member.rules.isEmpty then .writer member.field.attr
      else .setter (standardSetter member))

section Fields

variable {document : Document} {width : Json} {definition : Definition} {plan : Plan}
  {item : LoadedClass} {library : Library} {store : Store} {id : Nat}

theorem Blueprint.Planned.exists_attributeName (h : Planned document width definition plan)
    {field : Field} (hfield : field ∈ plan.fields) : ∃ entry ∈ definition.properties,
      field.attr.toList = Text.attributeName entry.2.name.toList := by
  obtain ⟨member, hmember, rfl⟩ := List.mem_map.mp hfield
  obtain ⟨entry, hentry, hmade⟩ := h.exists_property hmember
  exact ⟨entry, hentry, by rw [hmade.field.attr, String.toList_ofList]⟩

theorem Blueprint.Planned.fieldsApart (h : Planned document width definition plan) :
    FieldsApart plan := by
  refine ⟨?_, fun field hfield => ?_, fun field hfield name hname hbase => ?_⟩
  · rw [Plan.fields, List.pairwise_map]
    exact h.compatible.imp fun hcompatible =>
      ⟨(compatible_iff.mp hcompatible).1, (compatible_iff.mp hcompatible).2.symm⟩
  · obtain ⟨entry, -, hattr⟩ := h.exists_attributeName hfield
    refine ⟨by rw [hattr]; exact Text.isPlainName_attributeName _, fun hself => ?_⟩
    have hreserved : receiverName ∈ Text.reservedAttributes := by decide
    exact Text.attributeName_ne_reserved _ hreserved (by rw [← hattr, hself])
  · obtain ⟨entry, -, hattr⟩ := h.exists_attributeName hfield
    have hverb : ∀ c rest, name.toList = c :: rest → c.isLower = true → name ≠ "to_dict" → False := by
      intro c rest hlist hlower hexport
      rcases hbase.internal with hsame | ⟨second, others, hinternal, -⟩
      · exact hexport hsame
      · rw [hlist] at hinternal
        obtain rfl := (List.cons.inj hinternal).1
        exact absurd hlower (by decide)
    rcases hname with rfl | rfl | rfl
    · rcases hbase.internal with hexport | ⟨c, rest, hinternal, hdigit⟩
      · have hreserved : "to_dict" ∈ Text.reservedAttributes := by decide
        exact Text.attributeName_ne_reserved _ hreserved (by rw [← hattr, hexport])
      · rw [hattr] at hinternal
        obtain ⟨digit, tail, hrest, hisDigit⟩ := Text.attributeName_underscore hinternal
        obtain rfl := (List.cons.inj hrest).1
        rw [hisDigit] at hdigit
        cases hdigit
    · exact hverb _ _ (toList_getter _) (by decide)
        (ne_of_head?_ne (by rw [toList_getter]; simp))
    · exact hverb _ _ (toList_setter _) (by decide)
        (ne_of_head?_ne (by rw [toList_setter]; simp))

theorem Standard.accessorsFound (hstandard : Standard plan item)
    (hlive : Live library item store id) {member : Blueprint.Member}
    (hmember : member ∈ plan.members) : AccessorsFound library store id member :=
  ⟨findMember_getter hstandard.regular hlive (hstandard.field_mem hmember),
    findMember_memberSetter hstandard hlive hmember⟩

end Fields

/-- The fields of an accepted definition are apart from each other and from the base, so on an
instance of the class, in every state that setters lead to, each accessor is found under its name. -/
theorem fields_keep_apart {document : Document} {width : Json} {definition : Definition}
    {plan : Plan} (hplan : Plan.ofDefinition document width definition = .ok plan) :
    FieldsApart plan ∧
      ∀ (lines : List String) (item : LoadedClass) (library : Library),
        LoadedClass.load (standardModule lines plan) = .ok item →
        library.find? plan.name = some item →
        ∀ id store, Reachable library item plan.name id store →
          ∀ member ∈ plan.members, AccessorsFound library store id member := by
  have hplanned := Plan.ofDefinition_eq_ok hplan
  refine ⟨hplanned.fieldsApart, ?_⟩
  intro lines item library hload hfind id store hreachable member hmember
  have hstandard := hplanned.standard_class hload
  exact hstandard.accessorsFound (hreachable.accounted hstandard hfind).live hmember

/-- A stay in a room of some class, with a name of its own for the receiver. -/
def roomDefinition : Definition where
  name := "Stay"
  properties := [("class", { name := "class", path := "#/definitions/Stay/properties/class" }),
    ("self", { name := "self", path := "#/definitions/Stay/properties/self" }),
    ("3dView", { name := "3dView", enum := some [.int 3], path := "#/definitions/Stay/properties/3dView" })]
  path := "#/definitions/Stay"

def roomPlan : Plan where
  name := "Stay"
  path := "#/definitions/Stay"
  members := [
    { field := { name := "class", attr := "class_", initial := .absent } },
    { field := { name := "self", attr := "self_", initial := .absent } },
    { field := { name := "3dView", attr := "_3d_view", initial := .absent }
      rules := [.oneOf [.int 3]], constants := constantsOf "3dView" [.int 3] }]

def roomClass : LoadedClass :=
  match LoadedClass.load (standardModule [] roomPlan) with
  | .ok item => item
  | .error _ => { name := "Stay" }

/-- A new stay in a room of the first class. -/
def roomStore : Store := (Instance.make [("Stay", roomClass)] "Stay" [("class", .int 1)] {}).1

theorem fields_keep_apart_room :
    Plan.ofDefinition ⟨.null, []⟩ (.int 120) roomDefinition = .ok roomPlan ∧
      FieldsApart roomPlan ∧ Reachable [("Stay", roomClass)] roomClass "Stay" 0 roomStore ∧
      ∀ member ∈ roomPlan.members, AccessorsFound [("Stay", roomClass)] roomStore 0 member := by
  have hplan : Plan.ofDefinition ⟨.null, []⟩ (.int 120) roomDefinition = .ok roomPlan := rfl
  have hload : LoadedClass.load (standardModule [] roomPlan) = .ok roomClass := rfl
  have hmake : Instance.make [("Stay", roomClass)] "Stay" [("class", .int 1)] {} =
      (roomStore, .ok 0) := by
    with_unfolding_all rfl
  have hreachable : Reachable [("Stay", roomClass)] roomClass "Stay" 0 roomStore := .made hmake
  obtain ⟨hapart, hfound⟩ := fields_keep_apart hplan
  exact ⟨hplan, hapart, hreachable, hfound [] roomClass _ hload rfl 0 roomStore hreachable⟩

/-! ## Constants -/

/-- Constants that can be declared and are apart from attributes, accessors and the base. -/
structure ConstantsApart (plan : Plan) : Prop where
  declared : ∀ constant ∈ plan.constants, Text.isPlainName constant.name.toList = true
  attrs : ∀ constant ∈ plan.constants, ∀ field ∈ plan.fields, constant.name ≠ field.attr
  accessors : ∀ constant ∈ plan.constants, ∀ field ∈ plan.fields,
    isAccessorOf constant.name field.attr = false
  base : ∀ constant ∈ plan.constants, ¬ IsBaseName constant.name

/-- Allowed values whose constants are in nobody's way: those of a property without a name spell no
word of the base, and those of a property without a name or with one that is led by a digit spell no
attribute of a property that is led by a digit. -/
structure EnumsApart (definition : Definition) : Prop where
  words : ∀ entry ∈ definition.properties, entry.2.name = "" → ∀ values ∈ entry.2.enum,
    ∀ value ∈ values, ∀ word ∈ baseWords, Text.collapse value.plain ≠ word.toList
  attrs : ∀ entry ∈ definition.properties,
    entry.2.name = "" ∨ Text.isNumbered entry.2.name.toList = true → ∀ values ∈ entry.2.enum,
      ∀ value ∈ values, ∀ other ∈ definition.properties,
        Text.isNumbered other.2.name.toList = true →
          (Constant.ofValue entry.2.name value).name.toList ≠
            Text.attributeName other.2.name.toList

section Constants

variable {property : String} {value : Json}

theorem toList_ofValue (property : String) (value : Json) :
    (Constant.ofValue property value).name.toList =
      Text.constantPrefix property.toList ++ '_' :: Text.collapse value.plain := by
  rw [Constant.ofValue, String.toList_ofList]

theorem toList_ofValue_nameless (value : Json) :
    (Constant.ofValue "" value).name.toList = '_' :: Text.collapse value.plain := by
  rw [toList_ofValue]
  rfl

theorem constantPrefix_eq_nil_iff : Text.constantPrefix property.toList = [] ↔ property = "" := by
  rw [Text.constantPrefix_eq_nil, String.toList_eq_nil_iff]

/-- Underscores meet where the prefix of a constant ends, and nowhere else. -/
theorem not_isSpecial_ofValue : ¬ IsSpecial (Constant.ofValue property value).name := by
  rintro ⟨word, hword, hname⟩
  have hparted := Text.parted_collapse value.plain
  have hends : ∀ front : List Char, Text.collapse value.plain ≠ front ++ ['_', '_'] := by
    intro front hfront
    exact hparted.not_infix ⟨front, [], by rw [hfront, List.append_nil]⟩
  rw [toList_ofValue] at hname
  cases hfront : Text.constantPrefix property.toList with
  | nil =>
      rw [hfront] at hname
      exact hends ('_' :: word) (List.cons.inj hname).2
  | cons first rest =>
      rw [hfront] at hname
      obtain ⟨rfl, hrest⟩ := List.cons.inj hname
      cases rest with
      | nil => exact hends word (List.cons.inj hrest).2
      | cons second rest => exact Text.constantPrefix_second hfront (List.cons.inj hrest).1

/-- A word of the base begins with a small letter, or has no underscore. -/
theorem baseWords_form : ∀ word ∈ baseWords, ∃ c rest, word.toList = c :: rest ∧ c ≠ '_' ∧
    (c.isLower = true ∨ '_' ∉ word.toList) := by
  have hform : ∀ word ∈ baseWords, word.toList.head?.any (fun c =>
      c != '_' && (c.isLower || !word.toList.contains '_')) = true := by
    decide
  intro word hword
  have hhead := hform word hword
  cases hlist : word.toList with
  | nil => simp [hlist] at hhead
  | cons c rest =>
      rw [hlist] at hhead
      refine ⟨c, rest, rfl, ?_⟩
      simpa using hhead

/-- A prefix has no small letter, and no underscore stands where a word of the base begins. -/
theorem nameless_of_ofValue_eq {word : String} (hword : word ∈ baseWords)
    (hname : (Constant.ofValue property value).name.toList = '_' :: word.toList) :
    property = "" := by
  obtain ⟨c, others, hform, hne, hkind⟩ := baseWords_form word hword
  rw [toList_ofValue] at hname
  cases hfront : Text.constantPrefix property.toList with
  | nil => exact constantPrefix_eq_nil_iff.mp hfront
  | cons first rest =>
      exfalso
      rw [hfront] at hname
      have hrest : rest ++ '_' :: Text.collapse value.plain = word.toList :=
        (List.cons.inj hname).2
      have hlower : c.isLower = true := by
        refine hkind.resolve_right fun hnot => hnot ?_
        rw [← hrest]
        exact List.mem_append_right _ List.mem_cons_self
      cases rest with
      | nil => exact hne (List.cons.inj (hform.symm.trans hrest.symm)).1
      | cons second rest =>
          obtain rfl := (List.cons.inj (hform.symm.trans hrest.symm)).1
          have hmem : c ∈ Text.constantPrefix property.toList := by
            rw [hfront]
            exact List.mem_cons_of_mem _ List.mem_cons_self
          rw [Text.not_isLower_of_mem_constantPrefix hmem] at hlower
          cases hlower

/-- Only without a property name a constant can be called like a member of the base. -/
theorem isBaseName_ofValue_iff :
    IsBaseName (Constant.ofValue property value).name ↔
      property = "" ∧ ∃ word ∈ baseWords, Text.collapse value.plain = word.toList := by
  constructor
  · intro hbase
    rcases hbase.cases with hexport | ⟨word, hword, hname⟩ | hspecial
    · have hhead : (Constant.ofValue property value).name.toList.head? = some 't' := by
        rw [hexport]
        rfl
      exact absurd (Constant.ofValue_name_head hhead) (by decide)
    · have hlist : (Constant.ofValue property value).name.toList = '_' :: word.toList := by
        rw [hname, String.toList_append]
        rfl
      obtain rfl := nameless_of_ofValue_eq hword hlist
      rw [toList_ofValue_nameless] at hlist
      exact ⟨rfl, word, hword, (List.cons.inj hlist).2⟩
    · exact absurd hspecial not_isSpecial_ofValue
  · rintro ⟨rfl, word, hword, hcollapse⟩
    have hname : (Constant.ofValue "" value).name = "_" ++ word := by
      apply String.toList_injective
      rw [toList_ofValue_nameless, hcollapse, String.toList_append]
      rfl
    rw [hname]
    exact .inl (isBaseName_word word hword)

theorem ofValue_name_eq_iff {name : String} (hsome : (baseMember? name).isSome = true) :
    (Constant.ofValue property value).name = name ↔
      property = "" ∧ '_' :: Text.collapse value.plain = name.toList := by
  constructor
  · rintro rfl
    obtain ⟨rfl, -⟩ := isBaseName_ofValue_iff.mp (.inl hsome)
    exact ⟨rfl, (toList_ofValue_nameless value).symm⟩
  · rintro ⟨rfl, hlist⟩
    exact String.toList_injective ((toList_ofValue_nameless value).trans hlist)

/-- A constant can be called like an attribute only where both are led by a digit. -/
theorem isNumbered_of_attributeName_eq {other : List Char}
    (h : (Constant.ofValue property value).name.toList = Text.attributeName other) :
    (property = "" ∨ Text.isNumbered property.toList = true) ∧ Text.isNumbered other = true := by
  obtain ⟨c, hhead, hdigit⟩ := (Text.isWord_attributeName other).head
  obtain ⟨rest, hlist⟩ := List.head?_eq_some_iff.mp hhead
  have hlower : c.isLower = false := Constant.ofValue_name_head (by rw [h]; exact hhead)
  have hupper : c.isUpper = false :=
    Text.not_isUpper_of_mem_attributeName (by rw [hlist]; exact List.mem_cons_self)
  have hword : Text.isWordChar c = true :=
    (Text.isWord_attributeName other).chars c (by rw [hlist]; exact List.mem_cons_self)
  obtain rfl : c = '_' := by
    simpa [Text.isWordChar, Char.isAlphanum, Char.isAlpha, hlower, hupper, hdigit] using hword
  refine ⟨?_, Text.isNumbered_of_attributeName hlist⟩
  obtain ⟨digit, tail, rfl, hisDigit⟩ := Text.attributeName_underscore hlist
  rw [hlist, toList_ofValue] at h
  cases hfront : Text.constantPrefix property.toList with
  | nil => exact .inl (constantPrefix_eq_nil_iff.mp hfront)
  | cons first more =>
      rw [hfront] at h
      obtain ⟨rfl, hmore⟩ := List.cons.inj h
      cases more with
      | nil =>
          obtain rfl := (List.cons.inj hmore).1
          exact absurd hisDigit (by decide)
      | cons second more =>
          obtain rfl := (List.cons.inj hmore).1
          exact .inr (Text.isNumbered_of_constantPrefix hisDigit hfront)

theorem isAccessorOf_ofValue (attr : String) :
    isAccessorOf (Constant.ofValue property value).name attr = false := by
  have hverb : ∀ {c : Char} {rest : List Char} {name : String}, name.toList = c :: rest →
      c.isLower = true → (Constant.ofValue property value).name ≠ name := by
    intro c rest name hname hlower hsame
    have hhead : (Constant.ofValue property value).name.toList.head? = some c := by
      rw [hsame, hname]
      rfl
    have hnot := Constant.ofValue_name_head hhead
    rw [hlower] at hnot
    cases hnot
  simp only [isAccessorOf, Bool.or_eq_false_iff, beq_eq_false_iff_ne]
  exact ⟨hverb (toList_getter attr) (by decide), hverb (toList_setter attr) (by decide)⟩

end Constants

section Apart

variable {document : Document} {width : Json} {definition : Definition} {plan : Plan}

theorem Blueprint.Planned.constantsApart_iff (h : Planned document width definition plan) :
    ConstantsApart plan ↔ EnumsApart definition := by
  have hof : ∀ {entry : String × Property}, entry ∈ definition.properties →
      ∀ values ∈ entry.2.enum, ∀ value ∈ values,
        Constant.ofValue entry.2.name value ∈ plan.constants :=
    fun hentry values hvalues value hvalue =>
      (mem_constants_iff h).mpr ⟨_, hentry, values, hvalues, value, hvalue, rfl⟩
  have hfield : ∀ entry ∈ definition.properties, ∃ field ∈ plan.fields,
      field.attr.toList = Text.attributeName entry.2.name.toList := by
    intro entry hentry
    obtain ⟨member, hmember, hmade⟩ := exists_right_of_mem h.members hentry
    exact ⟨member.field, List.mem_map.mpr ⟨member, hmember, rfl⟩,
      by rw [(Blueprint.Member.ofProperty_eq_ok hmade).field.attr, String.toList_ofList]⟩
  constructor
  · intro hapart
    refine ⟨fun entry hentry hnameless values hvalues value hvalue word hword hsame => ?_,
      fun entry hentry _ values hvalues value hvalue other hother _ hsame => ?_⟩
    · exact hapart.base _ (hof hentry values hvalues value hvalue)
        (isBaseName_ofValue_iff.mpr ⟨hnameless, word, hword, hsame⟩)
    · obtain ⟨field, hmem, hattr⟩ := hfield other hother
      exact hapart.attrs _ (hof hentry values hvalues value hvalue) field hmem
        (String.toList_injective (hsame.trans hattr.symm))
  · intro henums
    refine ⟨fun constant hconstant => ?_, fun constant hconstant field hmem hsame => ?_,
      fun constant hconstant field _ => ?_, fun constant hconstant hbase => ?_⟩ <;>
      obtain ⟨entry, hentry, values, hvalues, value, hvalue, rfl⟩ :=
        (mem_constants_iff h).mp hconstant
    · exact Constant.isPlainName_ofValue entry.2.name value
    · obtain ⟨other, hother, hattr⟩ := h.exists_attributeName hmem
      rw [← hsame] at hattr
      obtain ⟨hnamed, hnumbered⟩ := isNumbered_of_attributeName_eq hattr
      exact henums.attrs entry hentry hnamed values hvalues value hvalue other hother hnumbered hattr
    · exact isAccessorOf_ofValue field.attr
    · obtain ⟨hnameless, word, hword, hsame⟩ := isBaseName_ofValue_iff.mp hbase
      exact henums.words entry hentry hnameless values hvalues value hvalue word hword hsame

variable {lines : List String} {item : LoadedClass} {library : Library} {store : Store} {id : Nat}
  {name : String} {operation : Operation}

theorem Blueprint.Planned.forall_constant_ne_iff (h : Planned document width definition plan)
    (hsome : (baseMember? name).isSome = true) :
    (∀ constant ∈ plan.constants, constant.name ≠ name) ↔
      ∀ entry ∈ definition.properties, entry.2.name = "" → ∀ values ∈ entry.2.enum,
        ∀ value ∈ values, '_' :: Text.collapse value.plain ≠ name.toList := by
  constructor
  · intro hnone entry hentry hnameless values hvalues value hvalue hsame
    exact hnone _ ((mem_constants_iff h).mpr ⟨entry, hentry, values, hvalues, value, hvalue, rfl⟩)
      ((ofValue_name_eq_iff hsome).mpr ⟨hnameless, hsame⟩)
  · intro hnone constant hconstant hsame
    obtain ⟨entry, hentry, values, hvalues, value, hvalue, rfl⟩ :=
      (mem_constants_iff h).mp hconstant
    obtain ⟨hnameless, hlist⟩ := (ofValue_name_eq_iff hsome).mp hsame
    exact hnone entry hentry hnameless values hvalues value hvalue hlist

/-- A constant takes the name of an operation exactly where it is the word of a property without a
name. -/
theorem Blueprint.Planned.constant_eq_none_iff (h : Planned document width definition plan)
    (hload : LoadedClass.load (standardModule lines plan) = .ok item)
    (hname : baseMember? name = some (.operation operation)) :
    Entries.get? name item.constants = none ↔
      ∀ entry ∈ definition.properties, entry.2.name = "" → ∀ values ∈ entry.2.enum,
        ∀ value ∈ values, '_' :: Text.collapse value.plain ≠ name.toList := by
  have hsome : (baseMember? name).isSome = true := by rw [hname]; rfl
  have htable : name ≠ LoadedClass.tableName := by
    rintro rfl
    cases hname
  rw [← h.forall_constant_ne_iff hsome]
  by_cases hspecial : IsSpecial name
  · -- no constant is special
    have hnever : ∀ constant ∈ plan.constants, constant.name ≠ name := by
      rintro constant hconstant rfl
      obtain ⟨entry, -, values, -, value, -, rfl⟩ := (mem_constants_iff h).mp hconstant
      exact not_isSpecial_ofValue hspecial
    exact iff_of_true (ModelMint.constant_eq_none hload hsome hnever) hnever
  · refine ModelMint.constant_eq_none_iff hload htable (fun hprivate => ?_) hsome
    rcases baseMember?_cases hsome with rfl | ⟨word, hword, rfl⟩ | hspecial'
    · exact absurd hprivate (by decide)
    · obtain ⟨c, rest, hform, hne, -⟩ := baseWords_form word hword
      obtain ⟨tail, htail⟩ := hprivate
      rw [String.toList_append, hform] at htail
      exact hne (List.cons.inj (List.cons.inj htail).2).1.symm
    · exact hspecial hspecial'

/-- An operation of the base is found on an instance exactly where no constant has its name. -/
theorem Blueprint.Planned.findMember_operation_iff (h : Planned document width definition plan)
    (hload : LoadedClass.load (standardModule lines plan) = .ok item)
    (hlive : Live library item store id)
    (hname : baseMember? name = some (.operation operation)) (hexport : name ≠ "to_dict") :
    findMember library id name store = .ok (.operation operation) ↔
      ∀ entry ∈ definition.properties, entry.2.name = "" → ∀ values ∈ entry.2.enum,
        ∀ value ∈ values, '_' :: Text.collapse value.plain ≠ name.toList := by
  have htable : name ≠ LoadedClass.tableName := by
    rintro rfl
    cases hname
  have hattributes : name ≠ attributesName := by
    rintro rfl
    cases hname
  have hinternal : Internal name := (baseMember?_eq_some hname).resolve_left hexport
  rw [← h.constant_eq_none_iff hload hname, findMember_operation (h.regular hload) hlive hinternal
    hname htable hattributes]
  cases Entries.get? name item.constants <;> simp

end Apart

/-- The constants of an accepted definition can be declared and are no accessors.  They are apart
from the attributes and from the base exactly where two kinds of properties spell no such name: those
without a name and those led by a digit.  On an instance every accessor is found whatever the
constants are, and an operation of the base exactly where no property without a name spells it. -/
theorem constants_apart_iff {document : Document} {width : Json} {definition : Definition}
    {plan : Plan} (hplan : Plan.ofDefinition document width definition = .ok plan) :
    (∀ constant ∈ plan.constants, Text.isPlainName constant.name.toList = true ∧
      ∀ field ∈ plan.fields, isAccessorOf constant.name field.attr = false) ∧
    (ConstantsApart plan ↔ EnumsApart definition) ∧
    ∀ (lines : List String) (item : LoadedClass) (library : Library) (store : Store) (id : Nat),
      LoadedClass.load (standardModule lines plan) = .ok item → Live library item store id →
        (∀ member ∈ plan.members, AccessorsFound library store id member) ∧
        ∀ name operation, baseMember? name = some (.operation operation) → name ≠ "to_dict" →
          (findMember library id name store = .ok (.operation operation) ↔
            ∀ entry ∈ definition.properties, entry.2.name = "" → ∀ values ∈ entry.2.enum,
              ∀ value ∈ values, '_' :: Text.collapse value.plain ≠ name.toList) := by
  have hplanned := Plan.ofDefinition_eq_ok hplan
  refine ⟨fun constant hconstant => ?_, hplanned.constantsApart_iff, ?_⟩
  · obtain ⟨entry, -, values, -, value, -, rfl⟩ := (mem_constants_iff hplanned).mp hconstant
    exact ⟨Constant.isPlainName_ofValue _ _, fun field _ => isAccessorOf_ofValue field.attr⟩
  · intro lines item library store id hload hlive
    exact ⟨fun member hmember => (hplanned.standard_class hload).accessorsFound hlive hmember,
      fun name operation hname hexport =>
        hplanned.findMember_operation_iff hload hlive hname hexport⟩

theorem constants_apart_iff_room :
    Plan.ofDefinition ⟨.null, []⟩ (.int 120) roomDefinition = .ok roomPlan ∧
      ConstantsApart roomPlan ∧
      findMember [("Stay", roomClass)] 0 "_check_enum_bounds" (({} : Store).add "Stay") =
        .ok (.operation .checkOneOf) := by
  have hplan : Plan.ofDefinition ⟨.null, []⟩ (.int 120) roomDefinition = .ok roomPlan := rfl
  have hload : LoadedClass.load (standardModule [] roomPlan) = .ok roomClass := rfl
  have hlive : Live [("Stay", roomClass)] roomClass (({} : Store).add "Stay") 0 := live_add {} rfl
  have hnamed : ∀ entry ∈ roomDefinition.properties, entry.2.name ≠ "" := by decide
  obtain ⟨-, hapart, hfound⟩ := constants_apart_iff hplan
  refine ⟨hplan, hapart.mpr ⟨?_, by decide⟩, ?_⟩
  · exact fun entry hentry hnameless => absurd hnameless (hnamed entry hentry)
  · exact ((hfound [] roomClass _ _ 0 hload hlive).2 _ _ rfl (by decide)).mpr
      fun entry hentry hnameless => absurd hnameless (hnamed entry hentry)

/-- The one allowed value of a property without a name. -/
def checkText : String := "check enum bounds"

def checkProperty : Property where
  name := ""
  enum := some [.str checkText]
  path := "#/definitions/Stay/properties/"

def checkMember : Blueprint.Member where
  field := { name := "", attr := "field", initial := .absent }
  rules := [.oneOf [.str checkText]]
  constants := constantsOf "" [.str checkText]

/-- The constant of an allowed value takes the place of the check for allowed values, and the setter
can not be called any more. -/
theorem check_constant_disables_setter :
    Package.generate Package.uncheckedSettings .null
        (choiceSchema "" [("enum", .arr [.str checkText])]) =
        .ok (choiceRun "" [("enum", .arr [.str checkText])]) ∧
      (choiceRun "" [("enum", .arr [.str checkText])]).package.failures = [] ∧
      standardModule [] (choicePlan checkMember) ∈
        (choiceRun "" [("enum", .arr [.str checkText])]).package.modules ∧
      Plan.ofDefinition ⟨choiceSchema "" [("enum", .arr [.str checkText])], []⟩ (.int 120)
        (choiceDefinition checkProperty) = .ok (choicePlan checkMember) ∧
      ¬ ConstantsApart (choicePlan checkMember) ∧
      LoadedClass.load (standardModule [] (choicePlan checkMember)) =
        .ok (choiceClass checkMember) ∧
      Instance.assign [("Stay", choiceClass checkMember)] 0 "field" (.text checkText) choiceStore =
        (choiceStore, .error (.fault .unsuitable)) := by
  refine ⟨rfl, rfl, List.mem_cons_self, rfl, fun hapart => ?_, rfl, by with_unfolding_all rfl⟩
  exact hapart.base (Constant.ofValue "" (.str checkText)) List.mem_cons_self (.inl (by decide))

end ModelMint
