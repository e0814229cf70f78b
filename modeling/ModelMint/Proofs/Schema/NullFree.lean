import ModelMint.Proofs.Schema.Reading
import ModelMint.Proofs.Text.NullFree

/-!
# Documents without null characters

What is read from a document without null characters has none, and neither have the
names that its references lead to.  Values as literals and as shown never have any.
-/

namespace ModelMint

open ModelMint.Text

namespace Json

mutual

/-- No text of the document holds a null character, and no key. -/
def NullFree : Json → Prop
  | .str text => Text.NullFree text.toList
  | .arr items => ItemsNullFree items
  | .obj members => MembersNullFree members
  | _ => True

def ItemsNullFree : List Json → Prop
  | [] => True
  | item :: rest => NullFree item ∧ ItemsNullFree rest

def MembersNullFree : List (String × Json) → Prop
  | [] => True
  | (key, value) :: rest => Text.NullFree key.toList ∧ NullFree value ∧ MembersNullFree rest

end

@[simp] theorem nullFree_str {text : String} :
    (Json.str text).NullFree ↔ Text.NullFree text.toList := Iff.rfl

theorem itemsNullFree_iff {items : List Json} :
    ItemsNullFree items ↔ ∀ item ∈ items, item.NullFree := by
  induction items with
  | nil => simp [ItemsNullFree]
  | cons item rest ih => simp [ItemsNullFree, ih]

theorem membersNullFree_iff {members : List (String × Json)} :
    MembersNullFree members ↔
      ∀ entry ∈ members, Text.NullFree entry.1.toList ∧ entry.2.NullFree := by
  induction members with
  | nil => simp [MembersNullFree]
  | cons entry rest ih =>
      obtain ⟨key, value⟩ := entry
      simp only [MembersNullFree, ih, List.forall_mem_cons, and_assoc]

theorem nullFree_get? {members : List (String × Json)} (h : MembersNullFree members)
    {key : String} {value : Json} (hget : Entries.get? key members = some value) :
    value.NullFree := by
  induction members with
  | nil => cases hget
  | cons entry rest ih =>
      obtain ⟨other, first⟩ := entry
      obtain ⟨-, hfirst, hrest⟩ := h
      rw [Entries.get?] at hget
      split at hget
      · rwa [← Option.some.inj hget]
      · exact ih hrest hget

/-- What is under a key of a member has no null character either. -/
theorem nullFree_of_mem {schema : Json} (h : schema.NullFree) {key name : String}
    {members : List (String × Json)} (hmembers : schema.get? key = some (.obj members))
    {value : Json} (hmem : (name, value) ∈ members) :
    Text.NullFree name.toList ∧ value.NullFree := by
  cases schema with
  | obj outer =>
      have hinner : (Json.obj members).NullFree := nullFree_get? h hmembers
      exact membersNullFree_iff.mp hinner (name, value) hmem
  | _ => cases hmembers

theorem nullFree_getD {members : List (String × Json)} (h : MembersNullFree members)
    (key : String) : ((Entries.get? key members).getD .null).NullFree := by
  cases hget : Entries.get? key members with
  | none => trivial
  | some value => exact nullFree_get? h hget

end Json

/-! ## Values as texts -/

theorem nullFree_commaSeparated {texts : List (List Char)}
    (h : ∀ text ∈ texts, Text.NullFree text) : Text.NullFree (commaSeparated texts) := by
  intro hnull
  rcases mem_commaSeparated hnull with hcomma | hblank | ⟨text, htext, hmem⟩
  · cases hcomma
  · cases hblank
  · exact h text htext hmem

mutual

theorem nullFree_jsonShown : ∀ value : Json, Text.NullFree value.shown
  | .null => by simp [Json.shown, noneText]
  | .bool value => by cases value <;> simp [Json.shown, boolText]
  | .int value => (visible_intText value).nullFree
  | .float value => (visible_binary64 value).nullFree
  | .str text => Text.nullFree_shown text.toList
  | .arr items => by
      rw [Json.shown, nullFree_cons, nullFree_append]
      exact ⟨by decide, nullFree_commaSeparated (nullFree_shownItems items), by simp⟩
  | .obj members => by
      rw [Json.shown, nullFree_cons, nullFree_append]
      exact ⟨by decide, nullFree_commaSeparated (nullFree_shownMembers members), by simp⟩

theorem nullFree_shownItems : ∀ items : List Json,
    ∀ text ∈ Json.shownItems items, Text.NullFree text
  | [] => by simp [Json.shownItems]
  | item :: rest => by
      rw [Json.shownItems, List.forall_mem_cons]
      exact ⟨nullFree_jsonShown item, nullFree_shownItems rest⟩

theorem nullFree_shownMembers : ∀ members : List (String × Json),
    ∀ text ∈ Json.shownMembers members, Text.NullFree text
  | [] => by simp [Json.shownMembers]
  | (key, value) :: rest => by
      rw [Json.shownMembers, List.forall_mem_cons, nullFree_append]
      exact ⟨⟨Text.nullFree_shown key.toList, by simpa using nullFree_jsonShown value⟩,
        nullFree_shownMembers rest⟩

end

theorem nullFree_literal (value : Json) : Text.NullFree (Source.literal value) :=
  (visible_literal value).nullFree

theorem nullFree_plain {value : Json} (h : value.NullFree) : Text.NullFree value.plain := by
  cases value with
  | str text => exact h
  | _ => exact nullFree_jsonShown _

namespace Schema

/-! ## References -/

theorem nullFree_unescape {segment : List Char} (h : Text.NullFree segment) :
    Text.NullFree (Pointer.unescape segment) := by
  have hslashes : ∀ {text : List Char}, Text.NullFree text →
      Text.NullFree (Pointer.unescapeSlashes text) := by
    intro text htext
    fun_induction Pointer.unescapeSlashes text with
    | case1 => exact htext
    | case2 rest ih => simpa using ih (by simpa using htext)
    | case3 c rest _ ih =>
        obtain ⟨hc, hrest⟩ := nullFree_cons.mp htext
        exact nullFree_cons.mpr ⟨hc, ih hrest⟩
  have htildes : ∀ {text : List Char}, Text.NullFree text →
      Text.NullFree (Pointer.unescapeTildes text) := by
    intro text htext
    fun_induction Pointer.unescapeTildes text with
    | case1 => exact htext
    | case2 rest ih => simpa using ih (by simpa using htext)
    | case3 c rest _ ih =>
        obtain ⟨hc, hrest⟩ := nullFree_cons.mp htext
        exact nullFree_cons.mpr ⟨hc, ih hrest⟩
  exact htildes (hslashes h)

/-- A reference without null characters leads to a name without any. -/
theorem nullFree_resolve {root : Json} {pointer : String} {resolved : Resolved}
    (hpointer : Text.NullFree pointer.toList) (h : resolve root pointer = .ok resolved) :
    Text.NullFree resolved.name.toList := by
  have hkeys : ∀ key ∈ Pointer.keys pointer, Text.NullFree key.toList := by
    intro key hkey
    obtain ⟨segment, hsegment, rfl⟩ := List.mem_map.mp hkey
    rw [String.toList_ofList]
    have hpart : segment ∈ parts '/' pointer.toList := by
      unfold Pointer.dropRoot at hsegment
      split at hsegment
      next segments hparts =>
        rw [hparts]
        exact List.mem_cons_of_mem _ hsegment
      · exact hsegment
    exact nullFree_unescape (nullFree_parts hpointer segment hpart)
  obtain ⟨path, hpath, -⟩ := resolve_eq_ok h
  apply hkeys
  rw [hpath]
  exact List.mem_append_right _ List.mem_cons_self

/-! ## Properties and definitions -/

/-- A property of which no text that is written outside of quotes holds a null character. -/
structure Property.NullFree (property : Property) : Prop where
  type : ∀ type ∈ property.type, Text.NullFree type.toList
  reference : ∀ pointer ∈ property.reference?, Text.NullFree pointer.toList
  description : ∀ text ∈ property.description, Text.NullFree text.toList

structure Definition.NullFree (definition : Definition) : Prop where
  name : Text.NullFree definition.name.toList
  properties : ∀ entry ∈ definition.properties, entry.2.NullFree
  description : ∀ text ∈ definition.description, Text.NullFree text.toList

theorem texts?_eq_some {items : List Json} {names : List String}
    (h : Property.texts? items = some names) : items = names.map Json.str := by
  induction items generalizing names with
  | nil =>
      cases h
      rfl
  | cons item rest ih =>
      cases item with
      | str text =>
          obtain ⟨others, hothers, rfl⟩ := Option.map_eq_some_iff.mp h
          rw [ih hothers, List.map_cons]
      | _ => cases h

theorem nullFree_readType {value : Json} (hvalue : value.NullFree) {type : Option String}
    (h : Property.readType value = .ok type) : ∀ name ∈ type, Text.NullFree name.toList := by
  unfold Property.readType at h
  split at h
  · cases h
    simp
  · cases h
    simpa using hvalue
  next items =>
    split at h
    next names hnames =>
      cases h
      intro name hname
      have hmem := List.mem_of_find?_eq_some hname
      have hitem : Json.str name ∈ items := by
        rw [texts?_eq_some hnames]
        exact List.mem_map_of_mem hmem
      exact Json.itemsNullFree_iff.mp hvalue _ hitem
    · cases h
  · cases h

theorem nullFree_readReference {value : Json} (hvalue : value.NullFree) {pointer : Option String}
    (h : Property.readReference value = .ok pointer) :
    ∀ text ∈ pointer, Text.NullFree text.toList := by
  unfold Property.readReference at h
  split at h
  · cases h
    simp
  · cases h
    simpa using hvalue
  · cases h

theorem nullFree_readDescription {value : Json} (hvalue : value.NullFree)
    {description : Option String} (h : Property.readDescription value = .ok description) :
    ∀ text ∈ description, Text.NullFree text.toList := by
  unfold Property.readDescription at h
  split at h
  · cases h
    simp
  · cases h
    simpa using hvalue
  · cases h

theorem nullFree_readItemsReference {items : Option Json} (hitems : ∀ value ∈ items, value.NullFree)
    {pointer : Option String} (h : Property.readItemsReference items = .ok pointer) :
    ∀ text ∈ pointer, Text.NullFree text.toList := by
  unfold Property.readItemsReference at h
  split at h
  next members => exact nullFree_readReference (Json.nullFree_getD (hitems _ rfl) "$ref") h
  · cases h
    simp

theorem nullFree_readProperty {name place : String} {schema : Json} (hschema : schema.NullFree)
    {property : Property} (h : Property.read name schema place = .ok property) :
    property.NullFree := by
  unfold Property.read at h
  split at h
  next members =>
    have hkeyword : ∀ key, ((Entries.get? key members).getD .null).NullFree :=
      Json.nullFree_getD hschema
    obtain ⟨type, htype, h⟩ := bind_eq_ok.mp h
    obtain ⟨ref, href, h⟩ := bind_eq_ok.mp h
    obtain ⟨minimum, -, h⟩ := bind_eq_ok.mp h
    obtain ⟨maximum, -, h⟩ := bind_eq_ok.mp h
    obtain ⟨minItems, -, h⟩ := bind_eq_ok.mp h
    obtain ⟨maxItems, -, h⟩ := bind_eq_ok.mp h
    obtain ⟨description, hdescription, h⟩ := bind_eq_ok.mp h
    obtain ⟨itemsRef, hitems, h⟩ := bind_eq_ok.mp h
    obtain ⟨enum, -, h⟩ := bind_eq_ok.mp h
    cases h
    have hdirect := nullFree_readReference (hkeyword "$ref") href
    have hindirect := nullFree_readItemsReference
      (fun value hvalue => Json.nullFree_get? hschema hvalue) hitems
    refine ⟨nullFree_readType (hkeyword "type") htype, ?_,
      nullFree_readDescription (hkeyword "description") hdescription⟩
    cases ref with
    | some pointer => exact hdirect
    | none => exact hindirect
  · cases h

theorem nullFree_readDefinition {name : String} {body : Json} (hname : Text.NullFree name.toList)
    (hbody : body.NullFree) {definition : Definition}
    (h : Document.readDefinition name body = .ok definition) : definition.NullFree := by
  unfold Document.readDefinition at h
  split at h
  next members =>
    split at h
    next properties hproperties =>
      have hmembers : (Json.obj properties).NullFree := by
        rw [← hproperties]
        cases hget : Entries.get? "properties" members with
        | none => trivial
        | some value => exact Json.nullFree_get? hbody hget
      split at h
      · obtain ⟨description, hdescription, h⟩ := bind_eq_ok.mp h
        obtain ⟨read, hread, h⟩ := bind_eq_ok.mp h
        cases h
        refine ⟨hname, fun entry hentry => ?_,
          nullFree_readDescription (Json.nullFree_getD hbody "description") hdescription⟩
        obtain ⟨⟨key, schema⟩, hmem, hproperty⟩ :=
          exists_left_of_mem (mapM_eq_ok.mp hread) hentry
        unfold Document.readProperty at hproperty
        simp only at hproperty
        split at hproperty
        next property hproperty' =>
          cases hproperty
          exact nullFree_readProperty (Json.membersNullFree_iff.mp hmembers _ hmem).2 hproperty'
        · cases hproperty
      · cases h
    · cases h
  · cases h

end Schema

end ModelMint
