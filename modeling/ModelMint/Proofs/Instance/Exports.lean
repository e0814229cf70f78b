import ModelMint.Proofs.Instance.FieldMap

/-!
# How instances are exported

An instance is exported field by field, and the elements of its arrays on the way.  Where
the instances below it do not lead back to themselves, each path down passes every
instance at most once, so the calls end within the depth that is allowed for them.
-/

namespace ModelMint

open ModelMint.Emit
open ModelMint.Blueprint
open ModelMint.Schema
open Relation

/-! ## Instances of generated classes -/

/-- An instance of a class that comes from an accepted definition over the standard base, none of
whose constants is called like a member of the base, and that holds values of its fields only. -/
structure IsModel (library : Library) (planOf : String → Plan) (store : Store) (id : Nat) :
    Prop where
  accepted : ∃ document width definition,
    Plan.ofDefinition document width definition = .ok (planOf (store.classOf id))
  loaded : ∃ lines item, LoadedClass.load (standardModule lines (planOf (store.classOf id))) =
    .ok item ∧ Live library item store id
  unhidden : ∀ constant ∈ (planOf (store.classOf id)).constants, baseMember? constant.name = none

/-- The second instance is an element of an array of the first. -/
def HasElement (planOf : String → Plan) (store : Store) (holder element : Nat) : Prop :=
  ∃ member ∈ (planOf (store.classOf holder)).members, member.field.isArray = true ∧
    ∃ items, store.attribute? holder member.field.attr = some (.list items) ∧
      .instance element ∈ items

/-- A set of instances of generated classes, whose arrays have elements among them. -/
structure AreModels (library : Library) (planOf : String → Plan) (store : Store) : Prop where
  models : ∀ id, id < store.size → IsModel library planOf store id
  closed : ∀ holder element, HasElement planOf store holder element → element < store.size

/-- Every field is set, and the arrays hold lists. -/
def IsFilled (planOf : String → Plan) (store : Store) (id : Nat) : Prop :=
  ∀ member ∈ (planOf (store.classOf id)).members, ∃ value,
    store.attribute? id member.field.attr = some value ∧
      (member.field.isArray = true → ∃ items, value = .list items)

/-- Below the instance no element leads back to itself, and every instance is filled. -/
structure Convertible (planOf : String → Plan) (store : Store) (id : Nat) : Prop where
  acyclic : ∀ other, ReflTransGen (HasElement planOf store) id other →
    ¬ TransGen (HasElement planOf store) other other
  filled : ∀ other, ReflTransGen (HasElement planOf store) id other → IsFilled planOf store other

/-- The value of a field that is set: if the field is an array, a list of convertible instances and
other values. -/
def IsConvertibleField (planOf : String → Plan) (store : Store) (id : Nat)
    (member : Blueprint.Member) : Prop :=
  ∃ value, store.attribute? id member.field.attr = some value ∧
    (member.field.isArray = true → ∃ items, value = .list items ∧
      ∀ element, .instance element ∈ items → Convertible planOf store element)

/-! ## What comes out -/

/-- An element of an array comes out as its own export if it is an instance, and as it is
otherwise. -/
inductive ElementExport (library : Library) (store : Store) : Value → Value → Prop
  | instance {id : Nat} {out : Value}
      (h : Instance.exported library id store = (store, .ok out)) :
      ElementExport library store (.instance id) out
  | other {value : Value} (h : ∀ id, value ≠ .instance id) :
      ElementExport library store value value

/-- A field comes out under the name of its property with the value that it holds, an array with
its elements exported. -/
inductive FieldExport (library : Library) (store : Store) (id : Nat) (member : Blueprint.Member) :
    String × Value → Prop
  | plain {value : Value} (harray : member.field.isArray = false)
      (hvalue : store.attribute? id member.field.attr = some value) :
      FieldExport library store id member (member.field.name, value)
  | array {items outs : List Value} (harray : member.field.isArray = true)
      (hvalue : store.attribute? id member.field.attr = some (.list items))
      (helements : List.Forall₂ (ElementExport library store) items outs) :
      FieldExport library store id member (member.field.name, .list outs)

/-! ## Steps of an export -/

section Steps

variable {library : Library} {planOf : String → Plan} {store : Store} {id : Nat}

theorem IsModel.exists_item (h : IsModel library planOf store id) :
    ∃ item, Standard (planOf (store.classOf id)) item ∧ item.Open ∧ Live library item store id := by
  obtain ⟨document, width, definition, hplan⟩ := h.accepted
  obtain ⟨lines, item, hload, hlive⟩ := h.loaded
  refine ⟨item, (Plan.ofDefinition_eq_ok hplan).standard_class hload, fun key hkey => ?_, hlive⟩
  obtain ⟨constant, hconstant, rfl, -⟩ := LoadedClass.exists_constant hload hkey
  exact baseMember?_privateName (h.unhidden constant hconstant)

/-- The export of an instance comes out wherever the calls may go as deep as the bound. -/
def ExportsTo (library : Library) (store : Store) (bound id : Nat) (out : Value) : Prop :=
  ∃ fields, findMember library id "to_dict" store = .ok (.exporter fields) ∧
    ∀ fuel, bound ≤ fuel → call library fuel id (.exporter fields) [] store = (store, .ok out)

theorem ExportsTo.exported {bound : Nat} {out : Value} (h : ExportsTo library store bound id out)
    (hbound : bound ≤ callDepth library store) :
    Instance.exported library id store = (store, .ok out) := by
  obtain ⟨fields, hfind, hcall⟩ := h
  simp only [Instance.exported, invoke, Action.bind_run, Action.look, ModelMint.member, hfind]
  exact hcall _ hbound

theorem ExportsTo.exportItem {bound : Nat} {out : Value} (h : ExportsTo library store bound id out)
    {fuel : Nat} (hfuel : bound + 1 ≤ fuel) :
    exportItem library fuel (.instance id) store = (store, .ok out) := by
  obtain ⟨fields, hfind, hcall⟩ := h
  obtain ⟨fuel, rfl⟩ := Nat.exists_eq_add_of_le' (Nat.le_of_add_left_le hfuel)
  unfold ModelMint.exportItem
  simp only [Action.bind_run, ModelMint.member, hfind]
  exact hcall fuel (by omega)

theorem exportItem_other {value : Value} (h : ∀ id, value ≠ .instance id) (fuel : Nat) :
    exportItem library (fuel + 1) value store = (store, .ok value) := by
  unfold exportItem
  cases value with
  | «instance» id => exact absurd rfl (h id)
  | _ => rfl

variable {plan : Plan} {item : LoadedClass} {member : Blueprint.Member}

theorem findMember_export (hregular : item.Regular) (hlive : Live library item store id) :
    findMember library id "to_dict" store = .ok (.exporter item.fields) := by
  have hheld : store.attribute? id "to_dict" = none :=
    hlive.attribute?_eq_none hregular.exported
  have hclass : item.member? "to_dict" = some (.exporter item.fields) := rfl
  have hattributes : "to_dict" ≠ attributesName := by decide
  simp [findMember, hattributes, hheld, classMember?, hlive.loaded, hclass]

theorem exported_standard (field : Field) : (fieldCode {} field).exported =
    if field.isArray then some "_convert_pure_array" else none := rfl

/-- What the fields of an instance are exported with. -/
structure ExportsFields (library : Library) (store : Store) (id : Nat) (plan : Plan) : Prop where
  getter : ∀ member ∈ plan.members,
    findMember library id (getter member.field.attr) store = .ok (.reader member.field.attr)
  reader : findMember library id readerName store = .ok (.operation .readAttribute)
  exporter : findMember library id (privateName (store.classOf id) "_convert_pure_array") store =
    .ok (.operation .exportElements)

theorem Standard.exportsFields (hstandard : Standard plan item) (hopen : item.Open)
    (hlive : Live library item store id) : ExportsFields library store id plan := by
  refine ⟨fun member hmember =>
    findMember_getter hstandard.regular hlive (hstandard.field_mem hmember), ?_, ?_⟩
  · exact findMember_open hstandard.regular hopen hlive .reader
  · rw [Operation.HasName.exporter.privateName_eq]
    exact findMember_open hstandard.regular hopen hlive .exporter

section Fields

variable (h : ExportsFields library store id plan) (hmember : member ∈ plan.members) (fuel : Nat)
include h hmember

/-- The value is read before anything is made of it. -/
theorem exportField_unset (hunset : store.attribute? id member.field.attr = none) :
    exportField library (fuel + 4) id (fieldCode {} member.field) store =
      (store, .error (.fault (.unset (store.classOf id) member.field.attr))) := by
  have hcall : call library (fuel + 3) id (.reader member.field.attr) [] store =
      (store, .error (.fault (.unset (store.classOf id) member.field.attr))) := by
    rw [call_reader fuel h.reader, hunset]
  unfold exportField
  rw [exported_standard]
  have hgetter := h.getter member hmember
  cases member.field.isArray with
  | false => simp [Action.bind_run, ModelMint.member, fieldCode, hgetter, hcall]
  | true =>
      simp [Action.bind_run, Action.look, ModelMint.member, fieldCode, hgetter, hcall, h.exporter]

theorem exportField_plain {value : Value} (harray : member.field.isArray = false)
    (hvalue : store.attribute? id member.field.attr = some value) :
    exportField library (fuel + 4) id (fieldCode {} member.field) store =
      (store, .ok (member.field.name, value)) := by
  have hcall : call library (fuel + 3) id (.reader member.field.attr) [] store =
      (store, .ok value) := by
    rw [call_reader fuel h.reader, hvalue]
  unfold exportField
  rw [exported_standard, harray]
  simp [Action.bind_run, Action.pure_run, ModelMint.member, fieldCode, h.getter member hmember, hcall]

theorem exportField_array {items outs : List Value} (harray : member.field.isArray = true)
    (hvalue : store.attribute? id member.field.attr = some (.list items))
    (houts : Action.forEach (exportItem library (fuel + 1)) items store = (store, .ok outs)) :
    exportField library (fuel + 4) id (fieldCode {} member.field) store =
      (store, .ok (member.field.name, .list outs)) := by
  have hread : call library (fuel + 3) id (.reader member.field.attr) [] store =
      (store, .ok (.list items)) := by
    rw [call_reader fuel h.reader, hvalue]
  have hexport : call library (fuel + 3) id (.operation .exportElements) [.list items] store =
      (store, .ok (.list outs)) := by
    rw [call_exportElements, Action.bind_apply, houts]
    rfl
  unfold exportField
  rw [exported_standard, harray]
  simp [Action.bind_run, Action.pure_run, Action.look, ModelMint.member, fieldCode,
    h.getter member hmember, hread, h.exporter, hexport]

end Fields

/-! ## Items in order -/

section Each

variable {α β : Type} {f : Nat → α → Action β} {P : α → β → Prop} {bound : Nat}

theorem forEach_map {γ : Type} (action : β → Action γ) (convert : α → β) (items : List α) :
    Action.forEach action (items.map convert) = Action.forEach (fun item => action (convert item)) items := by
  induction items with
  | nil => rfl
  | cons item rest ih => rw [List.map_cons, Action.forEach, Action.forEach, ih]

/-- Where every item comes out within some depth, all do in order. -/
theorem exists_forEach {items : List α} (h : ∀ item ∈ items, ∃ out, P item out ∧
    ∀ fuel, bound ≤ fuel → f fuel item store = (store, .ok out)) :
    ∃ outs, List.Forall₂ P items outs ∧
      ∀ fuel, bound ≤ fuel → Action.forEach (f fuel) items store = (store, .ok outs) := by
  induction items with
  | nil => exact ⟨[], .nil, fun fuel _ => rfl⟩
  | cons item rest ih =>
      obtain ⟨⟨out, hout, hrun⟩, hrest⟩ := List.forall_mem_cons.mp h
      obtain ⟨outs, houts, hruns⟩ := ih hrest
      refine ⟨out :: outs, .cons hout houts, fun fuel hfuel => ?_⟩
      simp [Action.forEach, hrun fuel hfuel, hruns fuel hfuel]

theorem forEach_refused {action : α → Action β} {before after : List α} {item : α}
    {refusal : Refusal}
    (hbefore : ∀ earlier ∈ before, ∃ out, action earlier store = (store, .ok out))
    (hitem : action item store = (store, .error refusal)) :
    Action.forEach action (before ++ item :: after) store = (store, .error refusal) := by
  induction before with
  | nil => simp [Action.forEach, hitem]
  | cons first rest ih =>
      obtain ⟨⟨out, hfirst⟩, hrest⟩ := List.forall_mem_cons.mp hbefore
      simp [Action.forEach, hfirst, ih hrest]

end Each

/-! ## Fields and instances -/

/-- Where the instances among its elements come out, a field does. -/
theorem exists_fieldExport (h : ExportsFields library store id plan)
    (hmember : member ∈ plan.members) {value : Value}
    (hvalue : store.attribute? id member.field.attr = some value) {bound : Nat}
    (hbound : bound ≤ callDepth library store)
    (helements : member.field.isArray = true → ∃ items, value = .list items ∧
      ∀ element, .instance element ∈ items → ∃ out, ExportsTo library store bound element out) :
    ∃ entry, FieldExport library store id member entry ∧ ∀ fuel, bound + 4 ≤ fuel →
      exportField library fuel id (fieldCode {} member.field) store = (store, .ok entry) := by
  cases harray : member.field.isArray with
  | false =>
      refine ⟨_, .plain harray hvalue, fun fuel hfuel => ?_⟩
      obtain ⟨fuel, rfl⟩ := Nat.exists_eq_add_of_le' (Nat.le_of_add_left_le hfuel)
      exact exportField_plain h hmember fuel harray hvalue
  | true =>
      obtain ⟨items, rfl, hinstances⟩ := helements harray
      have hitem : ∀ item ∈ items, ∃ out, ElementExport library store item out ∧
          ∀ fuel, bound + 1 ≤ fuel → exportItem library fuel item store = (store, .ok out) := by
        intro item hitem
        by_cases hinstance : ∃ element, item = .instance element
        · obtain ⟨element, rfl⟩ := hinstance
          obtain ⟨out, hout⟩ := hinstances element hitem
          exact ⟨out, .instance (hout.exported hbound), fun fuel hfuel => hout.exportItem hfuel⟩
        · have hother : ∀ element, item ≠ .instance element :=
            fun element hsame => hinstance ⟨element, hsame⟩
          refine ⟨item, .other hother, fun fuel hfuel => ?_⟩
          obtain ⟨fuel, rfl⟩ := Nat.exists_eq_add_of_le' (Nat.le_of_add_left_le hfuel)
          exact exportItem_other hother fuel
      obtain ⟨outs, houts, hrun⟩ := exists_forEach hitem
      refine ⟨_, .array harray hvalue houts, fun fuel hfuel => ?_⟩
      obtain ⟨fuel, rfl⟩ := Nat.exists_eq_add_of_le' (Nat.le_of_add_left_le hfuel)
      exact exportField_array h hmember fuel harray hvalue (hrun (fuel + 1) (by omega))

/-- An instance comes out where its fields do, one call further up. -/
theorem exists_exportsTo (hstandard : Standard plan item) (hlive : Live library item store id)
    {bound : Nat}
    (h : ∀ member ∈ plan.members, ∃ entry, FieldExport library store id member entry ∧
      ∀ fuel, bound ≤ fuel →
        exportField library fuel id (fieldCode {} member.field) store = (store, .ok entry)) :
    ∃ members, List.Forall₂ (FieldExport library store id) plan.members members ∧
      ExportsTo library store (bound + 1) id (.map members) := by
  obtain ⟨members, hmembers, hrun⟩ := exists_forEach
    (f := fun fuel member => exportField library fuel id (fieldCode {} (Blueprint.Member.field member))) h
  refine ⟨members, hmembers, item.fields, findMember_export hstandard.regular hlive, ?_⟩
  intro fuel hfuel
  obtain ⟨fuel, rfl⟩ := Nat.exists_eq_add_of_le' (Nat.le_of_add_left_le hfuel)
  have hfields : Action.forEach (exportField library fuel id) item.fields store =
      (store, .ok members) := by
    rw [hstandard.fields_eq, forEach_map]
    exact hrun fuel (by omega)
  unfold call
  simp [Action.bind_run, Action.pure_run, hfields]

end Steps

/-! ## Sets of instances -/

section Instances

variable {library : Library} {planOf : String → Plan} {store : Store} {id : Nat}

theorem Convertible.element {element : Nat} (h : Convertible planOf store id)
    (helement : HasElement planOf store id element) : Convertible planOf store element :=
  ⟨fun other hother => h.acyclic other (.head helement hother),
    fun other hother => h.filled other (.head helement hother)⟩

theorem five_mul_le_callDepth {count : Nat} (h : count ≤ store.size + 1) :
    5 * count ≤ callDepth library store := by
  unfold callDepth
  calc 5 * count ≤ 8 * (store.size + 2) * 1 := by omega
    _ ≤ 8 * (store.size + 2) * ((library.flatMap (·.2.setters)).length + 2) :=
        Nat.mul_le_mul_left _ (by omega)

theorem length_le_size {path : List Nat} (hpath : path.Nodup)
    (hinside : ∀ other ∈ path, other < store.size) : path.length ≤ store.size := by
  have hsubset : path ⊆ List.range store.size :=
    fun other hother => List.mem_range.mpr (hinside other hother)
  simpa using (hpath.subperm hsubset).length_le

/-- The path that has led to an instance, which no element below it is on again. -/
structure IsPath (planOf : String → Plan) (store : Store) (path : List Nat) (id : Nat) : Prop where
  distinct : path.Nodup
  inside : ∀ other ∈ path, other < store.size
  leads : ∀ other ∈ path, TransGen (HasElement planOf store) other id

theorem IsPath.not_mem {path : List Nat} (h : IsPath planOf store path id)
    (hconvertible : Convertible planOf store id) : id ∉ path :=
  fun hmem => hconvertible.acyclic id .refl (h.leads id hmem)

theorem IsPath.cons {path : List Nat} {element : Nat} (h : IsPath planOf store path id)
    (hconvertible : Convertible planOf store id) (hid : id < store.size)
    (helement : HasElement planOf store id element) :
    IsPath planOf store (id :: path) element where
  distinct := List.nodup_cons.mpr ⟨h.not_mem hconvertible, h.distinct⟩
  inside := List.forall_mem_cons.mpr ⟨hid, h.inside⟩
  leads := List.forall_mem_cons.mpr
    ⟨.single helement, fun other hother => (h.leads other hother).tail helement⟩

/-- A convertible instance comes out within five calls for itself and for each instance that is not
on the path to it. -/
theorem AreModels.exists_exportsTo (hmodels : AreModels library planOf store) {remaining : Nat}
    {path : List Nat} (hpath : IsPath planOf store path id)
    (hconvertible : Convertible planOf store id) (hid : id < store.size)
    (hremaining : path.length + remaining = store.size) :
    ∃ members, List.Forall₂ (FieldExport library store id) (planOf (store.classOf id)).members
      members ∧ ExportsTo library store (5 * remaining) id (.map members) := by
  -- on how many instances are not on the path; an element lengthens the path
  induction remaining generalizing path id with
  | zero =>
      -- a path through all instances has no room for one more
      exfalso
      have hlength : (id :: path).length ≤ store.size :=
        length_le_size (List.nodup_cons.mpr ⟨hpath.not_mem hconvertible, hpath.distinct⟩)
          (List.forall_mem_cons.mpr ⟨hid, hpath.inside⟩)
      rw [List.length_cons] at hlength
      omega
  | succ remaining ih =>
      obtain ⟨item, hstandard, hopen, hlive⟩ := (hmodels.models id hid).exists_item
      have hfields : ∀ member ∈ (planOf (store.classOf id)).members, ∃ entry,
          FieldExport library store id member entry ∧ ∀ fuel, 5 * remaining + 4 ≤ fuel →
            exportField library fuel id (fieldCode {} member.field) store = (store, .ok entry) := by
        intro member hmember
        obtain ⟨value, hvalue, hlist⟩ := hconvertible.filled id .refl member hmember
        refine exists_fieldExport (hstandard.exportsFields hopen hlive) hmember hvalue
          (five_mul_le_callDepth (by omega)) fun harray => ?_
        obtain ⟨items, rfl⟩ := hlist harray
        refine ⟨items, rfl, fun element hmem => ?_⟩
        have helement : HasElement planOf store id element :=
          ⟨member, hmember, harray, items, hvalue, hmem⟩
        obtain ⟨members, -, hout⟩ := ih (hpath.cons hconvertible hid helement)
          (hconvertible.element helement) (hmodels.closed id element helement)
          (by rw [List.length_cons]; omega)
        exact ⟨.map members, hout⟩
      exact ModelMint.exists_exportsTo hstandard hlive hfields

/-- Without a path to it, a convertible instance comes out within five calls for each. -/
theorem AreModels.exists_exportsTo_size (hmodels : AreModels library planOf store)
    (hconvertible : Convertible planOf store id) (hid : id < store.size) :
    ∃ members, List.Forall₂ (FieldExport library store id) (planOf (store.classOf id)).members
      members ∧ ExportsTo library store (5 * store.size) id (.map members) :=
  hmodels.exists_exportsTo ⟨.nil, nofun, nofun⟩ hconvertible hid (Nat.zero_add store.size)

/-- At the first field that is not set an export is refused. -/
theorem AreModels.exported_unset (hmodels : AreModels library planOf store) (hid : id < store.size)
    {before after : List Blueprint.Member} {member : Blueprint.Member}
    (hmembers : (planOf (store.classOf id)).members = before ++ member :: after)
    (hunset : store.attribute? id member.field.attr = none)
    (hbefore : ∀ earlier ∈ before, IsConvertibleField planOf store id earlier) :
    Instance.exported library id store =
      (store, .error (.fault (.unset (store.classOf id) member.field.attr))) := by
  obtain ⟨item, hstandard, hopen, hlive⟩ := (hmodels.models id hid).exists_item
  have hexports := hstandard.exportsFields hopen hlive
  have hmem : ∀ other ∈ before ++ member :: after, other ∈ (planOf (store.classOf id)).members := by
    rw [hmembers]
    exact fun other hother => hother
  have hdepth : 5 * store.size + 5 ≤ callDepth library store :=
    five_mul_le_callDepth (Nat.le_refl (store.size + 1))
  obtain ⟨fuel, hfuel⟩ := Nat.exists_eq_add_of_le hdepth
  have hearlier : ∀ earlier ∈ before, ∃ entry,
      exportField library (5 * store.size + fuel + 4) id (fieldCode {} earlier.field) store =
        (store, .ok entry) := by
    intro earlier hmemEarlier
    obtain ⟨value, hvalue, hlist⟩ := hbefore earlier hmemEarlier
    have hwhole := hmem earlier (List.mem_append_left _ hmemEarlier)
    obtain ⟨entry, -, hrun⟩ := exists_fieldExport hexports hwhole hvalue
      (five_mul_le_callDepth (Nat.le_succ store.size)) fun harray => by
        obtain ⟨items, rfl, helements⟩ := hlist harray
        refine ⟨items, rfl, fun element hmemElement => ?_⟩
        have helement : HasElement planOf store id element :=
          ⟨earlier, hwhole, harray, items, hvalue, hmemElement⟩
        obtain ⟨members, -, hout⟩ := hmodels.exists_exportsTo_size (helements element hmemElement)
          (hmodels.closed id element helement)
        exact ⟨.map members, hout⟩
    exact ⟨entry, hrun _ (by omega)⟩
  have hfields : Action.forEach (exportField library (5 * store.size + fuel + 4) id) item.fields
      store = (store, .error (.fault (.unset (store.classOf id) member.field.attr))) := by
    rw [hstandard.fields_eq, hmembers, forEach_map]
    exact forEach_refused hearlier (exportField_unset hexports
      (hmem member (List.mem_append_right _ List.mem_cons_self)) _ hunset)
  have hcalls : callDepth library store = 5 * store.size + fuel + 4 + 1 := by omega
  simp only [Instance.exported, invoke, Action.bind_run, Action.look, ModelMint.member,
    findMember_export hstandard.regular hlive, hcalls]
  unfold call
  simp only [Action.bind_run, hfields]

end Instances

/-- An instance of a generated class, whatever else there is, is exported without a change where the
elements of its arrays do not lead back to themselves and all instances among them are filled: field
by field, each array with the exports of its elements.  Where a field is not set, and the arrays
before it hold such elements only, the export is refused for the first such field.  Fields stand in
the order of the properties, whose names are distinct. -/
theorem instances_exported {library : Library} {planOf : String → Plan} {store : Store}
    (hmodels : AreModels library planOf store) {id : Nat} (hid : id < store.size)
    {document : Document} {width : Json} {definition : Definition}
    (hplan : Plan.ofDefinition document width definition = .ok (planOf (store.classOf id))) :
    ((planOf (store.classOf id)).members.map (·.field.name) =
        definition.properties.map (·.2.name) ∧
      (definition.properties.map (·.2.name)).Nodup) ∧
    (Convertible planOf store id → ∃ members,
      Instance.exported library id store = (store, .ok (.map members)) ∧
        List.Forall₂ (FieldExport library store id) (planOf (store.classOf id)).members members) ∧
    ∀ before member after, (planOf (store.classOf id)).members = before ++ member :: after →
      store.attribute? id member.field.attr = none →
      (∀ earlier ∈ before, IsConvertibleField planOf store id earlier) →
        Instance.exported library id store =
          (store, .error (.fault (.unset (store.classOf id) member.field.attr))) := by
  have hplanned := Plan.ofDefinition_eq_ok hplan
  refine ⟨⟨hplanned.names_in_order, hplanned.names_in_order ▸ hplanned.distinct_names⟩,
    fun hconvertible => ?_, fun before member after hmembers hunset hbefore =>
      hmodels.exported_unset hid hmembers hunset hbefore⟩
  obtain ⟨members, hexports, hout⟩ := hmodels.exists_exportsTo_size hconvertible hid
  exact ⟨members, hout.exported (five_mul_le_callDepth (by omega)), hexports⟩

/-! ## Guests in their rooms -/

/-- Guests have rooms, and rooms know their guest. -/
def lodgingDocument : Document where
  raw := .obj [("definitions", .obj [("Room", .obj []), ("Guest", .obj [])])]
  entries := [("Room", .ok { name := "Room", path := "#/definitions/Room" }),
    ("Guest", .ok { name := "Guest", path := "#/definitions/Guest" })]

def lodgingRoom : Definition where
  name := "Room"
  properties := [("guest", {
    name := "guest", ref := some "#/definitions/Guest"
    path := "#/definitions/Room/properties/guest" })]
  path := "#/definitions/Room"

def lodgingGuest : Definition where
  name := "Guest"
  properties := [
    ("rooms", {
      name := "rooms", type := some "array", itemsRef := some "#/definitions/Room"
      path := "#/definitions/Guest/properties/rooms" }),
    ("name", { name := "name", path := "#/definitions/Guest/properties/name" })]
  required := ["name"]
  path := "#/definitions/Guest"

def lodgingRoomPlan : Plan where
  name := "Room"
  path := "#/definitions/Room"
  members := [{
    field := { name := "guest", attr := "guest", storage := some "Guest", initial := .absent }
    target := some "Guest" }]

def lodgingGuestPlan : Plan where
  name := "Guest"
  path := "#/definitions/Guest"
  members := [
    { field := {
        name := "rooms", attr := "rooms", storage := some TypeName.list, element := some "Room"
        documented := some "list[Room]", initial := .emptyList }
      rules := [.elements "Room"], target := some "Room" },
    { field := { name := "name", attr := "name" } }]

def lodgingPlanOf (className : String) : Plan :=
  if className == "Room" then lodgingRoomPlan else lodgingGuestPlan

def lodgingClass (plan : Plan) : LoadedClass :=
  match LoadedClass.load (standardModule [] plan) with
  | .ok item => item
  | .error _ => { name := plan.name }

def lodgingLibrary : Library :=
  [("Room", lodgingClass lodgingRoomPlan), ("Guest", lodgingClass lodgingGuestPlan)]

/-- A guest with a name, the room, and a guest without a name. -/
def lodgingStore : Store where
  instances := [
    { className := "Guest"
      attributes := [("rooms", .list [.instance 1, .int 3]), ("name", .text "Ada")] },
    { className := "Room", attributes := [("guest", .instance 0)] },
    { className := "Guest", attributes := [("rooms", .list [.instance 1])] }]

/-- The room is the one element of all arrays, and has none itself. -/
theorem lodging_element {holder element : Nat}
    (h : HasElement lodgingPlanOf lodgingStore holder element) : holder ≠ 1 ∧ element = 1 := by
  obtain ⟨member, hmember, harray, items, hvalue, hmem⟩ := h
  have hrooms : ∀ member ∈ lodgingGuestPlan.members, member.field.isArray = true →
      member.field.attr = "rooms" := by decide
  have hplain : ∀ member ∈ lodgingRoomPlan.members, member.field.isArray = false := by decide
  rcases holder with _ | _ | _ | holder
  · rw [hrooms member hmember harray] at hvalue
    cases hvalue
    simpa using hmem
  · rw [hplain member hmember] at harray
    cases harray
  · rw [hrooms member hmember harray] at hvalue
    cases hvalue
    simpa using hmem
  · cases hvalue

theorem lodging_models : AreModels lodgingLibrary lodgingPlanOf lodgingStore := by
  have hroom : IsModel lodgingLibrary lodgingPlanOf lodgingStore 1 :=
    ⟨⟨lodgingDocument, .int 120, lodgingRoom, rfl⟩,
      ⟨[], lodgingClass lodgingRoomPlan, rfl, by decide, rfl, by decide⟩, nofun⟩
  have hguest : ∀ id, id = 0 ∨ id = 2 → IsModel lodgingLibrary lodgingPlanOf lodgingStore id := by
    rintro id (rfl | rfl) <;>
      exact ⟨⟨lodgingDocument, .int 120, lodgingGuest, rfl⟩,
        ⟨[], lodgingClass lodgingGuestPlan, rfl, by decide, rfl, by decide⟩, nofun⟩
  refine ⟨fun id hid => ?_, fun holder element helement => ?_⟩
  · have hsize : lodgingStore.size = 3 := rfl
    obtain rfl | rfl | rfl : id = 0 ∨ id = 1 ∨ id = 2 := by omega
    · exact hguest 0 (.inl rfl)
    · exact hroom
    · exact hguest 2 (.inr rfl)
  · rw [(lodging_element helement).2]
    decide

theorem lodging_filled : ∀ id, id = 0 ∨ id = 1 → IsFilled lodgingPlanOf lodgingStore id := by
  rintro id (rfl | rfl) member hmember
  · have hmember : member ∈ lodgingGuestPlan.members := hmember
    simp only [lodgingGuestPlan, List.mem_cons, List.not_mem_nil, or_false] at hmember
    rcases hmember with rfl | rfl
    · exact ⟨_, rfl, fun _ => ⟨_, rfl⟩⟩
    · exact ⟨_, rfl, nofun⟩
  · obtain rfl := List.mem_singleton.mp hmember
    exact ⟨_, rfl, nofun⟩

theorem lodging_convertible {id : Nat} (h : id = 0 ∨ id = 1) :
    Convertible lodgingPlanOf lodgingStore id := by
  refine ⟨fun other _ hcycle => ?_, fun other hother => ?_⟩
  · obtain ⟨first, hfirst, -⟩ := TransGen.head'_iff.mp hcycle
    obtain ⟨last, -, hlast⟩ := TransGen.tail'_iff.mp hcycle
    exact (lodging_element hfirst).1 (lodging_element hlast).2
  · rcases ReflTransGen.cases_tail hother with rfl | ⟨holder, -, helement⟩
    · exact lodging_filled _ h
    · exact lodging_filled _ (.inr (lodging_element helement).2)

theorem instances_exported_lodging :
    lodgingGuestPlan.members.map (·.field.name) = lodgingGuest.properties.map (·.2.name) ∧
    (∃ members, Instance.exported lodgingLibrary 0 lodgingStore = (lodgingStore, .ok (.map members)) ∧
      List.Forall₂ (FieldExport lodgingLibrary lodgingStore 0) lodgingGuestPlan.members members) ∧
    Instance.exported lodgingLibrary 2 lodgingStore =
      (lodgingStore, .error (.fault (.unset "Guest" "name"))) := by
  have hnamed : 0 < lodgingStore.size := by decide
  have hunnamed : 2 < lodgingStore.size := by decide
  have hplan : Plan.ofDefinition lodgingDocument (.int 120) lodgingGuest = .ok lodgingGuestPlan := rfl
  obtain ⟨⟨horder, -⟩, hexported, -⟩ := instances_exported lodging_models hnamed hplan
  obtain ⟨-, -, hrefused⟩ := instances_exported lodging_models hunnamed hplan
  refine ⟨horder, hexported (lodging_convertible (.inl rfl)), ?_⟩
  refine hrefused [_] _ [] rfl rfl ?_
  intro earlier hearlier
  obtain rfl := List.mem_singleton.mp hearlier
  refine ⟨_, rfl, fun _ => ⟨_, rfl, fun element hmem => lodging_convertible (.inr ?_)⟩⟩
  simpa using hmem

end ModelMint
