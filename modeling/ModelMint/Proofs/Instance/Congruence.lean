import ModelMint.Proofs.Instance.Equality
import ModelMint.Proofs.Instance.Exports

/-!
# Equal instances are exported alike

Two equal instances have the same class, and so the same members under every name that an
export asks for.  What their fields hold is equal, and so is what is made of it: the two
exports go step by step alike, down to the instances among the elements of the arrays.
-/

namespace ModelMint

open ModelMint.Emit
open ModelMint.Blueprint
open ModelMint.Schema
open Value (IsPart IsKeyed HasNumbers)

variable {library : Library} {planOf : String → Plan} {store : Store} {among : Set Nat}

/-! ## Instances of generated classes -/

/-- An instance of a class that comes from an accepted definition over the standard base, whatever
its constants are called, and that holds values of its fields only. -/
structure IsGenerated (library : Library) (planOf : String → Plan) (store : Store) (id : Nat) :
    Prop where
  accepted : ∃ document width definition,
    Plan.ofDefinition document width definition = .ok (planOf (store.classOf id))
  loaded : ∃ lines item, LoadedClass.load (standardModule lines (planOf (store.classOf id))) =
    .ok item ∧ Live library item store id

/-- What an array field holds is a list. -/
def HoldsLists (planOf : String → Plan) (store : Store) (id : Nat) : Prop :=
  ∀ member ∈ (planOf (store.classOf id)).members, member.field.isArray = true →
    ∀ value, store.attribute? id member.field.attr = some value → ∃ items, value = .list items

theorem IsGenerated.exists_item {id : Nat} (h : IsGenerated library planOf store id) :
    ∃ item, Standard (planOf (store.classOf id)) item ∧ Live library item store id := by
  obtain ⟨document, width, definition, hplan⟩ := h.accepted
  obtain ⟨lines, item, hload, hlive⟩ := h.loaded
  exact ⟨item, (Plan.ofDefinition_eq_ok hplan).standard_class hload, hlive⟩

/-! ## Two runs -/

/-- Two runs leave the store as it is and come to related results, or are refused for one reason,
which is not that they were given too little depth. -/
inductive Agree {α β : Type} (store : Store) (R : α → β → Prop) :
    Store × Except Refusal α → Store × Except Refusal β → Prop
  | refused {refusal : Refusal} (h : refusal ≠ .fault .endless) :
      Agree store R (store, .error refusal) (store, .error refusal)
  | done {x : α} {y : β} (h : R x y) : Agree store R (store, .ok x) (store, .ok y)

section Agree

variable {α β γ δ : Type} {R : α → β → Prop} {S : γ → δ → Prop}

theorem Agree.bind {first : Action α} {second : Action β} {next : α → Action γ}
    {follow : β → Action δ} (h : Agree store R (first store) (second store))
    (hnext : ∀ x y, R x y → Agree store S (next x store) (follow y store)) :
    Agree store S ((first.bind next) store) ((second.bind follow) store) := by
  rw [Action.bind_apply, Action.bind_apply]
  generalize first store = left at h
  generalize second store = right at h
  cases h with
  | refused hrefusal => exact .refused hrefusal
  | done hrel => exact hnext _ _ hrel

theorem Agree.imp {R' : α → β → Prop} {left : Store × Except Refusal α}
    {right : Store × Except Refusal β} (h : Agree store R left right)
    (himp : ∀ x y, R x y → R' x y) : Agree store R' left right := by
  cases h with
  | refused hrefusal => exact .refused hrefusal
  | done hrel => exact .done (himp _ _ hrel)

/-- Two runs over as many items agree if they do so item by item: what comes out are rows of
related results. -/
theorem agree_forEach {T : α → γ → δ → Prop} {f : α → Action γ} {g : β → Action δ}
    {items : List α} {others : List β}
    (h : List.Forall₂ (fun item other => Agree store (T item) (f item store) (g other store)) items
      others) :
    Agree store (fun outs ends => ∃ rows : List (γ × δ), outs = rows.map Prod.fst ∧
        ends = rows.map Prod.snd ∧ List.Forall₂ (fun item row => T item row.1 row.2) items rows)
      (Action.forEach f items store) (Action.forEach g others store) := by
  induction h with
  | nil => exact .done ⟨[], rfl, rfl, .nil⟩
  | cons hfirst _ ih =>
      refine hfirst.bind fun x y hrel => ih.bind fun outs ends hrest => ?_
      obtain ⟨rows, rfl, rfl, hrows⟩ := hrest
      exact .done ⟨(x, y) :: rows, rfl, rfl, .cons hrel hrows⟩

end Agree

/-! ## Equal instances -/

section Equal

variable {a b : Nat} {item : LoadedClass} {plan : Plan} {member : Blueprint.Member}

/-- Of two equal instances, the class is the same and the attributes are equal. -/
theorem Store.Comparable.attributes_equal (h : store.Comparable among) (ha : a ∈ among)
    (hequal : store.same (.instance a) (.instance b) = .ok true) :
    store.classOf a = store.classOf b ∧ ∀ attr,
      Option.Rel (fun x y => store.same x y = .ok true) (store.attribute? a attr)
        (store.attribute? b attr) := by
  have hheld : store.classOf a = store.classOf b ∧
      store.same (store.held a) (store.held b) = .ok true := by
    rcases Store.same_instance_iff.mp hequal with rfl | hsame
    · exact ⟨rfl, Value.sameWith_self (h.keyed a ha) (h.numbers a ha)⟩
    · obtain ⟨hclass, hheld⟩ := Store.sameInstances_succ.mp hsame
      exact ⟨hclass, Value.sameWith_mono (fun _ _ _ _ => Store.sameInstances_deeper) hheld⟩
  exact ⟨hheld.1, Value.get?_of_sameWith_map hheld.2 (h.keyed a ha _ .self)⟩

theorem findMember_both (hregular : item.Regular) (ha : Live library item store a)
    (hb : Live library item store b) {name : String} {operation : Operation}
    (hname : operation.HasName name) :
    findMember library a name store = .ok (.operation operation) ∧
        findMember library b name store = .ok (.operation operation) ∨
      ∃ hidden, findMember library a name store = .ok (.value hidden) ∧
        findMember library b name store = .ok (.value hidden) := by
  cases hconstant : Entries.get? name item.constants with
  | none =>
      exact .inl ⟨findMember_of_free hregular ha hname hconstant,
        findMember_of_free hregular hb hname hconstant⟩
  | some hidden =>
      exact .inr ⟨hidden, findMember_of_taken hregular ha hname hconstant,
        findMember_of_taken hregular hb hname hconstant⟩

theorem agree_reader (hregular : item.Regular) (ha : Live library item store a)
    (hb : Live library item store b) (hclass : store.classOf a = store.classOf b) {attr : String}
    (hattr : Option.Rel (fun x y => store.same x y = .ok true) (store.attribute? a attr)
      (store.attribute? b attr)) (fuel : Nat) :
    Agree store (fun x y => store.attribute? a attr = some x ∧ store.attribute? b attr = some y ∧
        store.same x y = .ok true)
      (call library (fuel + 3) a (.reader attr) [] store)
      (call library (fuel + 3) b (.reader attr) [] store) := by
  rcases findMember_both hregular ha hb .reader with
    ⟨hleft, hright⟩ | ⟨hidden, hleft, hright⟩
  · rw [call_reader fuel hleft, call_reader fuel hright, hclass]
    generalize store.attribute? a attr = first at hattr
    generalize store.attribute? b attr = second at hattr
    cases hattr with
    | none => exact .refused nofun
    | some hsame => exact .done ⟨rfl, rfl, hsame⟩
  · rw [call_reader_hidden (fuel + 1) hleft, call_reader_hidden (fuel + 1) hright]
    exact .refused nofun

/-! ## Elements of arrays -/

theorem exists_instance {x : Value} (h : store.same x (.instance b) = .ok true) :
    ∃ id, x = .instance id := by
  cases x with
  | «instance» id => exact ⟨id, rfl⟩
  | _ => simp [Store.same, Value.sameWith, Value.sameNumber, Value.number?] at h

/-- Equal items are exported alike if the instances among them are. -/
theorem agree_items {items others : List Value} {fuel : Nat}
    (h : List.Forall₂ (fun x y => store.same x y = .ok true) items others)
    (hinstances : ∀ first second, .instance first ∈ items → .instance second ∈ others →
      store.same (.instance first) (.instance second) = .ok true →
        Agree store (fun x y => store.same x y = .ok true)
          (exportItem library (fuel + 1) (.instance first) store)
          (exportItem library (fuel + 1) (.instance second) store)) :
    Agree store (fun outs ends => store.same (.list outs) (.list ends) = .ok true)
      (Action.forEach (exportItem library (fuel + 1)) items store)
      (Action.forEach (exportItem library (fuel + 1)) others store) := by
  have hitems : List.Forall₂ (fun item other =>
      Agree store (fun x y => store.same x y = .ok true)
        (exportItem library (fuel + 1) item store)
        (exportItem library (fuel + 1) other store)) items others := by
    refine forall₂_of_mem h fun item hitem other hother hsame => ?_
    by_cases hinstance : ∃ first, item = .instance first
    · obtain ⟨first, rfl⟩ := hinstance
      obtain ⟨second, rfl, -⟩ := Value.sameWith_instance.mp hsame
      exact hinstances first second hitem hother hsame
    · have hplain : ∀ first, item ≠ .instance first := fun first heq => hinstance ⟨first, heq⟩
      have hother : ∀ second, other ≠ .instance second := by
        rintro second rfl
        exact hinstance (exists_instance hsame)
      rw [exportItem_other hplain, exportItem_other hother]
      exact .done hsame
  refine (agree_forEach hitems).imp ?_
  rintro _ _ ⟨rows, rfl, rfl, hrows⟩
  refine Value.sameWith_list.mpr ⟨_, rfl, ?_⟩
  rw [List.forall₂_map_left_iff, List.forall₂_map_right_iff, List.forall₂_same]
  intro row hrow
  obtain ⟨item, -, hsame⟩ := exists_left_of_mem hrows hrow
  exact hsame

/-! ## Fields -/

section Field

variable {id fuel : Nat} (hgetter : findMember library id (getter member.field.attr) store =
  .ok (.reader member.field.attr))
include hgetter

theorem exportField_read (harray : member.field.isArray = false) :
    exportField library (fuel + 1) id (fieldCode {} member.field) store =
      ((call library fuel id (.reader member.field.attr) []).bind
        fun value => Action.pure (member.field.name, value)) store := by
  unfold exportField
  rw [exported_standard, harray]
  simp only [Bool.false_eq_true, if_false, Action.bind_run, ModelMint.member, fieldCode, hgetter]
  rfl

theorem exportField_convert (harray : member.field.isArray = true) {exporter : Member}
    (hexporter : findMember library id (privateName (store.classOf id) "_convert_pure_array") store =
      .ok exporter) :
    exportField library (fuel + 1) id (fieldCode {} member.field) store =
      ((call library fuel id (.reader member.field.attr) []).bind fun value =>
        (call library fuel id exporter [value]).bind
          fun exported => Action.pure (member.field.name, exported)) store := by
  unfold exportField
  rw [exported_standard, harray]
  simp only [if_true, Action.bind_run, ModelMint.member, Action.look, fieldCode, hgetter, hexporter]
  rfl

end Field

/-- Of two equal instances a field comes out with equal values, if the elements of its array do. -/
theorem agree_field (hstandard : Standard plan item) (hmember : member ∈ plan.members)
    (ha : Live library item store a) (hb : Live library item store b)
    (hclass : store.classOf a = store.classOf b)
    (hattr : Option.Rel (fun x y => store.same x y = .ok true)
      (store.attribute? a member.field.attr) (store.attribute? b member.field.attr))
    (hlist : member.field.isArray = true → ∀ value,
      store.attribute? a member.field.attr = some value → ∃ items, value = .list items)
    {fuel : Nat}
    (hinstances : ∀ items others, store.attribute? a member.field.attr = some (.list items) →
      store.attribute? b member.field.attr = some (.list others) →
      ∀ first second, .instance first ∈ items → .instance second ∈ others →
        store.same (.instance first) (.instance second) = .ok true →
          Agree store (fun x y => store.same x y = .ok true)
            (exportItem library (fuel + 1) (.instance first) store)
            (exportItem library (fuel + 1) (.instance second) store)) :
    Agree store (fun first second : String × Value => first.1 = member.field.name ∧
        second.1 = member.field.name ∧ store.same first.2 second.2 = .ok true)
      (exportField library (fuel + 4) a (fieldCode {} member.field) store)
      (exportField library (fuel + 4) b (fieldCode {} member.field) store) := by
  have hfield := hstandard.field_mem hmember
  have hleft := findMember_getter hstandard.regular ha hfield
  have hright := findMember_getter hstandard.regular hb hfield
  have hreader := agree_reader hstandard.regular ha hb hclass hattr fuel
  cases harray : member.field.isArray with
  | false =>
      rw [exportField_read hleft harray, exportField_read hright harray]
      exact hreader.bind fun x y hread => .done ⟨rfl, rfl, hread.2.2⟩
  | true =>
      have hname : ∀ id, privateName (store.classOf id) "_convert_pure_array" =
          "_convert_pure_array" := fun id => Operation.HasName.exporter.privateName_eq _
      rcases findMember_both hstandard.regular ha hb .exporter with
        ⟨hconvert, hother⟩ | ⟨hidden, hconvert, hother⟩
      · rw [exportField_convert hleft harray (by rw [hname, hconvert]),
          exportField_convert hright harray (by rw [hname, hother])]
        refine hreader.bind fun x y hread => ?_
        obtain ⟨hx, hy, hsame⟩ := hread
        obtain ⟨items, rfl⟩ := hlist harray x hx
        obtain ⟨others, rfl, hitems⟩ := Value.sameWith_list.mp hsame
        refine Agree.bind (R := fun x y => store.same x y = .ok true) ?_
          fun outs ends hexported => .done ⟨rfl, rfl, hexported⟩
        rw [call_exportElements, call_exportElements]
        exact (agree_items hitems (hinstances items others hx hy)).bind
          fun outs ends hexported => .done hexported
      · rw [exportField_convert hleft harray (by rw [hname, hconvert]),
          exportField_convert hright harray (by rw [hname, hother])]
        refine hreader.bind fun x y _ => ?_
        refine Agree.bind (R := fun _ _ => False) ?_ nofun
        rw [call_value, call_value]
        exact .refused nofun

/-! ## Exports -/

theorem exportItem_instance {id fuel : Nat} (hregular : item.Regular)
    (hlive : Live library item store id) :
    exportItem library (fuel + 2) (.instance id) store =
      ((Action.forEach (exportField library fuel id) item.fields).bind
        fun members => Action.pure (Value.map members)) store := by
  unfold exportItem
  simp only [Action.bind_run, ModelMint.member, findMember_export hregular hlive]
  unfold call
  rfl

theorem exported_eq (library : Library) (id : Nat) (store : Store) :
    Instance.exported library id store =
      exportItem library (callDepth library store + 1) (.instance id) store := by
  unfold exportItem Instance.exported invoke
  simp only [Action.bind_run, ModelMint.member, Action.look]
  cases findMember library id "to_dict" store <;> rfl

/-- Entries that are equal one by one make equal maps, if each key is there once. -/
theorem Value.sameWith_map_of_forall₂ {same : Nat → Nat → Except Fault Bool}
    {members others : List (String × Value)}
    (h : List.Forall₂ (fun first second : String × Value => first.1 = second.1 ∧
      sameWith same first.2 second.2 = .ok true) members others)
    (hkeys : (Entries.keys others).Nodup) :
    sameWith same (.map members) (.map others) = .ok true := by
  refine sameWith_map.mpr ⟨others, rfl, h.length_eq, fun entry hentry => ?_⟩
  obtain ⟨second, hsecond, hname, hequal⟩ := exists_right_of_mem h hentry
  exact ⟨second.2, hname ▸ Entries.get?_of_mem hkeys hsecond, hequal⟩

/-- Equal instances are exported alike: within six calls for each, and five more for every instance
that it leads to. -/
theorem Store.Comparable.agree_exportItem (h : store.Comparable among)
    (hgenerated : ∀ id ∈ among, IsGenerated library planOf store id)
    (hlists : ∀ id ∈ among, HoldsLists planOf store id) {count : Nat} (ha : a ∈ among)
    (hb : b ∈ among) (hcount : (store.below a).card < count)
    (hsame : store.same (.instance a) (.instance b) = .ok true) {fuel : Nat}
    (hfuel : 5 * count + 1 ≤ fuel) :
    Agree store (fun x y => store.same x y = .ok true)
      (exportItem library fuel (.instance a) store)
      (exportItem library fuel (.instance b) store) := by
  -- on how many instances the first one leads to; its elements lead to fewer
  induction count generalizing a b fuel with
  | zero => cases hcount
  | succ count ih =>
      obtain ⟨fuel, rfl⟩ := Nat.exists_eq_add_of_le' (show 6 ≤ fuel by omega)
      obtain ⟨hclass, hattributes⟩ := h.attributes_equal ha hsame
      obtain ⟨item, hstandard, hlive⟩ := (hgenerated a ha).exists_item
      obtain ⟨other, -, hother⟩ := (hgenerated b hb).exists_item
      obtain rfl : item = other := by
        have hloaded := hother.loaded
        rw [← hclass, hlive.loaded] at hloaded
        exact Option.some.inj hloaded
      obtain ⟨document, width, definition, hplan⟩ := (hgenerated a ha).accepted
      rw [exportItem_instance hstandard.regular hlive, exportItem_instance hstandard.regular hother,
        hstandard.fields_eq, forEach_map, forEach_map]
      have hfields : ∀ member ∈ (planOf (store.classOf a)).members,
          Agree store (fun first second : String × Value => first.1 = member.field.name ∧
              second.1 = member.field.name ∧ store.same first.2 second.2 = .ok true)
            (exportField library (fuel + 4) a (fieldCode {} member.field) store)
            (exportField library (fuel + 4) b (fieldCode {} member.field) store) := by
        intro member hmember
        refine agree_field hstandard hmember hlive hother hclass (hattributes _)
          (hlists a ha member hmember) fun items others hitems hothers first second hfirst hsecond
            hequal => ?_
        -- an element is one of the instances that the holder leads to
        have hrefers : store.Refers a first :=
          .member (Entries.mem_of_get? hitems) (.item hfirst .self)
        have hagain : store.Refers b second :=
          .member (Entries.mem_of_get? hothers) (.item hsecond .self)
        have hless := h.card_below_lt ha hrefers
        exact ih (h.closed a ha first hrefers) (h.closed b hb second hagain) (by omega) hequal
          (by omega)
      refine (agree_forEach (List.forall₂_same.mpr hfields)).bind ?_
      rintro _ _ ⟨rows, rfl, rfl, hrows⟩
      refine .done (Value.sameWith_map_of_forall₂ ?_ ?_)
      · rw [List.forall₂_map_left_iff, List.forall₂_map_right_iff, List.forall₂_same]
        intro row hrow
        obtain ⟨member, -, hfirst, hsecond, hequal⟩ := exists_left_of_mem hrows hrow
        exact ⟨hfirst.trans hsecond.symm, hequal⟩
      · have hkeys : Entries.keys (rows.map Prod.snd) =
            (planOf (store.classOf a)).members.map (·.field.name) := by
          rw [Entries.keys, List.map_map, eq_comm, ← List.forall₂_eq_eq_eq,
            List.forall₂_map_left_iff, List.forall₂_map_right_iff]
          exact hrows.imp fun member row hrow => hrow.2.1.symm
        rw [hkeys]
        exact (Plan.ofDefinition_eq_ok hplan).distinct_names

end Equal

/-! ## The operators and the export -/

/-- What the operators of instances answer, and what equality means for their exports. -/
structure ComparesWell (library : Library) (store : Store) (among : Set Nat) : Prop where
  answers : ∀ a ∈ among, ∀ b ∈ among, ∃ answer,
    store.areEqual a b = .ok answer ∧ store.areDifferent a b = .ok (!answer)
  self : ∀ a ∈ among, store.areEqual a a = .ok true
  symm : ∀ a ∈ among, ∀ b ∈ among, store.areEqual a b = .ok true → store.areEqual b a = .ok true
  trans : ∀ a ∈ among, ∀ b ∈ among, ∀ c ∈ among, store.areEqual a b = .ok true →
    store.areEqual b c = .ok true → store.areEqual a c = .ok true
  classes : ∀ a ∈ among, ∀ b ∈ among, store.classOf a ≠ store.classOf b →
    store.areEqual a b = .ok false
  order : ∀ a ∈ among, ∀ b ∈ among, store.classOf a = store.classOf b →
    (store.attributes a).Perm (store.attributes b) → store.areEqual a b = .ok true
  reordered : ∀ other, store.Reordered other → ∀ a ∈ among, ∀ b ∈ among,
    other.areEqual a b = store.areEqual a b
  exported : ∀ a ∈ among, ∀ b ∈ among, store.areEqual a b = .ok true →
    (∃ refusal, refusal ≠ .fault .endless ∧
      Instance.exported library a store = (store, .error refusal) ∧
      Instance.exported library b store = (store, .error refusal)) ∨
    ∃ x y, Instance.exported library a store = (store, .ok x) ∧
      Instance.exported library b store = (store, .ok y) ∧ store.same x y = .ok true

/-- Instances of generated classes that do not lead back to themselves, with numbers that are numbers
and lists in their array fields: to be equal is an equivalence that the order of attributes is
nothing to, that goes through classes, and that exports keep; to be different is the opposite. -/
theorem instances_compare_well (hcomparable : store.Comparable among)
    (hgenerated : ∀ id ∈ among, IsGenerated library planOf store id)
    (hlists : ∀ id ∈ among, HoldsLists planOf store id) : ComparesWell library store among where
  answers a ha b hb := by
    obtain ⟨answer, hanswer⟩ := hcomparable.exists_areEqual ha hb
    exact ⟨answer, hanswer, by rw [Store.areDifferent_eq, hanswer]; rfl⟩
  self a _ := Store.areEqual_iff.mpr (.inl rfl)
  symm a ha b hb hsame := by
    rw [Store.areEqual_iff] at hsame ⊢
    exact hsame.imp Eq.symm (hcomparable.sameInstances_symm ha hb)
  trans a _ b _ c _ hab hbc := by
    rw [Store.areEqual_iff] at hab hbc ⊢
    rcases hab with rfl | hab
    · exact hbc
    · rcases hbc with rfl | hbc
      · exact .inr hab
      · exact .inr (Store.sameInstances_trans hab hbc)
  classes a _ b _ hclass := by
    rw [Store.areEqual_eq, Store.same_of_class_ne hclass]
  order a _ b hb := hcomparable.areEqual_of_perm hb
  reordered other hreordered a ha b hb := hreordered.areEqual hcomparable ha hb
  exported a ha b hb hequal := by
    rw [Store.areEqual_eq] at hequal
    have hdepth : 5 * store.size + 1 ≤ callDepth library store + 1 :=
      Nat.succ_le_succ (five_mul_le_callDepth (Nat.le_succ store.size))
    have hagree := hcomparable.agree_exportItem hgenerated hlists ha hb
      (hcomparable.card_below_lt_size ha) hequal hdepth
    rw [← exported_eq, ← exported_eq] at hagree
    generalize Instance.exported library a store = first at hagree
    generalize Instance.exported library b store = second at hagree
    cases hagree with
    | refused hrefusal => exact .inl ⟨_, hrefusal, rfl, rfl⟩
    | done hsame => exact .inr ⟨_, _, rfl, rfl, hsame⟩

/-! ## Two guests and their rooms -/

/-- Two guests with as many rooms, whose attributes were set in different orders, and a third one
without a name. -/
def twinStore : Store where
  instances := [
    { className := "Room", attributes := [("guest", .none)] },
    { className := "Room", attributes := [("guest", .none)] },
    { className := "Guest"
      attributes := [("rooms", .list [.instance 0, .int 1]),
        ("name", .map [("given", .text "Ada"), ("middle", .none)])] },
    { className := "Guest"
      attributes := [("name", .map [("middle", .none), ("given", .text "Ada")]),
        ("rooms", .list [.instance 1, .bool true])] },
    { className := "Guest", attributes := [("rooms", .list [])] }]

theorem twin_cases {id : Nat} (h : id < twinStore.size) :
    id = 0 ∨ id = 1 ∨ id = 2 ∨ id = 3 ∨ id = 4 := by
  have hsize : twinStore.size = 5 := rfl
  omega

/-- Guests refer to rooms, and rooms to nothing. -/
theorem twin_refers {holder other : Nat} (h : twinStore.Refers holder other) :
    2 ≤ holder ∧ other < 2 := by
  unfold Store.Refers Store.held at h
  rcases holder with _ | _ | _ | _ | _ | holder <;>
    simp (disch := decide) [twinStore, Store.attributes, Store.get?, Value.isPart_key] at h ⊢
  · omega
  · omega

theorem twin_comparable : twinStore.Comparable {id | id < twinStore.size} where
  inside _ hid := hid
  closed id _ other hrefers := Nat.lt_trans (twin_refers hrefers).2 (by decide)
  acyclic id _ hcycle := by
    obtain ⟨first, hfirst, -⟩ := Relation.TransGen.head'_iff.mp hcycle
    obtain ⟨last, -, hlast⟩ := Relation.TransGen.tail'_iff.mp hcycle
    have habove := (twin_refers hfirst).1
    have hbelow := (twin_refers hlast).2
    omega
  keyed id hid members hpart := by
    unfold Store.held at hpart
    rcases twin_cases hid with rfl | rfl | rfl | rfl | rfl <;>
      simp (disch := decide) [twinStore, Store.attributes, Store.get?, Value.isPart_key] at hpart
    · rw [hpart]
      decide
    · rw [hpart]
      decide
    · rcases hpart with rfl | rfl <;> decide
    · rcases hpart with rfl | rfl <;> decide
    · rw [hpart]
      decide
  numbers id hid hpart := by
    unfold Store.held at hpart
    rcases twin_cases hid with rfl | rfl | rfl | rfl | rfl <;>
      simp (disch := decide) [twinStore, Store.attributes, Store.get?, Value.isPart_key] at hpart

theorem twin_generated (id : Nat) (hid : id < twinStore.size) :
    IsGenerated lodgingLibrary lodgingPlanOf twinStore id := by
  have hroom : ∀ id, id = 0 ∨ id = 1 → IsGenerated lodgingLibrary lodgingPlanOf twinStore id := by
    rintro id (rfl | rfl) <;>
      exact ⟨⟨lodgingDocument, .int 120, lodgingRoom, rfl⟩,
        ⟨[], lodgingClass lodgingRoomPlan, rfl, by decide, rfl, by decide⟩⟩
  have hguest : ∀ id, id = 2 ∨ id = 3 ∨ id = 4 →
      IsGenerated lodgingLibrary lodgingPlanOf twinStore id := by
    rintro id (rfl | rfl | rfl) <;>
      exact ⟨⟨lodgingDocument, .int 120, lodgingGuest, rfl⟩,
        ⟨[], lodgingClass lodgingGuestPlan, rfl, by decide, rfl, by decide⟩⟩
  obtain hfirst | hsecond | hthird | hfourth | hfifth := twin_cases hid
  · exact hroom id (.inl hfirst)
  · exact hroom id (.inr hsecond)
  · exact hguest id (.inl hthird)
  · exact hguest id (.inr (.inl hfourth))
  · exact hguest id (.inr (.inr hfifth))

theorem twin_lists (id : Nat) (hid : id < twinStore.size) :
    HoldsLists lodgingPlanOf twinStore id := by
  intro member hmember harray value hvalue
  have hrooms : ∀ member ∈ lodgingGuestPlan.members, member.field.isArray = true →
      member.field.attr = "rooms" := by decide
  have hplain : ∀ member ∈ lodgingRoomPlan.members, member.field.isArray = false := by decide
  rcases twin_cases hid with rfl | rfl | rfl | rfl | rfl
  · rw [hplain member hmember] at harray
    cases harray
  · rw [hplain member hmember] at harray
    cases harray
  · rw [hrooms member hmember harray] at hvalue
    cases hvalue
    exact ⟨_, rfl⟩
  · rw [hrooms member hmember harray] at hvalue
    cases hvalue
    exact ⟨_, rfl⟩
  · rw [hrooms member hmember harray] at hvalue
    cases hvalue
    exact ⟨_, rfl⟩

theorem instances_compare_well_twins :
    ComparesWell lodgingLibrary twinStore {id | id < twinStore.size} ∧
    twinStore.areEqual 2 3 = .ok true ∧ twinStore.areEqual 2 4 = .ok false ∧
    ∃ x y, Instance.exported lodgingLibrary 2 twinStore = (twinStore, .ok x) ∧
      Instance.exported lodgingLibrary 3 twinStore = (twinStore, .ok y) ∧
      twinStore.same x y = .ok true := by
  have hwell := instances_compare_well twin_comparable twin_generated twin_lists
  have hequal : twinStore.areEqual 2 3 = .ok true := by decide +kernel
  have hdiffer : twinStore.areEqual 2 4 = .ok false := by decide +kernel
  refine ⟨hwell, hequal, hdiffer, ?_⟩
  have hfirst : (2 : Nat) ∈ {id | id < twinStore.size} := by decide
  have hsecond : (3 : Nat) ∈ {id | id < twinStore.size} := by decide
  rcases hwell.exported 2 hfirst 3 hsecond hequal with ⟨refusal, -, hrefused, -⟩ | hexported
  · have hout : (Instance.exported lodgingLibrary 2 twinStore).2.isOk = true := by decide +kernel
    rw [hrefused] at hout
    cases hout
  · exact hexported

end ModelMint
