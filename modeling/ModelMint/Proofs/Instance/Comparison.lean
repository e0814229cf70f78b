import Mathlib.Data.List.Forall2
import Mathlib.Data.List.Perm.Subperm
import ModelMint.Proofs.Instance.Parts
import ModelMint.Proofs.Instance.Sameness

/-!
# When values are equal

Two values are equal part by part, and the instances among their parts as another comparison
says.  So the comparison of values takes over from that of the instances that it has an end,
and that it may be turned around and chained.  Decoded values have no instances among their
parts, and with finite numbers, and each key once in an object, none that differs from itself.
-/

namespace ModelMint

/-! ## Lists -/

theorem forall₂_of_mem {α β : Type} {R S : α → β → Prop} {items : List α} {others : List β}
    (h : List.Forall₂ R items others)
    (himp : ∀ item ∈ items, ∀ other ∈ others, R item other → S item other) :
    List.Forall₂ S items others := by
  induction h with
  | nil => exact .nil
  | cons hfirst _ ih =>
      refine .cons (himp _ List.mem_cons_self _ List.mem_cons_self hfirst) (ih ?_)
      intro item hitem other hother
      exact himp item (List.mem_cons_of_mem _ hitem) other (List.mem_cons_of_mem _ hother)

theorem forall₂_chain {α : Type} {R : α → α → Prop} {items others thirds : List α}
    (h : List.Forall₂ R items others) (hothers : List.Forall₂ R others thirds)
    (htrans : ∀ item ∈ items, ∀ other third, R item other → R other third → R item third) :
    List.Forall₂ R items thirds := by
  induction h generalizing thirds with
  | nil => exact hothers
  | cons hfirst _ ih =>
      obtain ⟨hitem, hrest⟩ := List.forall_mem_cons.mp htrans
      cases hothers with
      | cons hsecond hlater => exact .cons (hitem _ _ hfirst hsecond) (ih hlater hrest)

/-! ## Keys -/

namespace Entries

variable {α β γ : Type} [DecidableEq α]

theorem get?_of_mem {entries : List (α × β)} (hkeys : (keys entries).Nodup) {entry : α × β}
    (h : entry ∈ entries) : get? entry.1 entries = some entry.2 := by
  induction entries with
  | nil => cases h
  | cons first rest ih =>
      obtain ⟨hfirst, hrest⟩ := List.nodup_cons.mp hkeys
      rcases List.mem_cons.mp h with rfl | hlater
      · simp [get?]
      · have hne : first.1 ≠ entry.1 := by
          intro heq
          exact hfirst (heq ▸ List.mem_map_of_mem hlater)
        rw [get?, if_neg hne]
        exact ih hrest hlater

omit [DecidableEq α] in
/-- As many keys, each once, and all found again: none is missing on the other side. -/
theorem keys_subset_of_length {entries : List (α × β)} {others : List (α × γ)}
    (hlength : entries.length = others.length) (hkeys : (keys entries).Nodup)
    (hfound : keys entries ⊆ keys others) : keys others ⊆ keys entries := by
  have hperm : (keys entries).Perm (keys others) :=
    (List.subperm_of_subset hkeys hfound).perm_of_length_le (by simp [keys, hlength])
  exact hperm.symm.subset

end Entries

namespace Value

/-! ## Part by part -/

variable {a b c : Value} {same other : Nat → Nat → Except Fault Bool}

theorem sameWith_key (ha : a.isKey = true) : sameWith same a b = .ok (sameKey a b) := by
  cases a with
  | list | map | «instance» => cases ha
  | _ => cases b <;> rfl

theorem sameItems_eq_true {as bs : List Value} (hlength : as.length = bs.length) :
    sameItems same as bs = .ok true ↔
      List.Forall₂ (fun a b => sameWith same a b = .ok true) as bs := by
  induction as generalizing bs with
  | nil =>
      cases bs with
      | nil => simp [sameItems]
      | cons b bs => cases hlength
  | cons a as ih =>
      cases bs with
      | nil => cases hlength
      | cons b bs =>
          rw [List.forall₂_cons, ← ih (Nat.succ.inj hlength), sameItems]
          split
          next hsame => simp [hsame]
          next answer hsame =>
            constructor
            · intro hitems
              exact absurd hitems hsame
            · exact fun hboth => absurd hboth.1 hsame

theorem sameMembers_eq_true {as bs : List (String × Value)} :
    sameMembers same as bs = .ok true ↔ ∀ entry ∈ as, ∃ b,
      Entries.get? entry.1 bs = some b ∧ sameWith same entry.2 b = .ok true := by
  induction as with
  | nil => simp [sameMembers]
  | cons entry rest ih =>
      obtain ⟨key, a⟩ := entry
      rw [List.forall_mem_cons, ← ih, sameMembers]
      cases Entries.get? key bs with
      | none => simp
      | some b =>
          simp only [Option.some.injEq, exists_eq_left']
          split
          next hsame => simp [hsame]
          next answer hsame =>
            constructor
            · intro hmembers
              exact absurd hmembers hsame
            · exact fun hboth => absurd hboth.1 hsame

theorem sameWith_list {items : List Value} : sameWith same (.list items) b = .ok true ↔
    ∃ others, b = .list others ∧
      List.Forall₂ (fun item other => sameWith same item other = .ok true) items others := by
  constructor
  · intro h
    cases b with
    | list others =>
        simp only [sameWith, beq_iff_eq] at h
        split at h
        next hlength => exact ⟨others, rfl, (sameItems_eq_true hlength).mp h⟩
        · cases h
    | _ => simp [sameWith, sameNumber, number?] at h
  · rintro ⟨others, rfl, hitems⟩
    simp [sameWith, hitems.length_eq, (sameItems_eq_true hitems.length_eq).mpr hitems]

theorem sameWith_map {members : List (String × Value)} :
    sameWith same (.map members) b = .ok true ↔ ∃ others, b = .map others ∧
      members.length = others.length ∧ ∀ entry ∈ members, ∃ held,
        Entries.get? entry.1 others = some held ∧ sameWith same entry.2 held = .ok true := by
  constructor
  · intro h
    cases b with
    | map others =>
        simp only [sameWith, beq_iff_eq] at h
        split at h
        next hlength => exact ⟨others, rfl, hlength, sameMembers_eq_true.mp h⟩
        · cases h
    | _ => simp [sameWith, sameNumber, number?] at h
  · rintro ⟨others, rfl, hlength, hmembers⟩
    simp [sameWith, hlength, sameMembers_eq_true.mpr hmembers]

/-- Equal maps hold equal values under every key, or both none. -/
theorem get?_of_sameWith_map {members others : List (String × Value)}
    (hsame : sameWith same (.map members) (.map others) = .ok true)
    (hkeys : (Entries.keys members).Nodup) (key : String) :
    Option.Rel (fun x y => sameWith same x y = .ok true) (Entries.get? key members)
      (Entries.get? key others) := by
  obtain ⟨_, heq, hlength, hmembers⟩ := sameWith_map.mp hsame
  obtain rfl := Value.map.inj heq
  cases hfirst : Entries.get? key members with
  | some value =>
      obtain ⟨held, hheld, hequal⟩ := hmembers _ (Entries.mem_of_get? hfirst)
      rw [hheld]
      exact .some hequal
  | none =>
      have hfound : Entries.keys members ⊆ Entries.keys others := by
        intro name hname
        obtain ⟨entry, hentry, rfl⟩ := List.mem_map.mp hname
        obtain ⟨held, hheld, -⟩ := hmembers entry hentry
        exact List.mem_map.mpr ⟨_, Entries.mem_of_get? hheld, rfl⟩
      have hnone : Entries.get? key others = Option.none := by
        rw [Entries.get?_eq_none_iff] at hfirst ⊢
        exact fun hmem => hfirst (Entries.keys_subset_of_length hlength hkeys hfound hmem)
      rw [hnone]
      exact .none

theorem sameWith_instance {id : Nat} : sameWith same (.instance id) b = .ok true ↔
    ∃ second, b = .instance second ∧ (id = second ∨ same id second = .ok true) := by
  constructor
  · intro h
    cases b with
    | «instance» second =>
        simp only [sameWith, beq_iff_eq] at h
        split at h
        next hsame => exact ⟨second, rfl, .inl hsame⟩
        next hother => exact ⟨second, rfl, .inr h⟩
    | _ => simp [sameWith, sameNumber, number?] at h
  · rintro ⟨second, rfl, hsame⟩
    by_cases heq : id = second
    · simp [sameWith, heq]
    · simp [sameWith, heq, hsame.resolve_left heq]

/-! ## An end -/

theorem exists_sameItems {as bs : List Value}
    (h : ∀ a ∈ as, ∀ b ∈ bs, ∃ answer, sameWith same a b = .ok answer) :
    ∃ answer, sameItems same as bs = .ok answer := by
  induction as generalizing bs with
  | nil => exact ⟨true, by simp [sameItems]⟩
  | cons a as ih =>
      cases bs with
      | nil => exact ⟨true, by simp [sameItems]⟩
      | cons b bs =>
          obtain ⟨answer, hanswer⟩ := h a List.mem_cons_self b List.mem_cons_self
          rw [sameItems, hanswer]
          cases answer with
          | false => exact ⟨false, rfl⟩
          | true =>
              exact ih fun a ha b hb =>
                h a (List.mem_cons_of_mem _ ha) b (List.mem_cons_of_mem _ hb)

theorem exists_sameMembers {as bs : List (String × Value)}
    (h : ∀ first ∈ as, ∀ second ∈ bs, ∃ answer, sameWith same first.2 second.2 = .ok answer) :
    ∃ answer, sameMembers same as bs = .ok answer := by
  induction as with
  | nil => exact ⟨true, by simp [sameMembers]⟩
  | cons entry rest ih =>
      obtain ⟨hentry, hrest⟩ := List.forall_mem_cons.mp h
      obtain ⟨key, a⟩ := entry
      rw [sameMembers]
      cases hfound : Entries.get? key bs with
      | none => exact ⟨false, rfl⟩
      | some b =>
          obtain ⟨answer, hanswer⟩ := hentry _ (Entries.mem_of_get? hfound)
          simp only at hanswer ⊢
          rw [hanswer]
          cases answer with
          | false => exact ⟨false, rfl⟩
          | true => exact ih hrest

/-- The comparison of values has an end where that of the instances among their parts has. -/
theorem exists_sameWith (h : ∀ first second, IsPart (.instance first) a →
      IsPart (.instance second) b → ∃ answer, same first second = .ok answer) :
    ∃ answer, sameWith same a b = .ok answer := by
  induction a using induction_parts generalizing b with
  | list items ih =>
      cases b with
      | list others =>
          obtain ⟨answer, hanswer⟩ := exists_sameItems fun item hitem second hsecond =>
            ih item hitem fun i j hi hj => h i j (.item hitem hi) (.item hsecond hj)
          rw [sameWith, hanswer]
          split <;> exact ⟨_, rfl⟩
      | _ => exact ⟨_, by rw [sameWith]; all_goals simp⟩
  | map members ih =>
      cases b with
      | map others =>
          obtain ⟨answer, hanswer⟩ := exists_sameMembers fun entry hentry second hsecond =>
            ih entry hentry fun i j hi hj => h i j (.member hentry hi) (.member hsecond hj)
          rw [sameWith, hanswer]
          split <;> exact ⟨_, rfl⟩
      | _ => exact ⟨_, by rw [sameWith]; all_goals simp⟩
  | «instance» id =>
      cases b with
      | «instance» second =>
          obtain ⟨answer, hanswer⟩ := h id second .self .self
          rw [sameWith, hanswer]
          split <;> exact ⟨_, rfl⟩
      | _ => exact ⟨_, by rw [sameWith]; all_goals simp⟩
  | key value hkey => exact ⟨_, sameWith_key hkey⟩

/-! ## Equal values -/

/-- A value stays equal to another where the instances among its parts stay equal. -/
theorem sameWith_mono (h : ∀ first second, IsPart (.instance first) a →
      IsPart (.instance second) b → same first second = .ok true → other first second = .ok true)
    (hsame : sameWith same a b = .ok true) : sameWith other a b = .ok true := by
  induction a using induction_parts generalizing b with
  | list items ih =>
      obtain ⟨others, rfl, hitems⟩ := sameWith_list.mp hsame
      refine sameWith_list.mpr ⟨others, rfl, forall₂_of_mem hitems ?_⟩
      intro item hitem second hsecond
      exact ih item hitem fun i j hi hj => h i j (.item hitem hi) (.item hsecond hj)
  | map members ih =>
      obtain ⟨others, rfl, hlength, hmembers⟩ := sameWith_map.mp hsame
      refine sameWith_map.mpr ⟨others, rfl, hlength, fun entry hentry => ?_⟩
      obtain ⟨held, hheld, hequal⟩ := hmembers entry hentry
      exact ⟨held, hheld, ih entry hentry (fun i j hi hj =>
        h i j (.member hentry hi) (.member (Entries.mem_of_get? hheld) hj)) hequal⟩
  | «instance» id =>
      obtain ⟨second, rfl, hequal⟩ := sameWith_instance.mp hsame
      exact sameWith_instance.mpr ⟨second, rfl, hequal.imp_right (h id second .self .self)⟩
  | key value hkey =>
      rw [sameWith_key hkey] at hsame ⊢
      exact hsame

theorem sameWith_self (hkeyed : IsKeyed a) (hnumbers : HasNumbers a) :
    sameWith same a a = .ok true := by
  induction a using induction_parts with
  | list items ih =>
      refine sameWith_list.mpr ⟨items, rfl, List.forall₂_same.mpr fun item hitem => ?_⟩
      exact ih item hitem (hkeyed.item hitem) (hnumbers.item hitem)
  | map members ih =>
      refine sameWith_map.mpr ⟨members, rfl, rfl, fun entry hentry => ?_⟩
      exact ⟨entry.2, Entries.get?_of_mem (hkeyed members .self) hentry,
        ih entry hentry (hkeyed.member hentry) (hnumbers.member hentry)⟩
  | «instance» id => exact sameWith_instance.mpr ⟨id, rfl, .inl rfl⟩
  | key value hkey => rw [sameWith_key hkey, sameKey_self hkey hnumbers]

/-- Among maps that have each key once, equality may be turned around: as many keys, and all of
one side found on the other, leave none out. -/
theorem sameWith_symm (h : ∀ first second, IsPart (.instance first) a →
      IsPart (.instance second) b → same first second = .ok true → same second first = .ok true)
    (ha : IsKeyed a) (hb : IsKeyed b) (hsame : sameWith same a b = .ok true) :
    sameWith same b a = .ok true := by
  induction a using induction_parts generalizing b with
  | list items ih =>
      obtain ⟨others, rfl, hitems⟩ := sameWith_list.mp hsame
      refine sameWith_list.mpr ⟨items, rfl, (forall₂_of_mem hitems ?_).flip⟩
      intro item hitem second hsecond
      exact ih item hitem (fun i j hi hj => h i j (.item hitem hi) (.item hsecond hj))
        (ha.item hitem) (hb.item hsecond)
  | map members ih =>
      obtain ⟨others, rfl, hlength, hmembers⟩ := sameWith_map.mp hsame
      refine sameWith_map.mpr ⟨members, rfl, hlength.symm, fun entry hentry => ?_⟩
      -- what is held on the right must be found on the left: keys come once, and none is left over
      have hrel := get?_of_sameWith_map hsame (ha members .self) entry.1
      rw [Entries.get?_of_mem (hb others .self) hentry] at hrel
      cases hfirst : Entries.get? entry.1 members with
      | none =>
          rw [hfirst] at hrel
          cases hrel
      | some value =>
          rw [hfirst] at hrel
          cases hrel with
          | some hequal =>
              have hmem := Entries.mem_of_get? hfirst
              exact ⟨value, rfl, ih _ hmem (fun i j hi hj => h i j (.member hmem hi)
                (.member hentry hj)) (ha.member hmem) (hb.member hentry) hequal⟩
  | «instance» id =>
      obtain ⟨second, rfl, hequal⟩ := sameWith_instance.mp hsame
      exact sameWith_instance.mpr ⟨id, rfl, hequal.imp Eq.symm (h id second .self .self)⟩
  | key value hkey =>
      rw [sameWith_key hkey, Except.ok.injEq] at hsame
      rw [sameWith_key (isKey_of_sameKey hsame), sameKey_symm hsame]

theorem sameWith_trans (h : ∀ first second third, same first second = .ok true →
      same second third = .ok true → same first third = .ok true)
    (hab : sameWith same a b = .ok true) (hbc : sameWith same b c = .ok true) :
    sameWith same a c = .ok true := by
  induction a using induction_parts generalizing b c with
  | list items ih =>
      obtain ⟨others, rfl, hitems⟩ := sameWith_list.mp hab
      obtain ⟨thirds, rfl, hothers⟩ := sameWith_list.mp hbc
      exact sameWith_list.mpr ⟨thirds, rfl, forall₂_chain hitems hothers
        fun item hitem second third hequal hagain => ih item hitem hequal hagain⟩
  | map members ih =>
      obtain ⟨others, rfl, hlength, hmembers⟩ := sameWith_map.mp hab
      obtain ⟨thirds, rfl, hlater, hothers⟩ := sameWith_map.mp hbc
      refine sameWith_map.mpr ⟨thirds, rfl, hlength.trans hlater, fun entry hentry => ?_⟩
      -- through the member of the same key in the middle
      obtain ⟨held, hheld, hequal⟩ := hmembers entry hentry
      obtain ⟨third, hthird, hagain⟩ := hothers _ (Entries.mem_of_get? hheld)
      exact ⟨third, hthird, ih entry hentry hequal hagain⟩
  | «instance» id =>
      obtain ⟨second, rfl, hequal⟩ := sameWith_instance.mp hab
      obtain ⟨third, rfl, hagain⟩ := sameWith_instance.mp hbc
      refine sameWith_instance.mpr ⟨third, rfl, ?_⟩
      rcases hequal with rfl | hequal
      · exact hagain
      · rcases hagain with rfl | hagain
        · exact .inr hequal
        · exact .inr (h id second third hequal hagain)
  | key value hkey =>
      rw [sameWith_key hkey, Except.ok.injEq] at hab ⊢
      rw [sameWith_key (isKey_of_sameKey hab), Except.ok.injEq] at hbc
      exact sameKey_trans hab hbc

/-- A map is equal to one with the same members in another order. -/
theorem sameWith_of_perm {members others : List (String × Value)} (hperm : members.Perm others)
    (hkeyed : IsKeyed (.map others)) (hnumbers : HasNumbers (.map others)) :
    sameWith same (.map members) (.map others) = .ok true := by
  refine sameWith_map.mpr ⟨others, rfl, hperm.length_eq, fun entry hentry => ?_⟩
  have hmem := hperm.mem_iff.mp hentry
  exact ⟨entry.2, Entries.get?_of_mem (hkeyed others .self) hmem,
    sameWith_self (hkeyed.member hmem) (hnumbers.member hmem)⟩

end Value

/-! ## Decoded values -/

namespace Json

theorem itemsKeyed_iff {items : List Json} :
    itemsKeyed items = true ↔ ∀ item ∈ items, item.isKeyed = true := by
  induction items with
  | nil => simp [itemsKeyed]
  | cons item rest ih => rw [itemsKeyed, Bool.and_eq_true, ih, List.forall_mem_cons]

theorem membersKeyed_iff {members : List (String × Json)} :
    membersKeyed members = true ↔ ∀ entry ∈ members, entry.2.isKeyed = true := by
  induction members with
  | nil => simp [membersKeyed]
  | cons entry rest ih => rw [membersKeyed, Bool.and_eq_true, ih, List.forall_mem_cons]

theorem exists_of_isPart {part : Value} {value : Json} (h : part.IsPart (.ofJson value)) :
    ∃ decoded, part = .ofJson decoded ∧ (value.isKeyed = true → decoded.isKeyed = true) ∧
      (value.isFinite = true → decoded.isFinite = true) := by
  generalize hwhole : Value.ofJson value = whole at h
  induction h generalizing value with
  | self => exact ⟨value, hwhole.symm, id, id⟩
  | item hmem _ ih =>
      cases value with
      | arr items =>
          rw [Value.ofJson, ofItems_eq] at hwhole
          obtain rfl := Value.list.inj hwhole
          obtain ⟨item, hitem, hvalue⟩ := List.mem_map.mp hmem
          obtain ⟨decoded, hpart, hkeyed, hfinite⟩ := ih hvalue
          rw [isKeyed, itemsKeyed_iff, isFinite, itemsFinite_iff]
          exact ⟨decoded, hpart, fun h => hkeyed (h item hitem), fun h => hfinite (h item hitem)⟩
      | _ => simp [Value.ofJson] at hwhole
  | member hmem _ ih =>
      cases value with
      | obj members =>
          rw [Value.ofJson, ofMembers_eq] at hwhole
          obtain rfl := Value.map.inj hwhole
          obtain ⟨entry, hentry, rfl⟩ := List.mem_map.mp hmem
          obtain ⟨decoded, hpart, hkeyed, hfinite⟩ := ih rfl
          rw [isKeyed, Bool.and_eq_true, membersKeyed_iff, isFinite, membersFinite_iff]
          exact ⟨decoded, hpart, fun h => hkeyed (h.2 entry hentry),
            fun h => hfinite (h entry hentry)⟩
      | _ => simp [Value.ofJson] at hwhole

theorem isKeyed_ofJson {value : Json} (h : value.isKeyed = true) :
    Value.IsKeyed (.ofJson value) := by
  intro members hpart
  obtain ⟨decoded, hmembers, hkeyed, -⟩ := exists_of_isPart hpart
  cases decoded with
  | obj entries =>
      rw [Value.ofJson, ofMembers_eq] at hmembers
      obtain rfl := Value.map.inj hmembers
      have hkeys := hkeyed h
      rw [isKeyed, Bool.and_eq_true, decide_eq_true_iff] at hkeys
      simpa [Entries.keys, Function.comp_def] using hkeys.1
  | _ => simp [Value.ofJson] at hmembers

theorem hasNumbers_ofJson {value : Json} (h : value.isFinite = true) :
    Value.HasNumbers (.ofJson value) := by
  intro hpart
  obtain ⟨decoded, hnan, -, hfinite⟩ := exists_of_isPart hpart
  cases decoded with
  | float number =>
      rw [Value.ofJson] at hnan
      obtain rfl := Value.float.inj hnan
      have hnumber := hfinite h
      simp [isFinite, Binary64.isFinite] at hnumber
  | _ => simp [Value.ofJson] at hnan

/-! ### Comparisons with decoded values -/

section Decoded

variable {first second : Nat → Nat → Except Fault Bool}

theorem not_isPart_instance {id : Nat} (decoded : Json) :
    ¬ (Value.instance id).IsPart (.ofJson decoded) := by
  intro hpart
  obtain ⟨part, hinstance, -⟩ := exists_of_isPart hpart
  cases part <;> simp [Value.ofJson] at hinstance

theorem exists_sameWith_ofJson (value : Value) (decoded : Json) :
    ∃ same, value.sameWith first (.ofJson decoded) = .ok same :=
  Value.exists_sameWith fun _ _ _ hpart => absurd hpart (not_isPart_instance decoded)

/-- A comparison with a decoded value never compares two instances. -/
theorem sameWith_ofJson (value : Value) (decoded : Json) :
    value.sameWith first (.ofJson decoded) = value.sameWith second (.ofJson decoded) := by
  have hmono : ∀ {f g : Nat → Nat → Except Fault Bool},
      value.sameWith f (.ofJson decoded) = .ok true → value.sameWith g (.ofJson decoded) = .ok true :=
    Value.sameWith_mono fun _ _ _ hpart => absurd hpart (not_isPart_instance decoded)
  obtain ⟨same, hsame⟩ := @exists_sameWith_ofJson first value decoded
  obtain ⟨other, hother⟩ := @exists_sameWith_ofJson second value decoded
  cases same with
  | true => rw [hsame, hmono hsame]
  | false =>
      cases other with
      | true => rw [hmono hother, hother]
      | false => rw [hsame, hother]

end Decoded

variable {a b c : Json}

theorem alike_iff : a.alike b = true ↔
    Value.sameWith (fun _ _ => .ok true) (.ofJson a) (.ofJson b) = .ok true := by
  rw [sameWith_ofJson_eq, Except.ok.injEq]

theorem alike_self {value : Json} (hkeyed : value.isKeyed = true) (hfinite : value.isFinite = true) :
    value.alike value = true :=
  alike_iff.mpr (Value.sameWith_self (isKeyed_ofJson hkeyed) (hasNumbers_ofJson hfinite))

theorem alike_symm (ha : a.isKeyed = true) (hb : b.isKeyed = true) (h : a.alike b = true) :
    b.alike a = true :=
  alike_iff.mpr (Value.sameWith_symm (fun _ _ _ _ _ => rfl) (isKeyed_ofJson ha) (isKeyed_ofJson hb)
    (alike_iff.mp h))

theorem alike_trans (hab : a.alike b = true) (hbc : b.alike c = true) : a.alike c = true :=
  alike_iff.mpr (Value.sameWith_trans (fun _ _ _ _ _ => rfl) (alike_iff.mp hab) (alike_iff.mp hbc))

end Json

end ModelMint
