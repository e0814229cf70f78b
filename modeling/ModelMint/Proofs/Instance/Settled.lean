import ModelMint.Proofs.Instance.Listed

/-!
# Fields hold what their setters take

A setter stores the value that it was given, or the moment that the value is the text of.
No rule stands before the one for moments, and those behind it have seen the moment.  So
what a field holds after its setter returned is taken once more, and nothing changes.
-/

namespace ModelMint

open ModelMint.Emit
open ModelMint.Blueprint
open ModelMint.Schema

/-! ## Storing what is there -/

theorem Entries.insert_eq_self {α β : Type} [DecidableEq α] {key : α} {value : β}
    {entries : List (α × β)} (h : Entries.get? key entries = some value) :
    Entries.insert key value entries = entries := by
  induction entries with
  | nil => cases h
  | cons entry rest ih =>
      obtain ⟨other, old⟩ := entry
      rw [Entries.get?] at h
      rw [Entries.insert]
      split at h
      next hkey =>
        cases h
        rw [if_pos hkey]
      next hkey => rw [if_neg hkey, ih h]

theorem Store.put_eq_self {store : Store} {id : Nat} {attr : String} {value : Value}
    (h : store.attribute? id attr = some value) : store.put id attr value = store := by
  have hitem : ∀ item, store.instances[id]? = some item → Instance.put item attr value = item := by
    intro item hget
    have hattribute : Entries.get? attr item.attributes = some value := by
      simpa [Store.attribute?, Store.attributes, Store.get?, hget] using h
    rw [Instance.put, Entries.insert_eq_self hattribute]
  unfold Store.put
  congr 1
  apply List.ext_getElem?
  intro other
  rw [List.getElem?_modify]
  by_cases hsame : id = other
  · subst hsame
    cases hget : store.instances[id]? with
    | none => rfl
    | some item => simp [hitem item hget]
  · cases store.instances[other]? <;> simp [hsame]

/-! ## Verdicts on what was taken -/

section Verdicts

variable {document : Document} {required : List String} {property : Property}
  {member : Blueprint.Member} {scene : Scene} {className : String} {value taken : Value}

/-- Where moments are held, neither elements nor numbers are checked. -/
theorem rules_of_isMoment (hplanned : MemberPlanned document required property member)
    (hmoment : member.field.isMoment = true) :
    member.rules = .moment :: valueRules property := by
  obtain ⟨storage, elements, hstorage, helements, hrules⟩ := rulesOf_eq_ok hplanned.rules
  obtain rfl : member.field.storage = storage :=
    Except.ok.inj (hplanned.field.storage.symm.trans hstorage)
  have hstored : member.field.storage = some TypeName.moment := by
    simpa [Blueprint.Field.isMoment] using hmoment
  have hlist : TypeName.moment ≠ TypeName.list := by decide
  have hint : TypeName.moment ≠ TypeName.int := by decide
  have hfloat : TypeName.moment ≠ TypeName.float := by decide
  have hnone : elements = [] := by
    rcases elementRules_eq_ok helements with hnone | ⟨-, harray, -⟩
    · exact hnone
    · rw [hstorage, hstored] at harray
      exact absurd (Option.some.inj (Except.ok.inj harray)) hlist
  rw [hrules, hnone, otherRules, hstored]
  simp [lengthRules, boundRules, momentRules, hlist, hint, hfloat]

/-- What a setter takes it takes again, as it is. -/
theorem verdict_settled (hplanned : MemberPlanned document required property member)
    (h : member.verdict scene className value = .ok taken) :
    member.verdict scene className taken = .ok taken := by
  obtain ⟨hstored, hparsed⟩ := verdict_eq_stored hplanned h
  cases hmoment : member.field.isMoment with
  | false =>
      obtain rfl : taken = value := by simpa [Blueprint.Field.stored, hmoment] using hstored
      exact h
  | true =>
      obtain ⟨moment, hfound⟩ := Option.isSome_iff_exists.mp (hparsed hmoment)
      obtain rfl : taken = .moment moment := by
        simpa [Blueprint.Field.stored, hmoment, hfound] using hstored
      have hparse : ∀ given : Value, given.moment? = some moment →
          Rule.moment.judge scene className (standardSetter member) given =
            .ok (.moment moment) :=
        fun given hgiven => parseMoment_eq_ok.mpr (by rw [hgiven]; rfl)
      obtain ⟨himport, hself, hjudged⟩ := verdict_eq_ok_iff.mp h
      refine verdict_eq_ok_iff.mpr ⟨himport, hself, ?_⟩
      rw [rules_of_isMoment hplanned hmoment, List.foldlM_cons, hparse value hfound] at hjudged
      rw [rules_of_isMoment hplanned hmoment, List.foldlM_cons, hparse (.moment moment) rfl]
      exact hjudged

end Verdicts

/-! ## Setters after setters -/

section Setters

variable {library : Library} {item : LoadedClass} {plan : Plan} {store after : Store} {id : Nat}
  {value reply : Value}

/-- Of a setter that returned, the getter gives what the setter takes again without a change. -/
theorem Sound.assign_settled (hclass : Sound library item plan)
    (hlive : Live library item store id) {member : Blueprint.Member}
    (hmember : member ∈ plan.members)
    (h : Instance.assign library id member.field.attr value store = (after, .ok reply)) :
    ∃ held, Instance.read library id member.field.attr after = (after, .ok held) ∧
      Instance.assign library id member.field.attr held after = (after, .ok (.instance id)) := by
  rw [assign_eq hclass.standard hclass.opened hlive hmember] at h
  split at h
  next taken hverdict =>
    cases h
    obtain ⟨document, required, property, hplanned⟩ := hclass.planned member hmember
    have hafter : Live library item (store.put id member.field.attr taken) id :=
      hlive.put (hclass.standard.field_mem hmember) taken
    have hheld := Store.attribute?_put_self store id member.field.attr taken hlive.inside
    have hclasses : SameClasses store (store.put id member.field.attr taken) := fun other =>
      (Store.classOf_put store id member.field.attr taken other).symm
    -- the verdict looks at the classes of instances only, and these are the same as before
    have hagain := verdict_congr hclasses (hclass.sound member hmember)
      (verdict_settled hplanned hverdict)
    rw [hclasses id] at hagain
    refine ⟨taken, ?_, ?_⟩
    · rw [read_eq hclass.standard hclass.opened hafter hmember, hheld]
    · rw [assign_eq hclass.standard hclass.opened hafter hmember, hagain]
      simp only [Store.put_eq_self hheld]
  · cases h

end Setters

/-- In every state of an instance of a generated class none of whose constants is named like a
member of the base: when a setter has returned, its field can be read, and setting it to what was
read returns too and leaves everything as it is. -/
theorem taken_values_taken_again {settings : Settings} {comment schema : Json} {run : Package.Run}
    (hrun : Package.generate settings comment schema = .ok run) (hbase : settings.base = {})
    {module : ClassModule} (hmodule : module ∈ run.package.modules)
    (hconstants : ∀ constant ∈ module.constants, baseMember? constant.name = none)
    {item : LoadedClass} (hload : LoadedClass.load module = .ok item) {library : Library}
    (hfind : library.find? module.name = some item) {id : Nat} {store : Store}
    (hreachable : Reachable library item module.name id store) {field : FieldCode}
    (hfield : field ∈ item.fields) {value reply : Value} {after : Store}
    (hset : Instance.assign library id field.attr value store = (after, .ok reply)) :
    ∃ held, Instance.read library id field.attr after = (after, .ok held) ∧
      Instance.assign library id field.attr held after = (after, .ok (.instance id)) := by
  obtain ⟨document, definition, plan, horigin⟩ := Package.exists_origin hrun hmodule
  have hclass := sound_of_origin horigin hbase hload hconstants library
  obtain ⟨member, hmember, rfl⟩ := hclass.standard.member_of_field hfield
  have hlive := (hreachable.accounted hclass.standard hfind).live
  exact hclass.assign_settled hlive hmember hset

/-- The stay of three nights after the text of its arrival was given. -/
def arrivedStore : Store :=
  (Instance.assign [("Stay", stayClass)] 0 "since" (.text sinceText) stayStore).1

theorem taken_values_taken_again_since :
    Reachable [("Stay", stayClass)] stayClass "Stay" 0 stayStore ∧
      Instance.assign [("Stay", stayClass)] 0 "since" (.text sinceText) stayStore =
        (arrivedStore, .ok (.instance 0)) ∧
      (∃ moment, arrivedStore.attribute? 0 "since" = some (.moment moment)) ∧
      ∃ held, Instance.read [("Stay", stayClass)] 0 "since" arrivedStore =
          (arrivedStore, .ok held) ∧
        Instance.assign [("Stay", stayClass)] 0 "since" held arrivedStore =
          (arrivedStore, .ok (.instance 0)) := by
  have hrun : Package.generate Package.uncheckedSettings .null staySchema = .ok stayRun := rfl
  have hmodule : stayModule ∈ stayRun.package.modules := List.get_mem _ _
  have hconstants : stayModule.constants = [] := rfl
  have hload : LoadedClass.load stayModule = .ok stayClass := rfl
  have hfind : Library.find? [("Stay", stayClass)] stayModule.name = some stayClass := rfl
  have hmake : Instance.make [("Stay", stayClass)] "Stay" [("nights", .int 3)] {} =
      (stayStore, .ok 0) := by
    with_unfolding_all rfl
  have hreachable : Reachable [("Stay", stayClass)] stayClass "Stay" 0 stayStore := .made hmake
  have hset : Instance.assign [("Stay", stayClass)] 0 "since" (.text sinceText) stayStore =
      (arrivedStore, .ok (.instance 0)) := by
    with_unfolding_all rfl
  have hmoment : ∃ moment, arrivedStore.attribute? 0 "since" = some (.moment moment) :=
    ⟨_, by with_unfolding_all rfl⟩
  have hfields : stayClass.fields.map FieldCode.attr = ["nights", "since"] := rfl
  have hsince : "since" ∈ stayClass.fields.map FieldCode.attr := by simp [hfields]
  obtain ⟨field, hfield, hattr⟩ := List.mem_map.mp hsince
  have hagain := taken_values_taken_again hrun rfl hmodule (by simp [hconstants]) hload hfind
    hreachable hfield (hattr.symm ▸ hset)
  rw [hattr] at hagain
  exact ⟨hreachable, hset, hmoment, hagain⟩

end ModelMint
