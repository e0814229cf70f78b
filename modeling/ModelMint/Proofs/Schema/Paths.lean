import ModelMint.Proofs.Blueprint.Shared
import ModelMint.Proofs.Schema.Rewriting

/-!
# Pointers made from paths

The keys on the way to a place in a document make a pointer, and from the pointer the same
keys come back, whatever characters they have.  Following it ends at the place, or names the
first key that is missing, and it does so with a resolver that was asked anything before.
-/

namespace ModelMint.Schema

namespace Pointer

/-! ## Escaped keys -/

/-- A key with its tildes still escaped. -/
def escapeTildes (key : List Char) : List Char :=
  key.flatMap fun c => if c == '~' then ['~', '0'] else [c]

theorem unescapeSlashes_escape (key : List Char) :
    unescapeSlashes (escape key) = escapeTildes key := by
  induction key with
  | nil => rfl
  | cons c rest ih =>
      change unescapeSlashes (escapeChar c ++ escape rest) = _ ++ escapeTildes rest
      rw [← ih]
      by_cases htilde : c = '~'
      · subst htilde
        simp [escapeChar, unescapeSlashes]
      · by_cases hslash : c = '/'
        · subst hslash
          simp [escapeChar, unescapeSlashes]
        · simp [escapeChar, unescapeSlashes, htilde, hslash]

theorem unescapeTildes_escapeTildes (key : List Char) :
    unescapeTildes (escapeTildes key) = key := by
  induction key with
  | nil => rfl
  | cons c rest ih =>
      change unescapeTildes (_ ++ escapeTildes rest) = c :: rest
      by_cases htilde : c = '~'
      · subst htilde
        simp [unescapeTildes, ih]
      · simp [unescapeTildes, htilde, ih]

theorem unescape_escape (key : List Char) : unescape (escape key) = key := by
  rw [unescape, unescapeSlashes_escape, unescapeTildes_escapeTildes]

theorem slash_not_mem_escape (key : List Char) : '/' ∉ escape key := by
  intro hmem
  obtain ⟨c, -, hc⟩ := List.mem_flatMap.mp hmem
  unfold escapeChar at hc
  split at hc
  · simp at hc
  · split at hc
    · simp at hc
    next hslash => exact hslash (by simpa using (List.mem_singleton.mp hc).symm)

/-! ## Keys of a pointer -/

theorem parts_path {first : List Char} (h : '/' ∉ first) (path : List String) :
    Text.parts '/' (first ++ path.flatMap fun key => '/' :: escape key.toList) =
      first :: path.map fun key => escape key.toList := by
  induction path generalizing first with
  | nil => simpa using Text.parts_of_not_mem h
  | cons key rest ih =>
      rw [List.flatMap_cons, List.cons_append, Text.parts_append h, ih (slash_not_mem_escape _),
        List.map_cons]

theorem keys_ofKeys (path : List String) : keys (ofKeys path) = path := by
  have hroot : '/' ∉ ['#'] := by decide
  have hparts : Text.parts '/' ('#' :: path.flatMap fun key => '/' :: escape key.toList) =
      ['#'] :: path.map fun key => escape key.toList := parts_path hroot path
  unfold keys ofKeys
  rw [String.toList_ofList, hparts]
  rw [dropRoot, List.map_map]
  refine (List.map_congr_left fun key _ => ?_).trans (List.map_id path)
  simp only [Function.comp, unescape_escape, String.ofList_toList, id]

end Pointer

/-! ## Places -/

/-- The place at the end of a path through objects. -/
inductive Leads : Json → List String → Json → Prop
  | here (value : Json) : Leads value [] value
  | through {members : List (String × Json)} {key : String} {next value : Json}
      {rest : List String} (hkey : Entries.get? key members = some next)
      (hrest : Leads next rest value) : Leads (.obj members) (key :: rest) value

/-- Where a path ends too early: at a key that its object does not have, or that is looked for in
what is no object. -/
inductive Breaks : Json → List String → String → Prop
  | absent {members : List (String × Json)} {key : String} {rest : List String}
      (hkey : key ∉ Entries.keys members) : Breaks (.obj members) (key :: rest) key
  | noObject {value : Json} {key : String} {rest : List String} (hvalue : value.isObject = false) :
      Breaks value (key :: rest) key
  | through {members : List (String × Json)} {key missing : String} {next : Json}
      {rest : List String} (hkey : Entries.get? key members = some next)
      (hrest : Breaks next rest missing) : Breaks (.obj members) (key :: rest) missing

theorem leads_of_follow {value found : Json} {path : List String}
    (h : Pointer.follow value path = .ok found) : Leads value path found := by
  induction path generalizing value with
  | nil =>
      cases h
      exact .here _
  | cons key rest ih =>
      rw [Pointer.follow] at h
      split at h
      next next hnext =>
        cases value with
        | obj members => exact .through hnext (ih h)
        | _ => cases hnext
      · cases h

theorem breaks_of_follow {value : Json} {missing : String} {path : List String}
    (h : Pointer.follow value path = .error missing) : Breaks value path missing := by
  induction path generalizing value with
  | nil => cases h
  | cons key rest ih =>
      rw [Pointer.follow] at h
      cases value with
      | obj members =>
          rw [Json.get?] at h
          split at h
          next next hnext => exact .through hnext (ih h)
          next hnone =>
            cases h
            exact .absent (Entries.get?_eq_none_iff.mp hnone)
      | _ =>
          cases h
          exact .noObject rfl

theorem Leads.follow {value found : Json} {path : List String} (h : Leads value path found) :
    Pointer.follow value path = .ok found := by
  induction h with
  | here value => rfl
  | through hkey _ ih =>
      rw [Pointer.follow, Json.get?, hkey]
      exact ih

theorem Breaks.follow {value : Json} {missing : String} {path : List String}
    (h : Breaks value path missing) : Pointer.follow value path = .error missing := by
  induction h with
  | absent hkey => rw [Pointer.follow, Json.get?, Entries.get?_eq_none_iff.mpr hkey]
  | @noObject value key rest hvalue =>
      cases value with
      | obj members => cases hvalue
      | _ => rfl
  | through hkey _ ih =>
      rw [Pointer.follow, Json.get?, hkey]
      exact ih

/-! ## Resolving -/

/-- The resolver after it was asked for the pointers. -/
def Resolver.after (resolver : Resolver) (pointers : List String) : Resolver :=
  pointers.foldl (fun resolver pointer => (resolver.resolve pointer).2) resolver

section Resolving

open Blueprint.Shared

variable {root : Json}

theorem sound_after {resolver : Resolver} (h : Sound root resolver) (pointers : List String) :
    Sound root (resolver.after pointers) := by
  induction pointers generalizing resolver with
  | nil => exact h
  | cons pointer rest ih => exact ih (h.resolve pointer).2

theorem resolve_ofKeys (root : Json) (path : List String) {last : String} (h : last ≠ "") :
    resolve root (Pointer.ofKeys (path ++ [last])) =
      match Pointer.follow root (path ++ [last]) with
      | .ok body => .ok ⟨last, body⟩
      | .error key =>
        .error { cause := .unresolved (Pointer.ofKeys (path ++ [last])) (some key) none } := by
  unfold resolve
  rw [Pointer.keys_ofKeys]
  dsimp only
  rw [List.getLast?_concat]
  split
  next heq => cases heq
  next heq => exact absurd (Option.some.inj heq) h
  next heq =>
    cases heq
    rfl

/-- The keys of a path come back from its pointer, and they are followed to the place under the name
of the last key, or to the first one that is missing.  Whatever the resolver was asked before, it
answers as if it were new, now and again. -/
theorem resolver_follows_paths (root : Json) (pointers path : List String) {last : String}
    (hlast : last ≠ "") :
    (∀ resolved, ((Resolver.after { root } pointers).resolve
        (Pointer.ofKeys (path ++ [last]))).1 = .ok resolved ↔
      resolved.name = last ∧ Leads root (path ++ [last]) resolved.body) ∧
    (∀ failure, ((Resolver.after { root } pointers).resolve
        (Pointer.ofKeys (path ++ [last]))).1 = .error failure ↔
      ∃ missing, Breaks root (path ++ [last]) missing ∧
        failure = { cause := .unresolved (Pointer.ofKeys (path ++ [last])) (some missing) none }) ∧
    ∀ pointer, ((Resolver.after { root } pointers).resolve pointer).1 =
        (Resolver.resolve { root } pointer).1 ∧
      (((Resolver.after { root } pointers).resolve pointer).2.resolve pointer).1 =
        ((Resolver.after { root } pointers).resolve pointer).1 := by
  have hsound : Sound root (Resolver.after { root } pointers) :=
    sound_after (sound_new root) pointers
  have hfollow := resolve_ofKeys root path hlast
  refine ⟨fun resolved => ?_, fun failure => ?_, fun pointer => ?_⟩
  · rw [(hsound.resolve _).1, hfollow]
    constructor
    · intro h
      split at h
      next body hbody =>
        cases h
        exact ⟨rfl, leads_of_follow hbody⟩
      · cases h
    · rintro ⟨rfl, hleads⟩
      rw [hleads.follow]
  · rw [(hsound.resolve _).1, hfollow]
    constructor
    · intro h
      split at h
      · cases h
      next key hkey =>
        cases h
        exact ⟨key, breaks_of_follow hkey, rfl⟩
    · rintro ⟨missing, hbreaks, rfl⟩
      rw [hbreaks.follow]
  · obtain ⟨hanswer, hafter⟩ := hsound.resolve pointer
    refine ⟨hanswer.trans ((sound_new root).resolve pointer).1.symm, ?_⟩
    rw [(hafter.resolve pointer).1, hanswer]

def rates : Json := .obj [("", .obj [("#", .obj [("a/~1", .int 5)])])]

theorem resolver_follows_paths_rates : "a/~1" ≠ "" ∧
    ((Resolver.after { root := rates } ["#/a", "#//#"]).resolve "#//#/a~1~01").1 =
      .ok ⟨"a/~1", .int 5⟩ ∧
    ((Resolver.after { root := rates } ["#/a", "#//#"]).resolve "#//a~1/a~1~01").1 =
      .error { cause := .unresolved "#//a~1/a~1~01" (some "a/") none } := by
  have hlast : "a/~1" ≠ "" := by decide
  have hfound : Pointer.ofKeys (["", "#"] ++ ["a/~1"]) = "#//#/a~1~01" := by decide
  have hmissing : Pointer.ofKeys (["", "a/"] ++ ["a/~1"]) = "#//a~1/a~1~01" := by decide
  refine ⟨hlast, ?_, ?_⟩
  · rw [← hfound]
    exact ((resolver_follows_paths rates ["#/a", "#//#"] ["", "#"] hlast).1 _).mpr
      ⟨rfl, .through rfl (.through rfl (.through rfl (.here _)))⟩
  · rw [← hmissing]
    exact ((resolver_follows_paths rates ["#/a", "#//#"] ["", "a/"] hlast).2.1 _).mpr
      ⟨"a/", .through rfl (.absent (by decide)), rfl⟩

end Resolving

end ModelMint.Schema
