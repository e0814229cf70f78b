import ModelMint.Delivery
import ModelMint.Proofs.Disk.Frame
import ModelMint.Proofs.Json.Complete
import ModelMint.Proofs.Schema.Reading

/-!
# Loading schema files

A file that holds no schema is reported, whatever it holds or even if it is missing, and
nothing else is done.  Three things are not reported but end the program: a path that is
none, bytes that are no text, and a number with too many digits.
-/

namespace ModelMint

open ModelMint.Schema

variable {settings : Settings} {heading : Option Json} {schemaPath output : String} {disk : Disk}
  {path : Path} {content : ByteArray} {schema : Json} {text : String} {fault : Fault}

/-! ## Reading -/

theorem Disk.follow_ne_nulCharacter (disk : Disk) (place : Place) (names : List String) :
    disk.follow place names ≠ .error .nulCharacter := by
  induction names generalizing place with
  | nil => nofun
  | cons name rest ih =>
      unfold follow
      split
      · nofun
      · nofun
      · split
        · nofun
        · exact ih _

theorem Disk.read_eq_nulCharacter_iff (disk : Disk) :
    disk.read path = .error .nulCharacter ↔ path.holdsNul = true := by
  cases hnul : path.holdsNul with
  | true => simp [read, look, find, hnul]
  | false =>
      have hfollow :=
        disk.follow_ne_nulCharacter (if path.fromRoot then [] else disk.here) path.names
      unfold read look
      rw [find_eq_follow disk hnul]
      generalize disk.follow (if path.fromRoot then [] else disk.here) path.names = found at hfollow
      cases found with
      | error fault => simpa using hfollow
      | ok place =>
          cases hentry : disk.get? place with
          | none => simp [hentry]
          | some entry => cases entry <;> simp [hentry]

theorem Disk.decode_eq_ok : Disk.decode content = .ok text ↔ content = text.toUTF8 := by
  unfold Disk.decode String.fromUTF8?
  split
  next found hfound =>
    split at hfound
    next hvalid =>
      cases hfound
      rw [Except.ok.injEq, ← String.toByteArray_inj]
      rfl
    · cases hfound
  next hnone =>
    split at hnone
    · cases hnone
    next hinvalid =>
      constructor
      · rintro ⟨⟩
      · rintro rfl
        exact absurd text.isValidUTF8 hinvalid

theorem Disk.decode_eq_error (h : Disk.decode content = .error fault) :
    ∀ text : String, content ≠ text.toUTF8 := by
  intro text htext
  rw [Disk.decode_eq_ok.mpr htext] at h
  cases h

/-! ## Schema files -/

/-- The bytes are those of a text that spells the document. -/
def Spelled (content : ByteArray) (schema : Json) : Prop :=
  ∃ text : String, content = text.toUTF8 ∧ Json.SpellsDocument text.toList schema

/-- There is a file, and in it a document with definitions. -/
def HoldsSchema (disk : Disk) (path : Path) : Prop :=
  ∃ content schema definitions, disk.read path = .ok content ∧ Spelled content schema ∧
    schema.get? "definitions" = some (.obj definitions)

/-- The path can be one, and what is there, if anything, can be read up to its end or to the first
mistake. -/
def Legible (disk : Disk) (path : Path) : Prop :=
  path.holdsNul = false ∧ ∀ content, disk.read path = .ok content →
    ∃ text : String, content = text.toUTF8 ∧ Json.read text.toList ≠ .error .tooManyDigits

theorem loadSchema_eq_loaded_iff :
    loadSchema disk path = .loaded schema ↔
      ∃ content, disk.read path = .ok content ∧ Spelled content schema ∧ Legible disk path := by
  constructor
  · intro h
    unfold loadSchema at h
    split at h
    · cases h
    · cases h
    next content hread =>
      split at h
      · cases h
      next text hdecode =>
        split at h
        next document hdocument =>
          cases h
          obtain rfl := Disk.decode_eq_ok.mp hdecode
          obtain ⟨hspells, hdigits⟩ := Json.read_eq_ok_iff.mp hdocument
          have hnul : path.holdsNul = false := by
            rw [← Bool.not_eq_true, ← Disk.read_eq_nulCharacter_iff disk, hread]
            nofun
          refine ⟨_, hread, ⟨text, rfl, hspells⟩, hnul, fun other hother => ?_⟩
          rw [hread] at hother
          cases hother
          exact ⟨text, rfl, hdigits⟩
        · cases h
        · cases h
  · rintro ⟨content, hread, ⟨text, rfl, hspells⟩, -, hlegible⟩
    obtain ⟨other, hother, hdigits⟩ := hlegible _ hread
    rw [← Disk.decode_eq_ok, Disk.decode_eq_ok.mpr rfl, Except.ok.injEq] at hother
    subst hother
    unfold loadSchema
    simp only [hread, Disk.decode_eq_ok.mpr rfl, Json.read_eq_ok_iff.mpr ⟨hspells, hdigits⟩]

theorem exists_broken_iff :
    (∃ fault, loadSchema disk path = .broken fault) ↔ ¬ Legible disk path := by
  unfold loadSchema Legible
  rw [← Bool.not_eq_true, ← Disk.read_eq_nulCharacter_iff disk]
  split
  next hread => simp [hread]
  next fault hnul hread =>
    have hother : fault ≠ .nulCharacter := hnul
    simp [hread, hother]
  next content hread =>
    simp only [hread, reduceCtorEq, not_false_eq_true, Except.ok.injEq, true_and, forall_eq']
    cases hdecode : Disk.decode content with
    | error fault =>
        refine ⟨fun _ ⟨text, htext, _⟩ => ?_, fun _ => ⟨fault, rfl⟩⟩
        exact Disk.decode_eq_error hdecode text htext
    | ok text =>
        have honly : ∀ other : String, content = other.toUTF8 ↔ text = other := by
          intro other
          rw [← Disk.decode_eq_ok, hdecode, Except.ok.injEq]
        simp only [honly, exists_eq_left']
        cases hdocument : Json.read text.toList with
        | ok document => simp
        | error problem => cases problem <;> simp

/-! ## What comes of a file -/

/-- An error is reported, and nothing else is done. -/
structure Reports (disk : Disk) (outcome : Outcome) : Prop where
  disk : outcome.disk = disk
  status : outcome.status = .ok 1
  error : ∃ notice ∈ outcome.notices, notice.level = .error

theorem reports_deliverDocument
    (h : ∀ definitions, schema.get? "definitions" ≠ some (.obj definitions)) (heading : Json) :
    Reports disk (deliverDocument settings heading schema output disk) := by
  unfold deliverDocument Package.generate
  cases hread : Document.read schema with
  | ok document =>
      obtain ⟨-, members, definitions, rfl, hdefinitions, -⟩ := read_eq_ok hread
      exact absurd hdefinitions (h definitions)
  | error failure => exact ⟨rfl, rfl, _, List.mem_singleton.mpr rfl, rfl⟩

theorem reports_deliver (h : ¬ HoldsSchema disk (Path.readAsGiven schemaPath))
    (hlegible : Legible disk (Path.readAsGiven schemaPath)) :
    Reports disk (deliver settings heading schemaPath output disk) := by
  unfold deliver
  cases hload : loadSchema disk (Path.readAsGiven schemaPath) with
  | broken fault => exact absurd hlegible (exists_broken_iff.mp ⟨fault, hload⟩)
  | unreadable => exact ⟨rfl, rfl, _, List.mem_singleton.mpr rfl, rfl⟩
  | loaded schema =>
      obtain ⟨content, hread, hspelled, -⟩ := loadSchema_eq_loaded_iff.mp hload
      refine reports_deliverDocument (fun definitions hdefinitions => ?_) _
      exact h ⟨content, schema, definitions, hread, hspelled, hdefinitions⟩

/-- Texts without long rows of digits can be read up to their end. -/
theorem legible_of_short (hpath : path.holdsNul = false)
    (h : ∀ content, disk.read path = .ok content →
      ∃ text : String, content = text.toUTF8 ∧ ¬ Json.HasLongRow text.toList) :
    Legible disk path := by
  refine ⟨hpath, fun content hread => ?_⟩
  obtain ⟨text, htext, hshort⟩ := h content hread
  exact ⟨text, htext, fun hdigits => hshort (Json.hasLongRow_of_read hdigits)⟩

/-- A byte that no text has. -/
def strayByte : Disk := ⟨[], [(["schema.json"], .file ⟨#[0xFF]⟩)]⟩

end ModelMint
