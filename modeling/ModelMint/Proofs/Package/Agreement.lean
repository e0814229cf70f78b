import ModelMint.Proofs.Blueprint.Reordering
import ModelMint.Proofs.Package.Origin
import ModelMint.Proofs.Schema.Agreement

/-!
# Runs over schemas that agree

A run asks a schema for the interpreted keywords, and follows its references through the
schema itself.  As long as these go straight to a definition, schemas that agree in the
interpreted keywords make the same run.
-/

namespace ModelMint.Package

open ModelMint.Schema
open ModelMint.Blueprint

variable {settings : Settings} {comment heading schema other : Json} {document next : Document}

/-- Every reference of a definition that is read goes straight to a definition. -/
def RefersDirectly (document : Document) : Prop :=
  ∀ name definition, Entries.get? name document.entries = some (.ok definition) →
    ∀ entry ∈ definition.properties, ∀ pointer ∈ entry.2.reference?, Direct pointer

section Agreement

variable (hagree : SchemasAgree schema other) (hentries : document.entries = next.entries)
  (hread : Document.read schema = .ok document) (hnext : Document.read other = .ok next)
  (hdirect : RefersDirectly document)
include hagree hentries hread hnext hdirect

theorem attempt_agree {name : String} {entry : Except Failure Definition}
    (hentry : Entries.get? name document.entries = some entry) :
    attempt settings heading document entry = attempt settings heading next entry := by
  cases entry with
  | error failure => rfl
  | ok definition =>
      have hdefines : ∀ name, document.defines name = next.defines name := by
        intro name
        simp only [Document.defines, hentries]
      have hnames : ∀ entry ∈ definition.properties, ∀ pointer ∈ entry.2.reference?,
          SameName document.raw next.raw pointer := by
        intro entry hmem pointer hpointer
        rw [(read_eq_ok hread).1, (read_eq_ok hnext).1]
        exact hagree.sameName (hdirect name definition hentry entry hmem pointer hpointer)
      simp only [attempt, compose, plan_congr hdefines hnames]

theorem step_agree (run : Run) (name : String) :
    run.step settings heading document name = run.step settings heading next name := by
  unfold Run.step
  rw [← hentries]
  split
  · rfl
  · rfl
  · split
    · rfl
    next entry hentry =>
      unfold Run.define
      rw [attempt_agree hagree hentries hread hnext hdirect hentry]

end Agreement

theorem definitionNames_agree (hagree : SchemasAgree schema other) :
    definitionNames schema = definitionNames other := by
  have hdefinitions := hagree.definitions
  unfold definitionNames
  unfold MembersAgree at hdefinitions
  split at hdefinitions
  next members others hschema hother =>
    rw [hschema, hother]
    exact List.forall₂_eq_eq_eq ▸ (List.forall₂_map_left_iff.mpr
      (List.forall₂_map_right_iff.mpr (hdefinitions.imp fun _ _ hmember => hmember.1)))
  · rw [hdefinitions]

/-- Where references go straight to definitions, schemas that agree in the interpreted keywords
make the same run, reports and failures included, whatever else is in them. -/
theorem generate_agree (hagree : SchemasAgree schema other)
    (hdirect : ∀ document, Document.read schema = .ok document → RefersDirectly document)
    (settings : Settings) (comment : Json) :
    generate settings comment schema = generate settings comment other := by
  have hreads := hagree.read
  have hkeys := definitionNames_agree hagree
  unfold generate
  cases hread : Document.read schema with
  | error failure =>
      rw [hread] at hreads
      rw [map_eq_error.mp hreads.symm]
  | ok document =>
      rw [hread] at hreads
      obtain ⟨next, hnext, hentries⟩ := map_eq_ok.mp hreads.symm
      rw [hnext, hkeys]
      have hstep : Run.step settings (if settings.comment.truthy then comment else .null) document =
          Run.step settings (if settings.comment.truthy then comment else .null) next := by
        funext run name
        exact step_agree hagree hentries.symm hread hnext (hdirect document hread) run name
      simp only [hstep]

/-! ## A title that says nothing -/

/-- A booking of a room, with keywords that are not interpreted. -/
def titledSchema (extra : List (String × Json)) : Json := .obj (extra ++ [("definitions", .obj [
  ("Booking", .obj (extra ++ [("properties", .obj [
    ("room", .obj (extra ++ [("$ref", .str "#/definitions/Room")]))])])),
  ("Room", .obj extra)])])

def titledDefinitions : List Definition := [
  { name := "Booking", path := "#/definitions/Booking",
    properties := [("room", {
      name := "room"
      ref := some "#/definitions/Room"
      path := "#/definitions/Booking/properties/room" })] },
  { name := "Room", path := "#/definitions/Room" }]

theorem titled_refersDirectly {document : Document}
    (hread : Document.read (titledSchema []) = .ok document) : RefersDirectly document := by
  intro name definition hentry entry hmem pointer hpointer
  have hentries : Document.read (titledSchema []) = .ok {
      raw := titledSchema []
      entries := titledDefinitions.map fun definition => (definition.name, .ok definition) } := rfl
  obtain rfl := Except.ok.inj (hentries.symm.trans hread)
  obtain ⟨found, hfound, hsame⟩ := List.mem_map.mp (Entries.mem_of_get? hentry)
  cases hsame
  rcases List.mem_cons.mp hfound with rfl | hfound
  · obtain rfl := List.mem_singleton.mp hmem
    cases hpointer
    exact ⟨"Room", by decide, rfl⟩
  · obtain rfl := List.mem_singleton.mp hfound
    cases hmem

theorem titled_agree : SchemasAgree (titledSchema [])
    (titledSchema [("title", .str "Untitled"), ("items", .int 3)]) := by
  refine ⟨rfl, .cons ⟨rfl, ?_⟩ (.cons ⟨rfl, ?_⟩ .nil)⟩
  · refine ⟨rfl, rfl, .cons ⟨rfl, rfl, ?_, rfl⟩ .nil, rfl, rfl⟩
    simp only [propertyKeywords, List.forall_mem_cons, List.not_mem_nil, false_implies,
      implies_true, and_true]
    exact ⟨rfl, rfl, rfl, rfl, rfl, rfl, rfl, rfl, rfl, rfl⟩
  · exact ⟨rfl, rfl, rfl, rfl, rfl⟩

theorem generate_agree_titled :
    SchemasAgree (titledSchema []) (titledSchema [("title", .str "Untitled"), ("items", .int 3)]) ∧
      generate uncheckedSettings .null (titledSchema []) =
        generate uncheckedSettings .null
          (titledSchema [("title", .str "Untitled"), ("items", .int 3)]) := by
  exact ⟨titled_agree, generate_agree titled_agree (fun _ => titled_refersDirectly)
    uncheckedSettings .null⟩

end ModelMint.Package
