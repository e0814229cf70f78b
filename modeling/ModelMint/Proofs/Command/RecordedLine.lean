import ModelMint.Command.Run
import ModelMint.Proofs.Results

/-!
# What the recorded line tells

Without blanks in the recorded values the line can be read back word by word, from the
names of the schema and the output on.  It tells a value from every other value, but not an
empty value from none, and it is silent on a run that is to spare the files that are there.
-/

namespace ModelMint.Command

/-! ## Words of a line -/

/-- Words with a blank before each. -/
def spaced (words : List String) : List Char := words.flatMap fun word => ' ' :: word.toList

theorem toList_intercalate_append (first : String) (front words : List String) :
    (" ".intercalate (first :: front ++ words)).toList =
      (" ".intercalate (first :: front)).toList ++ spaced words := by
  have hjoined : ∀ (first : String) (rest : List String),
      (" ".intercalate (first :: rest)).toList = first.toList ++ spaced rest := by
    intro first rest
    rw [String.toList_intercalate]
    induction rest generalizing first with
    | nil => simp [spaced, List.intercalate_singleton]
    | cons next rest ih =>
        rw [List.map_cons, List.map_cons, List.intercalate_cons_cons, ← List.map_cons, ih next]
        simp [spaced]
  rw [List.cons_append, hjoined, hjoined, List.append_assoc, spaced, spaced, spaced,
    List.flatMap_append]

theorem parts_spaced {words : List String} (h : ∀ word ∈ words, ' ' ∉ word.toList) :
    Text.parts ' ' (spaced words) = [] :: words.map String.toList := by
  have hmark : ∀ text, Text.parts ' ' (' ' :: text) = [] :: Text.parts ' ' text :=
    Text.parts_append (List.not_mem_nil)
  induction words with
  | nil => rfl
  | cons word rest ih =>
      obtain ⟨hword, hrest⟩ := List.forall_mem_cons.mp h
      have hspaced : spaced (word :: rest) = ' ' :: (word.toList ++ spaced rest) := rfl
      rw [hspaced, hmark, List.map_cons]
      congr 1
      cases rest with
      | nil => simpa [spaced] using Text.parts_of_not_mem hword
      | cons next rest =>
          have hnext : spaced (next :: rest) = ' ' :: (next.toList ++ spaced rest) := rfl
          have hothers := ih hrest
          rw [hnext, hmark, List.cons.injEq] at hothers
          rw [hnext, Text.parts_append hword, hothers.2]

theorem eq_of_spaced_eq {words others : List String} (hwords : ∀ word ∈ words, ' ' ∉ word.toList)
    (hothers : ∀ word ∈ others, ' ' ∉ word.toList) (h : spaced words = spaced others) :
    words = others := by
  have hparts := congrArg (Text.parts ' ') h
  rw [parts_spaced hwords, parts_spaced hothers, List.cons.injEq] at hparts
  exact List.map_injective_iff.mpr (fun _ _ => String.toList_injective) hparts.2

/-! ## Recorded values -/

/-- The words that record a value; a path that leads to where it starts has no name. -/
inductive Records (name : String) : Option String → List String → Prop
  | missing : Records name none []
  | blank : Records name (some "") []
  | here : Records name (some ".") [name, ""]
  | whole {value : String} (h : value ≠ "") : Records name (some value) [name, value]

theorem path_of_not_slash {value : String} (h : '/' ∉ value.toList) (hne : value ≠ "") :
    Path.read value = ⟨false, if value = "." then [] else [value]⟩ := by
  have hroot : Path.startsAtRoot value = false := by
    rw [Path.startsAtRoot, beq_eq_false_iff_ne]
    exact fun hhead => h (List.mem_of_mem_head? hhead)
  rw [Path.read, hroot, Text.parts_of_not_mem h]
  by_cases hself : value = "." <;> simp [hself, hne, Path.self]

theorem records_of_recordedOption {disk : Disk} {name : String} {value : Option String}
    {words : List String} (hplain : ∀ given ∈ value, '/' ∉ given.toList)
    (h : recordedOption disk name value = .ok words) : Records name value words := by
  cases value with
  | none =>
      cases h
      exact .missing
  | some given =>
      simp only [recordedOption] at h
      split at h
      next hempty =>
        cases h
        rw [String.isEmpty_iff.mp hempty]
        exact .blank
      next hempty =>
        have hne : given ≠ "" := by simpa using hempty
        obtain ⟨text, htext, rfl⟩ := map_eq_ok.mp h
        rw [recordedValue, path_of_not_slash (hplain given rfl) hne] at htext
        obtain ⟨holds, -, rfl⟩ := map_eq_ok.mp htext
        by_cases hhere : given = "."
        · subst hhere
          cases holds with
          | true => exact .here
          | false => exact .whole hne
        · rw [if_neg hhere]
          cases holds <;> exact .whole hne

section Records

variable {name : String} {value other : Option String} {words rest others : List String}

theorem Records.blank_free (h : Records name value words) (hname : ' ' ∉ name.toList)
    (hvalue : ∀ given ∈ value, ' ' ∉ given.toList) : ∀ word ∈ words, ' ' ∉ word.toList := by
  cases h with
  | missing => simp
  | blank => simp
  | here => simpa using hname
  | whole hne => simpa using ⟨hname, hvalue _ rfl⟩

theorem Records.form (h : Records name value words) : words = [] ∨ ∃ text, words = [name, text] := by
  cases h with
  | missing => exact .inl rfl
  | blank => exact .inl rfl
  | here => exact .inr ⟨"", rfl⟩
  | whole hne => exact .inr ⟨_, rfl⟩

/-- Where what follows begins with another word, the words of a value can be told from it. -/
theorem Records.eq_of_append_eq {ending : List String} (h : Records name value words)
    (hother : Records name other others) (hrest : rest.head? ≠ some name)
    (hending : ending.head? ≠ some name) (heq : words ++ rest = others ++ ending) :
    words = others ∧ rest = ending := by
  rcases h.form with rfl | ⟨text, rfl⟩ <;> rcases hother.form with rfl | ⟨second, rfl⟩
  · exact ⟨rfl, heq⟩
  · rw [List.nil_append] at heq
    exact absurd (by rw [heq]; rfl) hrest
  · rw [List.nil_append] at heq
    exact absurd (by rw [← heq]; rfl) hending
  · simpa using heq

/-- One record stands for one value, but for the empty value and none. -/
theorem Records.getD_eq_iff (h : Records name value words) (hother : Records name other words)
    {fallback : String} (hfallback : fallback ≠ "") :
    value.getD fallback = other.getD fallback ↔ (value = some "" ↔ other = some "") := by
  cases h <;> cases hother <;> simp_all [hfallback.symm]

end Records

/-! ## Reading a line back -/

def flagWords (force failFast format : Bool) : List String :=
  (if force then ["--force"] else []) ++ (if failFast then ["--fail-fast"] else []) ++
    (if format then ["--format"] else [])

theorem blank_free_flagWords (force failFast format : Bool) :
    ∀ word ∈ flagWords force failFast format, ' ' ∉ word.toList := by
  cases force <;> cases failFast <;> cases format <;> decide

theorem flagWords_inj {force failFast format force' failFast' format' : Bool}
    (h : flagWords force failFast format = flagWords force' failFast' format') :
    force = force' ∧ failFast = failFast' ∧ format = format' := by
  revert force failFast format force' failFast' format'
  decide

/-- No settings file, and no option value with a blank or a slash. -/
structure Request.IsPlain (request : Request) : Prop where
  config : request.config = none
  baseModule : ∀ value ∈ request.baseModule, ' ' ∉ value.toList ∧ '/' ∉ value.toList
  baseClass : ∀ value ∈ request.baseClass, ' ' ∉ value.toList ∧ '/' ∉ value.toList

/-- The words of a line behind the names of the schema and the output. -/
structure Recorded (request : Request) (words : List String) (moduleWords classWords : List String) :
    Prop where
  baseModule : Records "--base-module" request.baseModule moduleWords
  baseClass : Records "--base-class" request.baseClass classWords
  words : words = moduleWords ++ (classWords ++
    flagWords (request.force == some true) request.failFast request.format)

theorem exists_recorded {disk : Disk} {request : Request} {line : String} (hplain : request.IsPlain)
    (h : request.line disk = .ok line) :
    ∃ words moduleWords classWords, Recorded request words moduleWords classWords ∧
      line = " ".intercalate
        (programName :: [lastName request.schema, lastName request.output] ++ words) := by
  obtain ⟨moduleWords, hmodule, h⟩ := bind_eq_ok.mp h
  obtain ⟨classWords, hclass, h⟩ := bind_eq_ok.mp h
  refine ⟨_, moduleWords, classWords,
    ⟨records_of_recordedOption (fun value hvalue => (hplain.baseModule value hvalue).2) hmodule,
      records_of_recordedOption (fun value hvalue => (hplain.baseClass value hvalue).2) hclass, rfl⟩,
    ?_⟩
  rw [← Except.ok.inj h, hplain.config]
  simp [flagWords]

section Recorded

variable {request other : Request} {words moduleWords classWords otherModule otherClass : List String}

theorem Recorded.blank_free (h : Recorded request words moduleWords classWords)
    (hplain : request.IsPlain) : ∀ word ∈ words, ' ' ∉ word.toList := by
  rw [h.words, List.forall_mem_append, List.forall_mem_append]
  exact ⟨h.baseModule.blank_free (by decide) fun value hvalue => (hplain.baseModule value hvalue).1,
    h.baseClass.blank_free (by decide) fun value hvalue => (hplain.baseClass value hvalue).1,
    blank_free_flagWords _ _ _⟩

/-- What a line tells of a request. -/
structure Agree (request other : Request) : Prop where
  baseModule : ∃ words, Records "--base-module" request.baseModule words ∧
    Records "--base-module" other.baseModule words
  baseClass : ∃ words, Records "--base-class" request.baseClass words ∧
    Records "--base-class" other.baseClass words
  force : request.force = some true ↔ other.force = some true
  failFast : request.failFast = other.failFast
  format : request.format = other.format

theorem Recorded.agree (h : Recorded request words moduleWords classWords)
    (hother : Recorded other words otherModule otherClass) : Agree request other := by
  have hflags : ∀ force failFast format, (flagWords force failFast format).head? ≠
      some "--base-class" := by decide
  have hfollows : ∀ {value words force failFast format}, Records "--base-class" value words →
      (words ++ flagWords force failFast format).head? ≠ some "--base-module" := by
    intro value words force failFast format hrecords
    rcases hrecords.form with rfl | ⟨text, rfl⟩
    · revert force failFast format
      decide
    · simp
  obtain ⟨hmodule, hrest⟩ := h.baseModule.eq_of_append_eq hother.baseModule
    (hfollows h.baseClass) (hfollows hother.baseClass) (h.words.symm.trans hother.words)
  obtain ⟨hclass, hrest⟩ := h.baseClass.eq_of_append_eq hother.baseClass (hflags _ _ _)
    (hflags _ _ _) hrest
  obtain ⟨hforce, hfailFast, hformat⟩ := flagWords_inj hrest
  refine ⟨⟨_, h.baseModule, hmodule ▸ hother.baseModule⟩, ⟨_, h.baseClass, hclass ▸ hother.baseClass⟩,
    ?_, hfailFast, hformat⟩
  rw [← beq_iff_eq, hforce, beq_iff_eq]

end Recorded

/-- Equal lines behind equal names tell the same. -/
theorem agree_of_line_eq {disk second : Disk} {request other : Request} {line : String}
    (hplain : request.IsPlain) (hother : other.IsPlain) (hline : request.line disk = .ok line)
    (hsame : other.line second = .ok line) (hschema : lastName request.schema = lastName other.schema)
    (houtput : lastName request.output = lastName other.output) : Agree request other := by
  obtain ⟨words, moduleWords, classWords, hrecorded, heq⟩ := exists_recorded hplain hline
  obtain ⟨others, otherModule, otherClass, hagain, hequal⟩ := exists_recorded hother hsame
  have hspaced : spaced words = spaced others := by
    have htext := congrArg String.toList (heq.symm.trans hequal)
    rw [toList_intercalate_append, toList_intercalate_append, hschema, houtput] at htext
    exact List.append_cancel_left htext
  obtain rfl := eq_of_spaced_eq (hrecorded.blank_free hplain) (hagain.blank_free hother) hspaced
  exact hrecorded.agree hagain

/-! ## Settings behind a line -/

/-- A call of the command that comes to the generation, with what it takes there. -/
structure Reaches (disk : Disk) (arguments : List String) (request : Request) (settings : Settings)
    (line : String) : Prop where
  asked : ∃ given, Arguments.read arguments = some given ∧ given.inquiry = none ∧
    Request.ofArguments disk given = .ok request
  settled : request.settings disk = .ok settings
  recorded : request.line disk = .ok line

section Reaches

variable {disk second : Disk} {arguments others : List String} {request other : Request}
  {settings next : Settings} {line : String}

/-- The settings and the line are all that the files are made from. -/
theorem Reaches.run_disk (h : Reaches disk arguments request settings line) :
    (run disk arguments).disk = (deliver settings (some (.arr [
      .str ("Generated by " ++ programName ++ " " ++ programVersion ++ ", do not edit by hand."),
      .str line])) request.schema.path.text request.output.path.text disk).disk := by
  obtain ⟨given, hgiven, hinquiry, hrequest⟩ := h.asked
  have hheading : request.heading disk = .ok (.arr [
      .str ("Generated by " ++ programName ++ " " ++ programVersion ++ ", do not edit by hand."),
      .str line]) := by
    rw [Request.heading, h.recorded]
    rfl
  have hrun : run disk arguments = request.run disk := by
    simp only [run, hgiven, runArguments, hinquiry, hrequest]
  rw [hrun, Request.run, h.settled, hheading]
  simp only [bind, Except.bind]
  split <;> rfl

theorem Reaches.settings_eq (h : Reaches disk arguments request settings line)
    (hplain : request.IsPlain) : settings = request.override {} := by
  have hsettings := h.settled
  rw [Request.settings, hplain.config] at hsettings
  exact (Except.ok.inj hsettings).symm

theorem override_str_eq_iff {name fallback : String} {value given : Option String}
    (h : ∃ words, Records name value words ∧ Records name given words) (hfallback : fallback ≠ "") :
    (value.map Json.str).getD (.str fallback) = (given.map Json.str).getD (.str fallback) ↔
      (value = some "" ↔ given = some "") := by
  obtain ⟨words, hvalue, hgiven⟩ := h
  rw [← hvalue.getD_eq_iff hgiven hfallback, Option.getD_map, Option.getD_map, Json.str.injEq]

theorem override_mode_eq_iff {settings : Settings} (hmode : settings.output.mode = .force)
    (h : request.force = some true ↔ other.force = some true) :
    (request.override settings).output.mode = (other.override settings).output.mode ↔
      (request.force = some false ↔ other.force = some false) := by
  revert h
  unfold Request.override
  rcases request.force with _ | _ | _ <;> rcases other.force with _ | _ | _ <;> simp [hmode]

end Reaches

/-! ## Calls with equal lines -/

/-- A schema in the working directory. -/
def roomDisk : Disk :=
  ⟨[], [(["schema.json"], .file "\x7b\"definitions\": \x7b\"Room\": \x7b\x7d\x7d\x7d".toUTF8)]⟩

def roomRequest : Request := { schema := ["schema.json"], output := ["out"] }

theorem reaches_roomDisk {arguments : List String} {request : Request} {line : String}
    (hasked : ∃ given, Arguments.read arguments = some given ∧ given.inquiry = none ∧
      Request.ofArguments roomDisk given = .ok request)
    (hconfig : request.config = none) (hline : request.line roomDisk = .ok line) :
    Reaches roomDisk arguments request (request.override {}) line :=
  ⟨hasked, by rw [Request.settings, hconfig], hline⟩

end ModelMint.Command
