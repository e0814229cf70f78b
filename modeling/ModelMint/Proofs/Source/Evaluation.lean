import ModelMint.Emit.Text
import ModelMint.Proofs.Instance.Literal
import ModelMint.Proofs.Json.WellFormed
import ModelMint.Proofs.Source.Decimals
import ModelMint.Proofs.Text.Visible

/-!
# What literals evaluate to

The expressions of the target language that are made of constants, numbers, quoted texts,
lists and dictionaries have a value, which is worked out from their characters alone.  The
literal of a decoded value evaluates to this value, with every type and every order in it,
and it lies on one line.

The language knows no bound for digits or brackets, so there is none here; what its readers
bound is a matter of `Json.isWithin`.
-/

namespace ModelMint

namespace Source

/-! ## Evaluation -/

def skipBlanks (text : List Char) : List Char := text.dropWhile isSkipped

/-- A number behind a sign; a truth value counts as a whole number there. -/
def negative? : Json → Option Json
  | .bool value => some (.int (if value then -1 else 0))
  | .int value => some (.int (-value))
  | .float value => some (.float value.negate)
  | _ => none

/-- The text between quotes without letters before them, and what follows it. -/
def quotation? : List Char → Option (String × List Char)
  | [] => none
  | quote :: rest =>
    if quote == '"' || quote == '\'' then do
      let (body, rest) ← scanQuoted quote rest
      let text ← decode {} body
      some (String.ofList text, rest)
    else none

/-- The words that stand for values. -/
def constantWords : List (List Char × Json) := [
  (['N', 'o', 'n', 'e'], .null), (['T', 'r', 'u', 'e'], .bool true),
  (['F', 'a', 'l', 's', 'e'], .bool false)]

def constant? (text : List Char) : Option (Json × List Char) :=
  let word := text.takeWhile isWordChar
  (constantWords.lookup word).map (·, text.drop word.length)

section Displays

variable {α : Type}

/-- Elements with commas between them up to a closing bracket; one more comma may stand before
the bracket. -/
def elements? (element : List Char → Option (α × List Char)) (close : Char) :
    Nat → List Char → Option (List α × List Char)
  | 0, _ => none
  | fuel + 1, text =>
    if text.head? == some close then some ([], text.drop 1)
    else match element text with
      | none => none
      | some (value, rest) => match skipBlanks rest with
        | [] => none
        | c :: rest =>
          if c == ',' then
            (elements? element close fuel (skipBlanks rest)).map fun (values, rest) =>
              (value :: values, rest)
          else if c == close then some ([value], rest)
          else none

/-- A key, which is a text here, and what stands for it. -/
def keyed? (element : List Char → Option (α × List Char)) (text : List Char) :
    Option ((String × α) × List Char) :=
  match quotation? text with
  | none => none
  | some (key, rest) => match skipBlanks rest with
    | ':' :: rest => (element (skipBlanks rest)).map fun (value, rest) => ((key, value), rest)
    | _ => none

end Displays

/-- The value of an expression at the start of the text, and what follows it.  Each part of an
expression takes fewer characters, so their number is fuel enough. -/
def evaluate : Nat → List Char → Option (Json × List Char)
  | 0, _ => none
  | _ + 1, [] => none
  | fuel + 1, c :: rest =>
    if c == '-' then
      (evaluate fuel (skipBlanks rest)).bind fun (value, rest) => (negative? value).map (·, rest)
    else if c == '[' then
      (elements? (evaluate fuel) ']' (rest.length + 1) (skipBlanks rest)).map
        fun (items, rest) => (.arr items, rest)
    else if c == '\x7b' then
      (elements? (keyed? (evaluate fuel)) '\x7d' (rest.length + 1) (skipBlanks rest)).map
        fun (entries, rest) => (.obj (Entries.ofList entries), rest)
    else if c == '"' || c == '\'' then
      (quotation? (c :: rest)).map fun (text, rest) => (.str text, rest)
    else if c.isDigit then decimal? (c :: rest)
    else constant? (c :: rest)

/-- The value of the whole text as one expression. -/
def valueOf? (text : List Char) : Option Json :=
  match evaluate (text.length + 1) text with
  | some (value, rest) => if (skipBlanks rest).isEmpty then some value else none
  | none => none

/-! ## Reading what was written -/

/-- A text that does not start with a blank or a closing bracket. -/
def Starts (text : List Char) : Prop :=
  ∃ c rest, text = c :: rest ∧ isSkipped c = false ∧ isClosing c = false

/-- What may follow an element. -/
def Ends (rest : List Char) : Prop := ∀ c ∈ rest.head?, c ∈ [',', ']', '\x7d']

/-- A text that stands for a value wherever it is an element. -/
structure Reads {α : Type} (element : List Char → Option (α × List Char)) (text : List Char)
    (value : α) : Prop where
  starts : Starts text
  read : ∀ rest, Ends rest → element (text ++ rest) = some (value, rest)

section Elements

variable {α : Type} {element : List Char → Option (α × List Char)} {close : Char}
  {text rest : List Char} {texts : List (List Char)} {values : List α} {value : α}

theorem Ends.endsNumber (h : Ends rest) : EndsNumber rest := by
  intro c hc
  have hall : [',', ']', '\x7d'].all (fun c => !isWordChar c && c != '.') = true := by decide
  simpa using List.all_eq_true.mp hall c (h c hc)

theorem ends_cons {c : Char} (h : c ∈ [',', ']', '\x7d']) (rest : List Char) :
    Ends (c :: rest) := by
  rintro d ⟨⟩
  exact h

theorem skipBlanks_cons {c : Char} (h : isSkipped c = false) (rest : List Char) :
    skipBlanks (c :: rest) = c :: rest := by
  rw [skipBlanks, List.dropWhile_cons_of_neg (by simp [h])]

theorem Starts.skipBlanks (h : Starts text) (rest : List Char) :
    skipBlanks (text ++ rest) = text ++ rest := by
  obtain ⟨c, others, rfl, hc, -⟩ := h
  exact skipBlanks_cons hc (others ++ rest)

theorem Starts.not_close (h : Starts text) (hclose : isClosing close = true) (rest : List Char) :
    ¬ ((text ++ rest).head? == some close) = true := by
  obtain ⟨c, others, rfl, -, hc⟩ := h
  have hne : c ≠ close := by
    rintro rfl
    rw [hclose] at hc
    cases hc
  simpa using hne

theorem commaSeparated_cons (text : List Char) (h : texts ≠ []) :
    commaSeparated (text :: texts) = text ++ ',' :: ' ' :: commaSeparated texts := by
  obtain ⟨next, others, rfl⟩ := List.exists_cons_of_ne_nil h
  simp [commaSeparated, List.intercalate_cons_cons]

theorem starts_commaSeparated (h : Starts text) : Starts (commaSeparated (text :: texts)) := by
  obtain ⟨c, others, rfl, hc⟩ := h
  cases texts with
  | nil => exact ⟨c, others, by simp [commaSeparated], hc⟩
  | cons next more => exact ⟨c, _, commaSeparated_cons _ (List.cons_ne_nil _ _), hc⟩

/-- The two closing brackets of displays. -/
structure Closes (close : Char) : Prop where
  closing : isClosing close = true
  plain : isSkipped close = false
  ne_comma : (close == ',') = false
  ends : ∀ rest, Ends (close :: rest)

theorem elements?_last (hclose : Closes close) (h : Reads element text value) (fuel : Nat)
    (rest : List Char) :
    elements? element close (fuel + 1) (text ++ close :: rest) = some ([value], rest) := by
  rw [elements?, if_neg (h.starts.not_close hclose.closing _), h.read _ (hclose.ends rest)]
  simp [skipBlanks_cons hclose.plain, hclose.ne_comma]

theorem elements?_more (hclose : Closes close) (h : Reads element text value) (fuel : Nat)
    {more : List Char} (hmore : skipBlanks more = more) :
    elements? element close (fuel + 1) (text ++ ',' :: ' ' :: more) =
      (elements? element close fuel more).map fun (values, rest) => (value :: values, rest) := by
  have hcomma : Ends (',' :: ' ' :: more) := ends_cons (by decide) _
  have hblank : skipBlanks (' ' :: more) = more := hmore
  rw [elements?, if_neg (h.starts.not_close hclose.closing _), h.read _ hcomma]
  simp [skipBlanks_cons (show isSkipped ',' = false by decide), hblank]

/-- Elements in brackets are read one by one. -/
theorem elements?_commaSeparated (hclose : Closes close)
    (h : List.Forall₂ (Reads element) texts values) {fuel : Nat} (hfuel : texts.length < fuel)
    (rest : List Char) :
    elements? element close fuel (commaSeparated texts ++ close :: rest) = some (values, rest) := by
  induction h generalizing fuel with
  | nil =>
      obtain ⟨fuel, rfl⟩ := Nat.exists_eq_add_one.mpr hfuel
      simp [elements?, commaSeparated]
  | cons hfirst hothers ih =>
      obtain ⟨fuel, rfl⟩ := Nat.exists_eq_add_one.mpr (Nat.zero_lt_of_lt hfuel)
      have htail := ih (Nat.lt_of_succ_lt_succ hfuel)
      cases hothers with
      | nil => simpa [commaSeparated] using elements?_last hclose hfirst fuel rest
      | cons hsecond _ =>
          rw [commaSeparated_cons _ (List.cons_ne_nil _ _), List.append_assoc, List.cons_append,
            List.cons_append, elements?_more hclose hfirst fuel
              ((starts_commaSeparated hsecond.starts).skipBlanks _), htail]
          rfl

theorem length_le_commaSeparated (htext : text ∈ texts) :
    text.length ≤ (commaSeparated texts).length := by
  induction texts with
  | nil => cases htext
  | cons first others ih =>
      by_cases hmore : others = []
      · rw [hmore, List.mem_singleton] at htext
        simp [hmore, htext, commaSeparated]
      · rw [commaSeparated_cons _ hmore, List.length_append, List.length_cons, List.length_cons]
        rcases List.mem_cons.mp htext with rfl | hothers
        · omega
        · have hlength := ih hothers
          omega

theorem count_le_commaSeparated (h : ∀ text ∈ texts, text ≠ []) :
    texts.length ≤ (commaSeparated texts).length := by
  induction texts with
  | nil => exact Nat.zero_le _
  | cons first others ih =>
      obtain ⟨hfirst, hothers⟩ := List.forall_mem_cons.mp h
      have hpositive := List.length_pos_of_ne_nil hfirst
      by_cases hmore : others = []
      · subst hmore
        simpa [commaSeparated] using Nat.succ_le_of_lt hpositive
      · have hlength := ih hothers
        rw [commaSeparated_cons _ hmore, List.length_append, List.length_cons, List.length_cons,
          List.length_cons]
        omega

end Elements

/-! ## Values -/

section Values

variable {fuel : Nat} {rest : List Char}

theorem Ends.ne_quote (h : Ends rest) : rest.head? ≠ some '"' :=
  fun hquote => absurd (h _ hquote) (by decide)

theorem quotation?_written (text : String) (h : rest.head? ≠ some '"') :
    quotation? (Text.written text.toList ++ rest) = some (text, rest) := by
  rw [Text.written, List.cons_append, List.append_assoc, List.singleton_append, quotation?]
  simp [scanQuoted_quoted (isBody_written text.toList) h, decode_written]

theorem reads_text (text : String) :
    Reads (evaluate (fuel + 1)) (Text.written text.toList) (.str text) where
  starts := ⟨'"', _, rfl, by decide, by decide⟩
  read rest hrest := by
    have hquotation := quotation?_written text hrest.ne_quote
    rw [Text.written, List.cons_append] at hquotation ⊢
    rw [evaluate, hquotation]
    rfl

theorem reads_word {word : List Char} {value : Json} (hstarts : Starts word)
    (hword : word.all isWordChar = true) (hvalue : constantWords.lookup word = some value)
    (hconstant : ∀ rest, evaluate (fuel + 1) (word ++ rest) = constant? (word ++ rest)) :
    Reads (evaluate (fuel + 1)) word value where
  starts := hstarts
  read rest hrest := by
    have htake : (word ++ rest).takeWhile isWordChar = word := by
      rw [List.takeWhile_append_of_pos (List.all_eq_true.mp hword)]
      cases rest with
      | nil => simp
      | cons c others => simp [(hrest.endsNumber c rfl).1]
    rw [hconstant]
    simp only [constant?, htake, List.drop_left, hvalue, Option.map_some]

theorem reads_none : Reads (evaluate (fuel + 1)) noneText .null :=
  reads_word ⟨'N', _, rfl, by decide⟩ (by decide) rfl fun _ => rfl

theorem reads_bool (value : Bool) : Reads (evaluate (fuel + 1)) (boolText value) (.bool value) := by
  cases value with
  | false => exact reads_word ⟨'F', _, rfl, by decide⟩ (by decide) rfl fun _ => rfl
  | true => exact reads_word ⟨'T', _, rfl, by decide⟩ (by decide) rfl fun _ => rfl

theorem reads_decimal {c : Char} {digits : List Char} {value : Json} (h : c.isDigit = true)
    (hread : ∀ rest, EndsNumber rest → decimal? (c :: (digits ++ rest)) = some (value, rest)) :
    Reads (evaluate (fuel + 1)) (c :: digits) value where
  starts := by
    refine ⟨c, digits, rfl, ?_, ?_⟩ <;> rw [Bool.eq_false_iff] <;> intro hother
    · rcases (by simpa [isSkipped, or_assoc] using hother : c = ' ' ∨ c = '\t' ∨ c = '\x0c') with
        rfl | rfl | rfl <;> cases h
    · rcases (by simpa [isClosing, or_assoc] using hother : c = ')' ∨ c = ']' ∨ c = '\x7d') with
        rfl | rfl | rfl <;> cases h
  read rest hrest := by
    have hne : ∀ other : Char, other.isDigit = false → (c == other) = false := by
      intro other hother
      rw [beq_eq_false_iff_ne]
      rintro rfl
      rw [h] at hother
      cases hother
    rw [List.cons_append, evaluate]
    simp only [hne '-' (by decide), hne '[' (by decide), hne '\x7b' (by decide),
      hne '"' (by decide), hne '\'' (by decide), Bool.or_false, Bool.false_eq_true, if_false, h,
      if_true]
    exact hread rest hrest.endsNumber

theorem reads_negative {text : List Char} {value negative : Json}
    (h : Reads (evaluate fuel) text value) (hnegative : negative? value = some negative) :
    Reads (evaluate (fuel + 1)) ('-' :: text) negative where
  starts := ⟨'-', _, rfl, by decide, by decide⟩
  read rest hrest := by
    simp [evaluate, h.starts.skipBlanks, h.read rest hrest, hnegative]

theorem reads_entry {key : String} {text : List Char} {value : Json}
    (h : Reads (evaluate fuel) text value) :
    Reads (keyed? (evaluate fuel)) (Text.written key.toList ++ ':' :: ' ' :: text)
      (key, value) where
  starts := ⟨'"', _, rfl, by decide, by decide⟩
  read rest hrest := by
    have hkey : quotation? (Text.written key.toList ++ ':' :: ' ' :: (text ++ rest)) =
        some (key, ':' :: ' ' :: (text ++ rest)) := quotation?_written key (by simp)
    have hblank : skipBlanks (' ' :: (text ++ rest)) = text ++ rest := h.starts.skipBlanks rest
    have hcolon := skipBlanks_cons (show isSkipped ':' = false by decide) (' ' :: (text ++ rest))
    rw [List.append_assoc, List.cons_append, List.cons_append, keyed?, hkey]
    simp [hcolon, hblank, h.read rest hrest]

theorem reads_repr (value : Nat) :
    Reads (evaluate (fuel + 1)) (Nat.repr value).toList (.int value) := by
  have hdigits := IsDigits.repr value
  have hread := fun rest (hrest : EndsNumber rest) => decimal?_repr value hrest
  obtain ⟨c, others, heq⟩ := List.exists_cons_of_ne_nil hdigits.nonempty
  rw [heq] at hdigits hread ⊢
  exact reads_decimal (hdigits.digits c List.mem_cons_self) hread

theorem reads_int {value : Int} (h : (intText value).length < fuel) :
    Reads (evaluate fuel) (intText value) (.int value) := by
  cases value with
  | ofNat n =>
      obtain ⟨fuel, rfl⟩ := Nat.exists_eq_add_one.mpr (Nat.zero_lt_of_lt h)
      exact reads_repr n
  | negSucc n =>
      rw [intText, List.length_cons] at h
      obtain ⟨fuel, rfl⟩ : ∃ more, fuel = more + 2 := ⟨fuel - 2, by omega⟩
      exact reads_negative (reads_repr (n + 1)) rfl

theorem reads_body {mantissa : Nat} {exponent : Int}
    (h : (Binary64.finite false mantissa exponent).Canonical) :
    Reads (evaluate (fuel + 1)) (Binary64.finite false mantissa exponent).text
      (.float (.finite false mantissa exponent)) := by
  have hread := fun rest (hrest : EndsNumber rest) => decimal?_body h hrest
  obtain ⟨c, others, heq, hdigit⟩ := (isNumber_body mantissa exponent).1.head
  rw [heq] at hread ⊢
  exact reads_decimal hdigit hread

theorem reads_double {negative : Bool} {mantissa : Nat} {exponent : Int}
    (hcanonical : (Binary64.finite negative mantissa exponent).Canonical)
    (h : (Binary64.finite negative mantissa exponent).text.length < fuel) :
    Reads (evaluate fuel) (Binary64.finite negative mantissa exponent).text
      (.float (.finite negative mantissa exponent)) := by
  cases negative with
  | false =>
      obtain ⟨fuel, rfl⟩ := Nat.exists_eq_add_one.mpr (Nat.zero_lt_of_lt h)
      exact reads_body hcanonical
  | true =>
      have hsign : (Binary64.finite true mantissa exponent).text =
          '-' :: (Binary64.finite false mantissa exponent).text := by
        simp only [Binary64.text, if_true, Bool.false_eq_true, if_false]
      rw [hsign, List.length_cons] at h
      obtain ⟨fuel, rfl⟩ : ∃ more, fuel = more + 2 := ⟨fuel - 2, by omega⟩
      rw [hsign]
      exact reads_negative (reads_body hcanonical) rfl

/-- What stands in brackets is read as far as the text is fuel for it. -/
theorem reads_display {α : Type} {element : List Char → Option (α × List Char)} {close : Char}
    (hclose : Closes close) {texts : List (List Char)} {values : List α}
    (h : List.Forall₂ (Reads element) texts values) (rest : List Char) :
    elements? element close ((commaSeparated texts ++ close :: rest).length + 1)
      (skipBlanks (commaSeparated texts ++ close :: rest)) = some (values, rest) := by
  have hblank : skipBlanks (commaSeparated texts ++ close :: rest) =
      commaSeparated texts ++ close :: rest := by
    cases h with
    | nil => exact skipBlanks_cons hclose.plain rest
    | cons hfirst _ => exact (starts_commaSeparated hfirst.starts).skipBlanks _
  have hcount : texts.length ≤ (commaSeparated texts).length := by
    refine count_le_commaSeparated fun text htext => ?_
    obtain ⟨value, -, hreads⟩ := exists_right_of_mem h htext
    obtain ⟨c, others, rfl, -⟩ := hreads.starts
    exact List.cons_ne_nil _ _
  rw [hblank]
  refine elements?_commaSeparated hclose h ?_ rest
  rw [List.length_append, List.length_cons]
  omega

theorem reads_list {texts : List (List Char)} {items : List Json}
    (h : List.Forall₂ (Reads (evaluate fuel)) texts items) :
    Reads (evaluate (fuel + 1)) ('[' :: (commaSeparated texts ++ [']'])) (.arr items) where
  starts := ⟨'[', _, rfl, by decide, by decide⟩
  read rest _ := by
    have hclose : Closes ']' := ⟨rfl, rfl, rfl, ends_cons (by decide)⟩
    rw [List.cons_append, List.append_assoc, List.singleton_append, evaluate,
      if_neg (by decide), if_pos (by decide), reads_display hclose h rest]
    rfl

theorem reads_dict {texts : List (List Char)} {members : List (String × Json)}
    (h : List.Forall₂ (Reads (keyed? (evaluate fuel))) texts members)
    (hkeys : (Entries.keys members).Nodup) :
    Reads (evaluate (fuel + 1)) ('\x7b' :: (commaSeparated texts ++ ['\x7d'])) (.obj members) where
  starts := ⟨'\x7b', _, rfl, by decide, by decide⟩
  read rest _ := by
    have hclose : Closes '\x7d' := ⟨rfl, rfl, rfl, ends_cons (by decide)⟩
    rw [List.cons_append, List.append_assoc, List.singleton_append, evaluate,
      if_neg (by decide), if_neg (by decide), if_pos (by decide), reads_display hclose h rest]
    simp [Entries.ofList_of_nodup hkeys]

end Values

/-! ## Literals -/

mutual

theorem reads_literal : ∀ {value : Json} {fuel : Nat}, value.WellFormed → value.isFinite = true →
    (literal value).length < fuel + 1 → Reads (evaluate (fuel + 1)) (literal value) value
  | .null, _, _, _, _ => reads_none
  | .bool value, _, _, _, _ => reads_bool value
  | .int _, _, _, _, h => reads_int h
  | .float (.finite ..), _, hformed, _, h => reads_double hformed h
  | .str text, _, _, _, _ => reads_text text
  | .arr items, fuel, hformed, hfinite, h => by
      rw [literal, List.length_cons, List.length_append, List.length_singleton] at h
      exact reads_list (reads_items hformed hfinite fun text htext =>
        (length_le_commaSeparated htext).trans_lt (by omega))
  | .obj members, fuel, hformed, hfinite, h => by
      rw [literal, List.length_cons, List.length_append, List.length_singleton] at h
      have hmembers := reads_members hformed.2 hfinite fun text htext =>
        (length_le_commaSeparated htext).trans_lt (show _ < fuel by omega)
      exact reads_dict hmembers hformed.1

theorem reads_items : ∀ {items : List Json} {fuel : Nat}, Json.ItemsWellFormed items →
    Json.itemsFinite items = true → (∀ text ∈ literalItems items, text.length < fuel) →
      List.Forall₂ (Reads (evaluate fuel)) (literalItems items) items
  | [], _, _, _, _ => .nil
  | item :: rest, fuel, hformed, hfinite, h => by
      obtain ⟨hfirst, hothers⟩ := Bool.and_eq_true_iff.mp hfinite
      obtain ⟨hitem, hrest⟩ := List.forall_mem_cons.mp h
      obtain ⟨fuel, rfl⟩ := Nat.exists_eq_add_one.mpr (Nat.zero_lt_of_lt hitem)
      exact .cons (reads_literal hformed.1 hfirst hitem) (reads_items hformed.2 hothers hrest)

theorem reads_members : ∀ {members : List (String × Json)} {fuel : Nat},
    Json.MembersWellFormed members → Json.membersFinite members = true →
      (∀ text ∈ literalMembers members, text.length < fuel) →
        List.Forall₂ (Reads (keyed? (evaluate fuel))) (literalMembers members) members
  | [], _, _, _, _ => .nil
  | (key, value) :: rest, fuel, hformed, hfinite, h => by
      obtain ⟨hfirst, hothers⟩ := Bool.and_eq_true_iff.mp hfinite
      obtain ⟨hmember, hrest⟩ := List.forall_mem_cons.mp h
      rw [List.length_append, List.length_cons, List.length_cons] at hmember
      obtain ⟨fuel, rfl⟩ := Nat.exists_eq_add_one.mpr (Nat.zero_lt_of_lt hmember)
      exact .cons (reads_entry (reads_literal hformed.1 hfirst (by omega)))
        (reads_members hformed.2 hothers hrest)

end

/-- The literal of a value is one line and evaluates to the value, the types and the order of the
keys included. -/
theorem literal_read_back {value : Json} (h : value.WellFormed) (hfinite : value.isFinite = true) :
    valueOf? (Emit.literalText value).toList = some value ∧
      '\n' ∉ (Emit.literalText value).toList ∧ '\r' ∉ (Emit.literalText value).toList := by
  have hvisible := Text.visible_literal value
  have hread := (reads_literal h hfinite (Nat.lt_succ_self _)).read [] fun c hc => by cases hc
  rw [Emit.literalText, String.toList_ofList]
  refine ⟨?_, hvisible.not_mem (by decide), hvisible.not_mem (by decide)⟩
  rw [List.append_nil] at hread
  rw [valueOf?, hread]
  rfl

/-- Three ones that compare equal, under a key that needs escapes, and a zero with a sign. -/
def ones : Json := .obj [
  ("the \"one\"\n", .arr [.bool true, .int 1, .float (.finite false (2 ^ 52) (-52))]),
  ("", .obj [("none", .null), ("zero", .float (.finite true 0 (-1074)))])]

theorem literal_read_back_ones :
    (ones.WellFormed ∧ ones.isFinite = true) ∧ valueOf? (Emit.literalText ones).toList = some ones ∧
      '\n' ∉ (Emit.literalText ones).toList ∧ '\r' ∉ (Emit.literalText ones).toList := by
  have hformed : ones.WellFormed := by
    simp [ones, Json.WellFormed, Json.MembersWellFormed, Json.ItemsWellFormed, Binary64.Canonical,
      Entries.keys]
  exact ⟨⟨hformed, rfl⟩, literal_read_back hformed rfl⟩

end Source

end ModelMint
