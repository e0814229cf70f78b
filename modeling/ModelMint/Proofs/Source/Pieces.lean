import ModelMint.Proofs.Source.Scanning

/-!
# Pieces of a line

A line of code is put together from words, marks, blanks, numbers and quoted texts.
Each piece is scanned as its own token where the piece behind it is of a kind that does
not go on with it; only the brackets that are open tell whether it is scanned at all.
-/

namespace ModelMint.Source

inductive Piece where
  | word (text : List Char)
  | mark (text : String)
  | blank
  | number (text : List Char)
  /-- In quotes, on its line. -/
  | quoted (body : List Char)
  /-- In triple quotes. -/
  | block (body : List Char)
  /-- The end of a line within brackets, and the indentation of the next one. -/
  | fold (width : Nat)

/-- How a piece begins. -/
inductive Kind where
  | letter
  | digit
  | quote
  | blank
  | mark (first : Char)
  | fold
deriving DecidableEq

namespace Piece

def chars : Piece → List Char
  | word text => text
  | mark text => text.toList
  | blank => [' ']
  | number text => text
  | quoted body => '"' :: (body ++ ['"'])
  | block body => '"' :: '"' :: '"' :: (body ++ ['"', '"', '"'])
  | fold width => '\n' :: List.replicate width ' '

def tokens : Piece → List Token
  | word text => (wordToken text).toList
  | mark text => [.mark text]
  | blank => []
  | number text => [.number (String.ofList text)]
  | quoted body => [.text {} body]
  | block body => [.text {} body]
  | fold _ => []

/-- The brackets that are open behind a piece; a number may have too many digits. -/
def nest (brackets : List Char) : Piece → Option (List Char)
  | mark text => nestBrackets brackets text.toList
  | number text => if (numberEnd text).isSome then some brackets else none
  | _ => some brackets

def kind : Piece → Kind
  | word _ => .letter
  | mark text => .mark (text.toList.headD ' ')
  | blank => .blank
  | number _ => .digit
  | quoted _ | block _ => .quote
  | fold _ => .fold

def operatorChars : List Char :=
  ['!', '%', '&', '*', '+', '-', '.', '/', ':', '<', '=', '>', '@', '^', '|', '~']

def isOperatorChar (c : Char) : Bool := operatorChars.contains c

/-- Marks that no other mark begins with. -/
def standsAlone (mark : String) : Bool :=
  ["(", ")", "[", "]", "\x7b", "\x7d", ","].contains mark

/-- Whether something of the kind may follow. -/
def admits : Piece → Kind → Bool
  | word _, .letter | word _, .digit | word _, .quote => false
  | number _, .letter | number _, .digit | number _, .mark '.' => false
  | quoted _, .quote => false
  | mark text, .mark first => standsAlone text || !isOperatorChar first
  | mark text, .digit => text != "."
  | fold _, .blank | fold _, .fold => false
  | _, _ => true

/-- The marks that are written. -/
def writtenMarks : List String :=
  ["@", "(", ")", "[", "]", "\x7b", "\x7d", ",", ":", "=", ".", "->", "**", "-", "|"]

end Piece

/-- A text that goes on with something of the kind. -/
def Kind.Holds : Kind → List Char → Prop
  | letter, text => ∃ c rest, text = c :: rest ∧ isWordStart c = true
  | digit, text => ∃ c rest, text = c :: rest ∧ c.isDigit = true
  | quote, text => ∃ rest, text = '"' :: rest
  | blank, text => ∃ rest, text = ' ' :: rest
  | mark first, text => ∃ rest, text = first :: rest ∧
      Piece.writtenMarks.any (·.toList.head? == some first) = true
  | fold, text => ∃ rest, text = '\n' :: rest

/-- What a number may not go on with. -/
def EndsNumber (rest : List Char) : Prop := ∀ c ∈ rest.head?, isWordChar c = false ∧ c ≠ '.'

/-- The text of a number, as far as its digits are not too many. -/
structure IsNumber (text : List Char) : Prop where
  head : ∃ c rest, text = c :: rest ∧ c.isDigit = true
  scanned : ∀ rest, EndsNumber rest →
    numberEnd (text ++ rest) = if (numberEnd text).isSome then some rest else none
  unbroken : '\r' ∉ text

/-- The body of a quoted text on one line. -/
structure IsBody (body : List Char) : Prop where
  head : body.head? ≠ some '"'
  scanned : ∀ rest, scanLine '"' (body ++ '"' :: rest) = some (body, rest)
  decoded : (decode {} body).isSome = true
  unbroken : '\r' ∉ body

/-- The body of a text in triple quotes. -/
structure IsBlock (body : List Char) : Prop where
  scanned : ∀ rest, scanBlock '"' (body ++ '"' :: '"' :: '"' :: rest) = some (body, rest)
  decoded : (decode {} body).isSome = true
  unbroken : '\r' ∉ body

def Piece.Sound : Piece → Prop
  | word text => Text.isIdentifier text = true
  | mark text => text ∈ writtenMarks
  | number text => IsNumber text
  | quoted body => IsBody body
  | block body => IsBlock body
  | blank | fold _ => True

/-! ## Characters -/

theorem isWordStart_of_isNameStart {c : Char} (h : Text.isNameStart c = true) :
    isWordStart c = true := by
  unfold Text.isNameStart at h
  unfold isWordStart
  split at h
  · rw [h]
    rfl
  next hlarge =>
    have hcode : 128 ≤ c.toNat := by omega
    simp [hcode]

theorem isWordChar_of_isNameContinue {c : Char} (h : Text.isNameContinue c = true) :
    isWordChar c = true := by
  unfold Text.isNameContinue at h
  unfold isWordChar isWordStart
  split at h
  · simp only [Char.isAlphanum, Bool.or_eq_true] at h ⊢
    tauto
  next hlarge =>
    have hcode : 128 ≤ c.toNat := by omega
    simp [hcode]

theorem exists_of_isIdentifier {text : List Char} (h : Text.isIdentifier text = true) :
    ∃ c rest, text = c :: rest ∧ isWordStart c = true ∧ ∀ d ∈ text, isWordChar d = true := by
  cases text with
  | nil => cases h
  | cons c rest =>
      obtain ⟨hfirst, hrest⟩ := Bool.and_eq_true_iff.mp h
      have hstart := isWordStart_of_isNameStart hfirst
      refine ⟨c, rest, rfl, hstart, fun d hd => ?_⟩
      rcases List.mem_cons.mp hd with rfl | hd
      · simp [isWordChar, hstart]
      · exact isWordChar_of_isNameContinue (List.all_eq_true.mp hrest d hd)

theorem isWordStart_eq_false_of_isDigit {c : Char} (h : c.isDigit = true) :
    isWordStart c = false := by
  have hcode : 48 ≤ c.toNat ∧ c.toNat ≤ 57 := by
    simp only [Char.isDigit, Bool.and_eq_true, decide_eq_true_eq] at h
    exact h
  have halpha : c.isAlpha = false := by
    rw [Bool.eq_false_iff]
    intro halpha
    simp only [Char.isAlpha, Char.isUpper, Char.isLower, Bool.or_eq_true, Bool.and_eq_true,
      decide_eq_true_eq] at halpha
    change (65 ≤ c.toNat ∧ c.toNat ≤ 90) ∨ (97 ≤ c.toNat ∧ c.toNat ≤ 122) at halpha
    omega
  have hne : c ≠ '_' := by
    rintro rfl
    cases h
  simp only [isWordStart, halpha, Bool.false_or, Bool.or_eq_false_iff, beq_eq_false_iff_ne,
    decide_eq_false_iff_not]
  exact ⟨hne, by omega⟩

/-! ## Words -/

/-- A character that no word goes on with and no quote. -/
theorem ends_of_admits_word {text : List Char} {kind : Kind} {rest : List Char}
    (hadmits : (Piece.word text).admits kind = true) (hrest : kind.Holds rest) :
    ∀ c ∈ rest.head?, isWordChar c = false ∧ c ≠ '"' ∧ c ≠ '\'' := by
  intro c hc
  cases kind with
  | letter => cases hadmits
  | digit => cases hadmits
  | quote => cases hadmits
  | blank =>
      obtain ⟨tail, rfl⟩ := hrest
      cases hc
      decide
  | mark first =>
      obtain ⟨tail, rfl, hmark⟩ := hrest
      cases hc
      revert hmark
      simp only [Piece.writtenMarks, List.any_cons, List.any_nil, Bool.or_false, Bool.or_eq_true,
        beq_iff_eq]
      rintro (h | h | h | h | h | h | h | h | h | h | h | h | h | h | h) <;> cases h <;> decide
  | fold =>
      obtain ⟨tail, rfl⟩ := hrest
      cases hc
      decide

theorem takeWhile_append_of_ends {word rest : List Char} {p : Char → Bool}
    (hword : ∀ c ∈ word, p c = true) (hrest : ∀ c ∈ rest.head?, p c = false) :
    (word ++ rest).takeWhile p = word := by
  rw [List.takeWhile_append_of_pos hword]
  cases rest with
  | nil => simp
  | cons c tail => simp [hrest c rfl]

theorem ne_of_isWordStart {c other : Char} (h : isWordStart c = true)
    (hother : isWordStart other = false) : c ≠ other := by
  rintro rfl
  rw [h] at hother
  cases hother

theorem scanStep_eq_scanWord {brackets rest : List Char} {c : Char}
    (hstart : c = '"' ∨ isWordStart c = true) :
    scanStep brackets (c :: rest) = scanWord brackets (c :: rest) := by
  have hother : ∀ other, other ≠ '"' → isWordStart other = false → c ≠ other := by
    rintro other hquote hother rfl
    rcases hstart with hsame | hletter
    · exact hquote hsame
    · rw [hother] at hletter
      cases hletter
  have hskipped : isSkipped c = false := by
    simp only [isSkipped, Bool.or_eq_false_iff, beq_eq_false_iff_ne]
    exact ⟨⟨hother ' ' (by decide) (by decide), hother '\t' (by decide) (by decide)⟩,
      hother '\x0c' (by decide) (by decide)⟩
  have hword : (c == '"' || c == '\'' || isWordStart c) = true := by
    rcases hstart with rfl | hletter
    · rfl
    · rw [hletter, Bool.or_true]
  unfold scanStep
  split
  next heq => cases heq
  next heq => exact absurd (List.cons.inj heq).1 (hother '#' (by decide) (by decide))
  next heq => exact absurd (List.cons.inj heq).1 (hother '\\' (by decide) (by decide))
  next first others _ _ heq =>
    cases heq
    rw [hskipped, hword]
    simp

theorem scanStep_word {text rest : List Char} {kind : Kind}
    (hword : Text.isIdentifier text = true) (hadmits : (Piece.word text).admits kind = true)
    (hrest : kind.Holds rest) (brackets : List Char) : scanStep brackets (text ++ rest) =
      (wordToken text).map fun token => ⟨some token, brackets, rest⟩ := by
  have hends := ends_of_admits_word hadmits hrest
  obtain ⟨c, tail, rfl, hstart, hchars⟩ := exists_of_isIdentifier hword
  have htake : (c :: tail ++ rest).takeWhile isWordChar = c :: tail :=
    takeWhile_append_of_ends hchars fun d hd => (hends d hd).1
  rw [List.cons_append, scanStep_eq_scanWord (.inr hstart), ← List.cons_append]
  unfold scanWord
  simp only [htake, List.drop_left]
  cases rest with
  | nil => rfl
  | cons d others =>
      obtain ⟨-, hdouble, hsingle⟩ := hends d rfl
      simp [hdouble, hsingle]

/-! ## Quoted texts -/

theorem scanStep_quote (brackets rest : List Char) : scanStep brackets ('"' :: rest) =
    (scanQuoted '"' rest).map fun (body, rest) => ⟨some (.text {} body), brackets, rest⟩ := by
  have hword : ('"' :: rest).takeWhile isWordChar = [] := by
    rw [List.takeWhile_cons_of_neg (by decide)]
  rw [scanStep_eq_scanWord (.inl rfl)]
  unfold scanWord
  simp only [hword, List.length_nil, List.drop_zero]
  simp only [beq_self_eq_true, Bool.true_or, if_true]
  cases scanQuoted '"' rest <;> rfl

theorem scanQuoted_quoted {body rest : List Char} (hbody : IsBody body)
    (hrest : rest.head? ≠ some '"') :
    scanQuoted '"' (body ++ '"' :: rest) = some (body, rest) := by
  rw [← hbody.scanned rest]
  have hhead := hbody.head
  cases body with
  | nil =>
      cases rest with
      | nil => rfl
      | cons d others =>
          have hne : d ≠ '"' := by simpa using hrest
          simp [scanQuoted, hne]
  | cons c tail =>
      have hne : c ≠ '"' := by simpa using hhead
      cases htail : tail ++ '"' :: rest with
      | nil => simp at htail
      | cons d others =>
          rw [List.cons_append, htail]
          simp [scanQuoted, hne]

theorem scanQuoted_block {body rest : List Char} (hbody : IsBlock body) :
    scanQuoted '"' ('"' :: '"' :: (body ++ '"' :: '"' :: '"' :: rest)) = some (body, rest) := by
  rw [← hbody.scanned rest]
  rfl

/-! ## Numbers -/

theorem endsNumber_of_admits {text : List Char} {kind : Kind} {rest : List Char}
    (hadmits : (Piece.number text).admits kind = true) (hrest : kind.Holds rest) :
    EndsNumber rest := by
  intro c hc
  cases kind with
  | letter => cases hadmits
  | digit => cases hadmits
  | quote =>
      obtain ⟨tail, rfl⟩ := hrest
      cases hc
      decide
  | blank =>
      obtain ⟨tail, rfl⟩ := hrest
      cases hc
      decide
  | mark first =>
      obtain ⟨tail, rfl, hmark⟩ := hrest
      cases hc
      revert hmark hadmits
      simp only [Piece.writtenMarks, List.any_cons, List.any_nil, Bool.or_false, Bool.or_eq_true,
        beq_iff_eq]
      rintro hadmits (h | h | h | h | h | h | h | h | h | h | h | h | h | h | h) <;> cases h <;>
        first | decide | exact absurd hadmits Bool.false_ne_true
  | fold =>
      obtain ⟨tail, rfl⟩ := hrest
      cases hc
      decide

theorem scanStep_number {text rest : List Char} (htext : IsNumber text)
    (hrest : EndsNumber rest) (brackets : List Char) : scanStep brackets (text ++ rest) =
      if (numberEnd text).isSome then
        some ⟨some (.number (String.ofList text)), brackets, rest⟩
      else none := by
  have hscanned := htext.scanned rest hrest
  have hnumber : scanNumber brackets (text ++ rest) =
      if (numberEnd text).isSome then
        some ⟨some (.number (String.ofList text)), brackets, rest⟩
      else none := by
    unfold scanNumber
    rw [hscanned]
    split <;> simp
  obtain ⟨c, tail, rfl, hdigit⟩ := htext.head
  have hletter := isWordStart_eq_false_of_isDigit hdigit
  have hne : ∀ other, other.isDigit = false → c ≠ other := by
    rintro other hother rfl
    rw [hdigit] at hother
    cases hother
  have hskipped : isSkipped c = false := by
    simp only [isSkipped, Bool.or_eq_false_iff, beq_eq_false_iff_ne]
    exact ⟨⟨hne ' ' (by decide), hne '\t' (by decide)⟩, hne '\x0c' (by decide)⟩
  have hword : (c == '"' || c == '\'' || isWordStart c) = false := by
    simp only [hletter, Bool.or_false, Bool.or_eq_false_iff, beq_eq_false_iff_ne]
    exact ⟨hne '"' (by decide), hne '\'' (by decide)⟩
  rw [← hnumber, List.cons_append]
  generalize tail ++ rest = others
  unfold scanStep
  split
  next heq => cases heq
  next heq => exact absurd (List.cons.inj heq).1 (hne '#' (by decide))
  next heq => exact absurd (List.cons.inj heq).1 (hne '\\' (by decide))
  next heq =>
    cases heq
    rw [hskipped, hword, hdigit]
    simp

/-! ## Marks -/

theorem not_operator_of_word {c : Char} (h : isWordStart c = true ∨ c.isDigit = true) :
    Piece.isOperatorChar c = false := by
  rw [Bool.eq_false_iff]
  intro hoperator
  have hplain : Piece.operatorChars.all (fun d => !isWordStart d && !d.isDigit) = true := by
    decide
  have hchar := List.all_eq_true.mp hplain c (List.contains_iff_mem.mp hoperator)
  simp only [Bool.and_eq_true, Bool.not_eq_true'] at hchar
  rw [hchar.1, hchar.2] at h
  simp at h

/-- Nothing that goes on with a mark follows, unless no mark goes on with it. -/
theorem not_operator_of_admits {mark : String} {kind : Kind} {rest : List Char}
    (hadmits : (Piece.mark mark).admits kind = true) (hrest : kind.Holds rest) :
    Piece.standsAlone mark = true ∨ ∀ c ∈ rest.head?, Piece.isOperatorChar c = false := by
  cases kind with
  | letter =>
      obtain ⟨c, tail, rfl, hletter⟩ := hrest
      refine .inr fun d hd => ?_
      cases hd
      exact not_operator_of_word (.inl hletter)
  | digit =>
      obtain ⟨c, tail, rfl, hdigit⟩ := hrest
      refine .inr fun d hd => ?_
      cases hd
      exact not_operator_of_word (.inr hdigit)
  | mark first =>
      obtain ⟨tail, rfl, -⟩ := hrest
      refine (Bool.or_eq_true_iff.mp hadmits).imp_right fun hfirst d hd => ?_
      cases hd
      simpa using hfirst
  | quote | blank | fold =>
      obtain ⟨tail, rfl⟩ := hrest
      refine .inr fun d hd => ?_
      cases hd
      decide

/-- The marks that come before one of those that are written. -/
def earlierMarks (mark : String) : List (List Char) := marks.takeWhile (· != mark.toList)

theorem marks_split : ∀ mark ∈ Piece.writtenMarks,
    marks = earlierMarks mark ++ mark.toList :: (marks.drop ((earlierMarks mark).length + 1)) := by
  decide +kernel

/-- No earlier mark begins a written one, and where one goes on, it does so as an operator. -/
theorem earlierMarks_differ : ∀ mark ∈ Piece.writtenMarks, ∀ earlier ∈ earlierMarks mark,
    ¬ earlier <+: mark.toList ∧ (mark.toList <+: earlier → Piece.standsAlone mark = false ∧
      ((earlier.drop mark.toList.length).head?.any Piece.isOperatorChar) = true) := by
  decide +kernel

theorem find?_mark {mark : String} {rest : List Char} (hmark : mark ∈ Piece.writtenMarks)
    (hrest : Piece.standsAlone mark = true ∨ ∀ c ∈ rest.head?, Piece.isOperatorChar c = false) :
    marks.find? (·.isPrefixOf (mark.toList ++ rest)) = some mark.toList := by
  rw [List.find?_eq_some_iff_append]
  refine ⟨by simp, earlierMarks mark, _, marks_split mark hmark, fun earlier hearlier => ?_⟩
  obtain ⟨hshorter, hlonger⟩ := earlierMarks_differ mark hmark earlier hearlier
  simp only [Bool.not_eq_true']
  rw [Bool.eq_false_iff]
  intro hprefix
  have htext : earlier <+: mark.toList ++ rest := List.isPrefixOf_iff_prefix.mp hprefix
  have hgoes : mark.toList <+: earlier :=
    (List.prefix_or_prefix_of_prefix htext (List.prefix_append _ _)).resolve_left hshorter
  obtain ⟨halone, hoperator⟩ := hlonger hgoes
  obtain ⟨tail, rfl⟩ := hgoes
  rw [List.drop_left] at hoperator
  cases tail with
  | nil => cases hoperator
  | cons c others =>
      have hrest' : rest.head? = some c := by
        obtain ⟨behind, hbehind⟩ := htext
        rw [List.append_assoc, List.append_right_inj] at hbehind
        rw [← hbehind]
        rfl
      have hplain := hrest.resolve_left (by simp [halone]) c hrest'
      simp only [List.head?_cons, Option.any_some, hplain] at hoperator
      cases hoperator

/-- A mark begins with neither a blank, a quote, a letter nor a digit. -/
def beginsMark (mark : String) : Bool :=
  match mark.toList with
  | c :: _ => c != '#' && c != '\\' && !isSkipped c && !(c == '"' || c == '\'' || isWordStart c) &&
    !c.isDigit && (c != '.' || mark == ".")
  | [] => false

theorem scanStep_eq_scanMark {brackets rest : List Char} {mark : String}
    (hmark : mark ∈ Piece.writtenMarks) (hpoint : mark = "." → ∀ c ∈ rest.head?, c.isDigit = false) :
    scanStep brackets (mark.toList ++ rest) = scanMark brackets (mark.toList ++ rest) := by
  have hall : Piece.writtenMarks.all beginsMark = true := by decide
  have hbegins := List.all_eq_true.mp hall mark hmark
  unfold beginsMark at hbegins
  split at hbegins
  case h_2 => cases hbegins
  next c tail htail =>
  simp only [Bool.and_eq_true, bne_iff_ne, Bool.not_eq_true', Bool.or_eq_true,
    beq_iff_eq] at hbegins
  obtain ⟨⟨⟨⟨⟨hcomment, hjoin⟩, hskipped⟩, hword⟩, hdigit⟩, hdot⟩ := hbegins
  rw [htail, List.cons_append]
  have hnumber : (c == '.' && (tail ++ rest).head?.any Char.isDigit) = false := by
    rw [Bool.and_eq_false_iff]
    by_cases hsame : c = '.'
    · obtain rfl := hdot.resolve_left (not_not_intro hsame)
      have hnil : tail = [] := by
        have hlength := congrArg List.length htail
        simpa using hlength
      subst hnil
      have hrest := hpoint rfl
      refine .inr ?_
      cases rest with
      | nil => rfl
      | cons d others => simpa using hrest d rfl
    · exact .inl (by simpa using hsame)
  generalize tail ++ rest = others at hnumber
  unfold scanStep
  split
  next heq => cases heq
  next heq => exact absurd (List.cons.inj heq).1 hcomment
  next heq => exact absurd (List.cons.inj heq).1 hjoin
  next heq =>
    cases heq
    rw [hskipped, hword, hdigit, hnumber]
    simp

theorem scanStep_mark {rest : List Char} {mark : String} {kind : Kind}
    (hmark : mark ∈ Piece.writtenMarks) (hadmits : (Piece.mark mark).admits kind = true)
    (hrest : kind.Holds rest) (brackets : List Char) : scanStep brackets (mark.toList ++ rest) =
      (nestBrackets brackets mark.toList).map fun after => ⟨some (.mark mark), after, rest⟩ := by
  have hpoint : mark = "." → ∀ c ∈ rest.head?, c.isDigit = false := by
    rintro rfl c hc
    cases kind with
    | letter =>
        obtain ⟨first, tail, rfl, hletter⟩ := hrest
        cases hc
        rw [Bool.eq_false_iff]
        intro hdigit
        rw [isWordStart_eq_false_of_isDigit hdigit] at hletter
        cases hletter
    | digit => cases hadmits
    | mark first =>
        obtain ⟨tail, rfl, hwritten⟩ := hrest
        cases hc
        revert hwritten
        simp only [Piece.writtenMarks, List.any_cons, List.any_nil, Bool.or_false, Bool.or_eq_true,
          beq_iff_eq]
        rintro (h | h | h | h | h | h | h | h | h | h | h | h | h | h | h) <;> cases h <;> decide
    | quote | blank | fold =>
        obtain ⟨tail, rfl⟩ := hrest
        cases hc
        decide
  rw [scanStep_eq_scanMark hmark hpoint]
  unfold scanMark
  rw [find?_mark hmark (not_operator_of_admits hadmits hrest)]
  simp only [Option.bind_eq_bind, Option.bind_some, List.drop_left, String.ofList_toList]
  cases nestBrackets brackets mark.toList <;> rfl

/-! ## Indentation -/

/-- A text that begins with neither a blank nor a joined line. -/
def Opens (text : List Char) : Prop :=
  ∃ c rest, text = c :: rest ∧ isSkipped c = false ∧ c ≠ '\\'

theorem measureIndent_spaces {text : List Char} (htext : Opens text) (count : Nat) :
    measureIndent 0 {} (List.replicate count ' ' ++ text) = some (⟨count, count⟩, text) := by
  obtain ⟨c, rest, rfl, hskipped, hjoin⟩ := htext
  simp only [isSkipped, Bool.or_eq_false_iff, beq_eq_false_iff_ne] at hskipped
  obtain ⟨⟨hblank, htab⟩, hfeed⟩ := hskipped
  have hdone : ∀ width, measureIndent 0 width (c :: rest) = some (width, c :: rest) := by
    intro width
    unfold measureIndent
    split
    next heq => exact absurd (List.cons.inj heq).1 hblank
    next heq => exact absurd (List.cons.inj heq).1 htab
    next heq => exact absurd (List.cons.inj heq).1 hfeed
    next heq => exact absurd (List.cons.inj heq).1 hjoin
    next heq => exact absurd (List.cons.inj heq).1 hjoin
    next => rfl
  have hspaces : ∀ start : Nat, measureIndent 0 ⟨start, start⟩
      (List.replicate count ' ' ++ c :: rest) =
        some (⟨start + count, start + count⟩, c :: rest) := by
    induction count with
    | zero =>
        intro start
        exact hdone _
    | succ count ih =>
        intro start
        rw [List.replicate_succ, List.cons_append, measureIndent, ih (start + 1)]
        congr 3 <;> omega
  have hzero := hspaces 0
  rwa [Nat.zero_add] at hzero

/-! ## Lines -/

namespace Piece

def charsOf (pieces : List Piece) : List Char := pieces.flatMap chars

def tokensOf (pieces : List Piece) : List Token := pieces.flatMap tokens

/-- The brackets that are open behind the pieces, if these are scanned. -/
def nestAll (brackets : List Char) : List Piece → Option (List Char)
  | [] => some brackets
  | piece :: rest => (piece.nest brackets).bind fun after => nestAll after rest

def kindOf (pieces : List Piece) (last : Kind) : Kind := (pieces.head?.map kind).getD last

/-- Every piece admits the one behind it, the last one what comes then. -/
def linked (last : Kind) : List Piece → Bool
  | [] => true
  | piece :: rest => piece.admits (kindOf rest last) && linked last rest

def isFold : Piece → Bool
  | fold _ => true
  | _ => false

/-- Lines end within brackets only. -/
def FoldsInside (brackets : List Char) : List Piece → Prop
  | [] => True
  | piece :: rest => (piece.isFold = true → brackets ≠ []) ∧
      ∀ after, piece.nest brackets = some after → FoldsInside after rest

variable {piece : Piece} {pieces : List Piece} {kind last : Kind} {layout : Layout}
  {text rest : List Char}

theorem Sound.exists_wordToken (h : Text.isIdentifier text = true) :
    ∃ token, wordToken text = some token := by
  unfold wordToken
  rw [h]
  split
  · exact ⟨_, rfl⟩
  · exact ⟨_, rfl⟩

theorem Sound.kind_holds (h : piece.Sound) (rest : List Char) :
    piece.kind.Holds (piece.chars ++ rest) := by
  cases piece with
  | word text =>
      obtain ⟨c, tail, rfl, hstart, -⟩ := exists_of_isIdentifier h
      exact ⟨c, _, rfl, hstart⟩
  | mark text =>
      have hall : writtenMarks.all (fun mark => !mark.toList.isEmpty) = true := by decide
      have hmark := List.all_eq_true.mp hall text h
      cases htext : text.toList with
      | nil => simp [htext] at hmark
      | cons c tail =>
          refine ⟨tail ++ rest, by simp [chars, htext], ?_⟩
          exact List.any_eq_true.mpr ⟨text, h, by simp [htext]⟩
  | blank => exact ⟨rest, rfl⟩
  | number text =>
      obtain ⟨c, tail, rfl, hdigit⟩ := IsNumber.head h
      exact ⟨c, _, rfl, hdigit⟩
  | quoted body => exact ⟨_, rfl⟩
  | block body => exact ⟨_, rfl⟩
  | fold width => exact ⟨_, rfl⟩

theorem kindOf_holds (hsound : ∀ piece ∈ pieces, piece.Sound) (hrest : last.Holds rest) :
    (kindOf pieces last).Holds (charsOf pieces ++ rest) := by
  cases pieces with
  | nil => exact hrest
  | cons piece others =>
      have hfirst := hsound piece List.mem_cons_self
      rw [charsOf, List.flatMap_cons, List.append_assoc]
      exact hfirst.kind_holds _

/-- What a line of code does not begin with. -/
def lineStops : List Char := [' ', '\t', '\x0c', '\\', '#', '\n']

theorem opens_cons {c : Char} (h : lineStops.contains c = false) :
    Opens (c :: rest) ∧ isEmptyLine (c :: rest) = false := by
  have hne : ∀ other ∈ lineStops, c ≠ other := by
    rintro other hother rfl
    rw [List.contains_iff_mem.mpr hother] at h
    cases h
  simp only [lineStops, List.mem_cons, List.not_mem_nil, or_false, forall_eq_or_imp,
    forall_eq] at hne
  obtain ⟨hblank, htab, hfeed, hjoin, hcomment, hbreak⟩ := hne
  refine ⟨⟨c, rest, rfl, ?_, hjoin⟩, ?_⟩
  · simp only [isSkipped, Bool.or_eq_false_iff, beq_eq_false_iff_ne]
    exact ⟨⟨hblank, htab⟩, hfeed⟩
  · unfold isEmptyLine
    split
    next heq => exact absurd (List.cons.inj heq).1 hcomment
    next heq => exact absurd (List.cons.inj heq).1 hbreak
    · rfl

theorem not_lineStop {c : Char} (h : isWordStart c = true ∨ c.isDigit = true) :
    lineStops.contains c = false := by
  rw [Bool.eq_false_iff]
  intro hstop
  have hall : lineStops.all (fun d => !isWordStart d && !d.isDigit) = true := by decide
  have hchar := List.all_eq_true.mp hall c (List.contains_iff_mem.mp hstop)
  simp only [Bool.and_eq_true, Bool.not_eq_true'] at hchar
  rw [hchar.1, hchar.2] at h
  simp at h

/-- A text of a kind that may begin a line begins with no blank and no comment. -/
theorem opens_of_holds {width : Nat} (hadmits : (fold width).admits kind = true)
    (hrest : kind.Holds rest) : Opens rest ∧ isEmptyLine rest = false := by
  cases kind with
  | letter =>
      obtain ⟨c, tail, rfl, hletter⟩ := hrest
      exact opens_cons (not_lineStop (.inl hletter))
  | digit =>
      obtain ⟨c, tail, rfl, hdigit⟩ := hrest
      exact opens_cons (not_lineStop (.inr hdigit))
  | quote =>
      obtain ⟨tail, rfl⟩ := hrest
      exact opens_cons (by decide)
  | mark first =>
      obtain ⟨tail, rfl, hmark⟩ := hrest
      revert hmark
      simp only [writtenMarks, List.any_cons, List.any_nil, Bool.or_false, Bool.or_eq_true,
        beq_iff_eq]
      rintro (h | h | h | h | h | h | h | h | h | h | h | h | h | h | h) <;> cases h <;>
        exact opens_cons (by decide)
  | blank => cases hadmits
  | fold => cases hadmits

theorem not_quote_of_admits {body : List Char} (hadmits : (quoted body).admits kind = true)
    (hrest : kind.Holds rest) : rest.head? ≠ some '"' := by
  cases kind with
  | letter =>
      obtain ⟨c, tail, rfl, hletter⟩ := hrest
      simpa using ne_of_isWordStart hletter (by decide)
  | digit =>
      obtain ⟨c, tail, rfl, hdigit⟩ := hrest
      intro hquote
      obtain rfl := Option.some.inj hquote
      cases hdigit
  | quote => cases hadmits
  | mark first =>
      obtain ⟨tail, rfl, hmark⟩ := hrest
      intro hquote
      obtain rfl := Option.some.inj hquote
      exact absurd hmark (by decide)
  | blank | fold =>
      obtain ⟨tail, rfl⟩ := hrest
      simp

/-- Whether a step is taken decides how scanning goes on. -/
theorem lex_scanStep {step? : Option Step} (htext : ∃ c tail, text = c :: tail ∧ c ≠ '\n')
    (hstep : scanStep layout.brackets text = step?) :
    lex layout false text = step?.bind fun step =>
      (lex { layout with brackets := step.brackets } false step.rest).map
        (step.token.toList ++ ·) := by
  obtain ⟨c, tail, rfl, hbreak⟩ := htext
  cases step? with
  | none => exact lex_step_none hbreak hstep
  | some step => exact lex_step (by simpa using hbreak) hstep

theorem lex_piece (hsound : piece.Sound) (hfold : piece.isFold = false)
    (hadmits : piece.admits kind = true) (hrest : kind.Holds rest) :
    lex layout false (piece.chars ++ rest) =
      (piece.nest layout.brackets).bind fun brackets =>
        (lex { layout with brackets } false rest).map (piece.tokens ++ ·) := by
  cases piece with
  | word text =>
      obtain ⟨token, htoken⟩ := Sound.exists_wordToken hsound
      have hhead : ∃ c tail, text ++ rest = c :: tail ∧ c ≠ '\n' := by
        obtain ⟨c, tail, rfl, hstart, -⟩ := exists_of_isIdentifier hsound
        exact ⟨c, _, rfl, ne_of_isWordStart hstart (by decide)⟩
      rw [chars, lex_scanStep hhead (scanStep_word hsound hadmits hrest _), htoken]
      simp [nest, tokens, htoken]
  | mark text =>
      have hhead : ∃ c tail, text.toList ++ rest = c :: tail ∧ c ≠ '\n' := by
        have hall : writtenMarks.all (fun mark => mark.toList.head?.any (· != '\n')) = true := by
          decide
        have hmark := List.all_eq_true.mp hall text hsound
        cases htext : text.toList with
        | nil => simp [htext] at hmark
        | cons c tail => exact ⟨c, _, rfl, by simpa [htext] using hmark⟩
      rw [chars, lex_scanStep hhead (scanStep_mark hsound hadmits hrest _)]
      cases hnest : nestBrackets layout.brackets text.toList <;> simp [nest, hnest, tokens]
  | blank =>
      have hstep : scanStep layout.brackets (' ' :: rest) =
          some ⟨none, layout.brackets, rest⟩ := rfl
      rw [chars, List.singleton_append, lex_scanStep ⟨' ', _, rfl, by decide⟩ hstep]
      simp [nest, tokens]
  | number text =>
      have hhead : ∃ c tail, text ++ rest = c :: tail ∧ c ≠ '\n' := by
        obtain ⟨c, tail, rfl, hdigit⟩ := IsNumber.head hsound
        refine ⟨c, _, rfl, ?_⟩
        rintro rfl
        cases hdigit
      rw [chars, lex_scanStep hhead
        (scanStep_number hsound (endsNumber_of_admits hadmits hrest) _)]
      cases hnumber : (numberEnd text).isSome <;> simp [nest, hnumber, tokens]
  | quoted body =>
      have hquote := not_quote_of_admits hadmits hrest
      rw [chars, List.cons_append, lex_scanStep ⟨'"', _, rfl, by decide⟩ (scanStep_quote _ _),
        List.append_assoc, List.singleton_append, scanQuoted_quoted hsound hquote]
      simp [nest, tokens]
  | block body =>
      rw [chars, List.cons_append, lex_scanStep ⟨'"', _, rfl, by decide⟩ (scanStep_quote _ _)]
      simp only [List.cons_append, List.append_assoc, List.nil_append]
      rw [scanQuoted_block hsound]
      simp [nest, tokens]
  | fold width => cases hfold

/-- The next line goes on within the same brackets. -/
theorem lex_fold {width : Nat} (hbrackets : layout.brackets ≠ [])
    (hadmits : (fold width).admits kind = true) (hrest : kind.Holds rest) :
    lex layout false ((fold width).chars ++ rest) = lex layout false rest := by
  obtain ⟨hopens, hempty⟩ := opens_of_holds hadmits hrest
  have hne : List.replicate width ' ' ++ rest ≠ [] := by
    obtain ⟨c, tail, rfl, -, -⟩ := hopens
    simp
  rw [chars, List.cons_append, lex_break,
    lex_inner_line hne (measureIndent_spaces hopens width) hempty hbrackets]
  cases hopen : layout.brackets with
  | nil => exact absurd hopen hbrackets
  | cons => simp

theorem lex_pieces (hsound : ∀ piece ∈ pieces, piece.Sound) (hlinked : linked last pieces = true)
    (hfolds : FoldsInside layout.brackets pieces) (hrest : last.Holds rest) :
    lex layout false (charsOf pieces ++ rest) =
      (nestAll layout.brackets pieces).bind fun brackets =>
        (lex { layout with brackets } false rest).map (tokensOf pieces ++ ·) := by
  induction pieces generalizing layout with
  | nil => simp [charsOf, nestAll, tokensOf]
  | cons piece others ih =>
      obtain ⟨hfirst, hothers⟩ := List.forall_mem_cons.mp hsound
      obtain ⟨hadmits, hlinks⟩ := Bool.and_eq_true_iff.mp hlinked
      obtain ⟨hfold, hinside⟩ := hfolds
      have hkind := kindOf_holds hothers hrest
      rw [charsOf, List.flatMap_cons, List.append_assoc, ← charsOf]
      -- a fold is scanned by the loop of the spaces, every other piece by one step of the scanner
      cases hpiece : piece.isFold with
      | true =>
          cases piece with
          | fold width =>
              rw [lex_fold (hfold rfl) hadmits hkind, ih hothers hlinks (hinside _ rfl)]
              simp [nestAll, nest, tokensOf, tokens]
          | _ => cases hpiece
      | false =>
          rw [lex_piece hfirst hpiece hadmits hkind, nestAll]
          cases hnest : piece.nest layout.brackets with
          | none => rfl
          | some after =>
              simp only [Option.bind_some]
              rw [ih hothers hlinks (hinside after hnest)]
              cases nestAll after others with
              | none => rfl
              | some brackets =>
                  simp only [Option.bind_some, Option.map_map, tokensOf, List.flatMap_cons,
                    List.append_assoc]
                  rfl

end Piece

end ModelMint.Source
