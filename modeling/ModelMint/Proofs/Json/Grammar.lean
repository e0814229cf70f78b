import ModelMint.Proofs.Results
import ModelMint.Proofs.Source.Decimals

/-!
# The grammar of documents

Which text spells which document, whoever reads it.  The reader gives a document only for a
text that spells it, and finds too many digits only where there is a row of so many.
-/

namespace ModelMint.Json

open ModelMint.Source (IsDigits IsWholePart)

/-! ## Blanks -/

def isBlank (c : Char) : Bool := c == ' ' || c == '\t' || c == '\n' || c == '\r'

def Blanks (text : List Char) : Prop := ∀ c ∈ text, isBlank c = true

/-! ## Strings -/

/-- A pair of surrogates is one character. -/
def Pairs (high : Nat) (text : List Char) : Prop :=
  ∃ a b c d low rest, text = '\\' :: 'u' :: a :: b :: c :: d :: rest ∧
    hexWord? a b c d = some low ∧ isHighSurrogate high = true ∧ isLowSurrogate low = true

/-- What stands between the quotes of a string. -/
inductive SpellsChars : List Char → List Char → Prop
  | nil : SpellsChars [] []
  | plain {c : Char} {rest text : List Char} (visible : 32 ≤ c.toNat) (quote : c ≠ '"')
      (backslash : c ≠ '\\') (h : SpellsChars rest text) : SpellsChars (c :: rest) (c :: text)
  | escaped {c meant : Char} {rest text : List Char} (escape : escaped? c = some meant)
      (h : SpellsChars rest text) : SpellsChars ('\\' :: c :: rest) (meant :: text)
  | unit {a b c d : Char} {code : Nat} {rest text : List Char}
      (word : hexWord? a b c d = some code) (alone : ¬ Pairs code rest)
      (h : SpellsChars rest text) :
      SpellsChars ('\\' :: 'u' :: a :: b :: c :: d :: rest) (charOfUnit code :: text)
  | pair {a b c d e f g h : Char} {first second : Nat} {rest text : List Char}
      (word : hexWord? a b c d = some first) (other : hexWord? e f g h = some second)
      (high : isHighSurrogate first = true) (low : isLowSurrogate second = true)
      (hrest : SpellsChars rest text) :
      SpellsChars ('\\' :: 'u' :: a :: b :: c :: d :: '\\' :: 'u' :: e :: f :: g :: h :: rest)
        (Char.ofNat (joinSurrogates first second) :: text)

/-! ## Numbers -/

inductive SpellsFraction : List Char → List Char → Prop
  | absent : SpellsFraction [] []
  | present {digits : List Char} (h : IsDigits digits) : SpellsFraction ('.' :: digits) digits

def signed (negative : Bool) (value : Nat) : Int := if negative then -value else value

inductive SpellsSign : List Char → Bool → Prop
  | absent : SpellsSign [] false
  | plus : SpellsSign ['+'] false
  | minus : SpellsSign ['-'] true

inductive SpellsPower : List Char → Option Int → Prop
  | absent : SpellsPower [] none
  | present {mark : Char} {sign digits : List Char} {negative : Bool}
      (exponent : mark = 'e' ∨ mark = 'E') (hsign : SpellsSign sign negative)
      (h : IsDigits digits) :
      SpellsPower (mark :: (sign ++ digits)) (some (signed negative (digitsValue digits)))

/-- A number without its sign. -/
inductive SpellsNumber (negative : Bool) : List Char → Json → Prop
  | whole {digits : List Char} (h : IsWholePart digits) :
      SpellsNumber negative digits (.int (signed negative (digitsValue digits)))
  | real {digits fraction spelledFraction spelledPower : List Char} {power : Option Int}
      (h : IsWholePart digits) (hfraction : SpellsFraction spelledFraction fraction)
      (hpower : SpellsPower spelledPower power) (inexact : fraction ≠ [] ∨ power ≠ none) :
      SpellsNumber negative (digits ++ (spelledFraction ++ spelledPower))
        (.float (Binary64.ofDecimal negative (digitsValue (digits ++ fraction))
          (power.getD 0 - fraction.length)))

/-! ## Values -/

mutual

inductive Spells : List Char → Json → Prop
  | word {text : List Char} {value : Json} (h : (text, value) ∈ words) : Spells text value
  | positive {text : List Char} {value : Json} (h : SpellsNumber false text value) :
      Spells text value
  | negative {text : List Char} {value : Json} (h : SpellsNumber true text value) :
      Spells ('-' :: text) value
  | str {spelled text : List Char} (h : SpellsChars spelled text) :
      Spells ('"' :: (spelled ++ ['"'])) (.str (String.ofList text))
  | noItems {blanks : List Char} (h : Blanks blanks) : Spells ('[' :: (blanks ++ [']'])) (.arr [])
  | arr {text : List Char} {items : List Json} (h : SpellsItems text items) :
      Spells ('[' :: text) (.arr items)
  | noMembers {blanks : List Char} (h : Blanks blanks) :
      Spells ('\x7b' :: (blanks ++ ['\x7d'])) (.obj [])
  | obj {text : List Char} {members : List (String × Json)} (h : SpellsMembers text members) :
      Spells ('\x7b' :: text) (.obj (Entries.ofList members))

/-- The items of an array, up to the bracket that closes it. -/
inductive SpellsItems : List Char → List Json → Prop
  | last {before text after : List Char} {item : Json} (hbefore : Blanks before)
      (hitem : Spells text item) (hafter : Blanks after) :
      SpellsItems (before ++ (text ++ (after ++ [']']))) [item]
  | more {before text after rest : List Char} {item : Json} {items : List Json}
      (hbefore : Blanks before) (hitem : Spells text item) (hafter : Blanks after)
      (hrest : SpellsItems rest items) :
      SpellsItems (before ++ (text ++ (after ++ ',' :: rest))) (item :: items)

/-- The members of an object, up to the brace that closes it. -/
inductive SpellsMembers : List Char → List (String × Json) → Prop
  | last {entry after : List Char} {member : String × Json} (hentry : SpellsMember entry member)
      (hafter : Blanks after) : SpellsMembers (entry ++ (after ++ ['\x7d'])) [member]
  | more {entry after rest : List Char} {member : String × Json}
      {members : List (String × Json)} (hentry : SpellsMember entry member)
      (hafter : Blanks after) (hrest : SpellsMembers rest members) :
      SpellsMembers (entry ++ (after ++ ',' :: rest)) (member :: members)

inductive SpellsMember : List Char → String × Json → Prop
  | mk {before spelled key middle after text : List Char} {value : Json}
      (hbefore : Blanks before) (hkey : SpellsChars spelled key) (hmiddle : Blanks middle)
      (hafter : Blanks after) (hvalue : Spells text value) :
      SpellsMember (before ++ '"' :: (spelled ++ '"' :: (middle ++ ':' :: (after ++ text))))
        (String.ofList key, value)

end

/-- A whole text: a value between blanks. -/
def SpellsDocument (text : List Char) (value : Json) : Prop :=
  ∃ before spelled after, text = before ++ (spelled ++ after) ∧ Blanks before ∧
    Spells spelled value ∧ Blanks after

/-- There are more digits in a row than a whole number may have. -/
def HasLongRow (text : List Char) : Prop :=
  ∃ digits, digits <:+: text ∧ digitLimit < digits.length ∧ ∀ c ∈ digits, c.isDigit = true

/-! ## What is read -/

variable {α β : Type} {spells : List Char → α → Prop} {text rest before : List Char}

/-- What is read is spelled by what has been taken from the text. -/
def Reads (spells : List Char → α → Prop) (text : List Char) :
    Except ReadError (α × List Char) → Prop
  | .ok (value, rest) => ∃ spelled, text = spelled ++ rest ∧ spells spelled value
  | .error .tooManyDigits => HasLongRow text
  | .error .malformed => True

theorem HasLongRow.prepend (before : List Char) (h : HasLongRow text) :
    HasLongRow (before ++ text) := by
  obtain ⟨digits, hrow, hlong, hdigits⟩ := h
  exact ⟨digits, hrow.trans (List.suffix_append before text).isInfix, hlong, hdigits⟩

theorem Reads.prepend {result : Except ReadError (α × List Char)} (before : List Char)
    (h : Reads (fun spelled => spells (before ++ spelled)) text result) :
    Reads spells (before ++ text) result := by
  cases result with
  | ok read =>
      obtain ⟨spelled, htext, hspells⟩ := h
      exact ⟨before ++ spelled, by rw [htext, List.append_assoc], hspells⟩
  | error problem =>
      cases problem with
      | malformed => trivial
      | tooManyDigits => exact HasLongRow.prepend before h

theorem Reads.bind {later : List Char → β → Prop} {result : Except ReadError (α × List Char)}
    {next : α × List Char → Except ReadError (β × List Char)} (h : Reads spells text result)
    (hnext : ∀ spelled value rest, spells spelled value →
      Reads (fun tail => later (spelled ++ tail)) rest (next (value, rest))) :
    Reads later text (result >>= next) := by
  cases result with
  | ok read =>
      obtain ⟨spelled, rfl, hspells⟩ := h
      exact Reads.prepend spelled (hnext spelled read.1 read.2 hspells)
  | error problem =>
      cases problem with
      | malformed => trivial
      | tooManyDigits => exact h

theorem Reads.mono {other : List Char → α → Prop} {result : Except ReadError (α × List Char)}
    (h : Reads spells text result)
    (himp : ∀ spelled value, spells spelled value → other spelled value) :
    Reads other text result := by
  cases result with
  | ok read =>
      obtain ⟨spelled, htext, hspells⟩ := h
      exact ⟨spelled, htext, himp _ _ hspells⟩
  | error problem => cases problem <;> exact h

/-! ### Blanks -/

theorem skipSpace_eq (text : List Char) : skipSpace text = text.dropWhile isBlank := by
  induction text with
  | nil => rfl
  | cons c rest ih =>
      by_cases hblank : isBlank c = true
      · rw [List.dropWhile_cons_of_pos hblank, ← ih]
        simp only [isBlank, Bool.or_eq_true, beq_iff_eq, or_assoc] at hblank
        rcases hblank with rfl | rfl | rfl | rfl <;> rfl
      · rw [List.dropWhile_cons_of_neg hblank]
        simp only [isBlank, Bool.or_eq_true, beq_iff_eq, not_or] at hblank
        unfold skipSpace
        split <;> simp_all

theorem exists_blanks (text : List Char) :
    ∃ blanks, Blanks blanks ∧ text = blanks ++ skipSpace text := by
  refine ⟨text.takeWhile isBlank, fun c hc => List.mem_takeWhile_imp hc, ?_⟩
  rw [skipSpace_eq, List.takeWhile_append_dropWhile]

theorem Blanks.append {other : List Char} (h : Blanks text) (hother : Blanks other) :
    Blanks (text ++ other) :=
  List.forall_mem_append.mpr ⟨h, hother⟩

theorem SpellsItems.prepend {items : List Json} (hblanks : Blanks before)
    (h : SpellsItems text items) : SpellsItems (before ++ text) items := by
  cases h with
  | last hbefore hitem hafter =>
      rw [← List.append_assoc]
      exact .last (hblanks.append hbefore) hitem hafter
  | more hbefore hitem hafter hrest =>
      rw [← List.append_assoc]
      exact .more (hblanks.append hbefore) hitem hafter hrest

theorem SpellsMember.prepend {member : String × Json} (hblanks : Blanks before)
    (h : SpellsMember text member) : SpellsMember (before ++ text) member := by
  cases h with
  | mk hbefore hkey hmiddle hafter hvalue =>
      rw [← List.append_assoc]
      exact .mk (hblanks.append hbefore) hkey hmiddle hafter hvalue

theorem SpellsMembers.prepend {members : List (String × Json)} (hblanks : Blanks before)
    (h : SpellsMembers text members) : SpellsMembers (before ++ text) members := by
  cases h with
  | last hentry hafter =>
      rw [← List.append_assoc]
      exact .last (hentry.prepend hblanks) hafter
  | more hentry hafter hrest =>
      rw [← List.append_assoc]
      exact .more (hentry.prepend hblanks) hafter hrest

/-! ### Strings -/

theorem cons_eq_some {c : Char} {value : List Char} {read : Option (List Char × List Char)}
    (h : (do let (chars, rest) ← read; some (c :: chars, rest)) = some (value, rest)) :
    ∃ chars, read = some (chars, rest) ∧ value = c :: chars := by
  obtain ⟨⟨chars, after⟩, hchars, hvalue⟩ := Option.bind_eq_some_iff.mp h
  cases hvalue
  exact ⟨chars, hchars, rfl⟩

theorem readString_eq_some {value : List Char} (h : readString text = some (value, rest)) :
    ∃ spelled, text = spelled ++ '"' :: rest ∧ SpellsChars spelled value := by
  fun_induction readString text generalizing value with
  | case1 => cases h
  | case2 tail =>
      cases h
      exact ⟨[], rfl, .nil⟩
  -- two escapes in a row are one character where they are the halves of a pair
  | case3 a b c d e f g i tail ihTail ihOther =>
      obtain ⟨first, hfirst, hread⟩ := Option.bind_eq_some_iff.mp h
      dsimp only at hread
      split at hread
      next second hsecond =>
        split at hread
        next hboth =>
          obtain ⟨hhigh, hlow⟩ := Bool.and_eq_true_iff.mp hboth
          obtain ⟨chars, hchars, rfl⟩ := cons_eq_some hread
          obtain ⟨spelled, rfl, hspells⟩ := ihTail hchars
          exact ⟨_, rfl, .pair hfirst hsecond hhigh hlow hspells⟩
        next hboth =>
          obtain ⟨chars, hchars, rfl⟩ := cons_eq_some hread
          obtain ⟨spelled, hspelled, hspells⟩ := ihOther hchars
          refine ⟨'\\' :: 'u' :: a :: b :: c :: d :: spelled, by rw [hspelled]; rfl,
            .unit hfirst ?_ hspells⟩
          rintro ⟨e', f', g', h', low, last, rfl, hword, hhigh, hlow⟩
          cases hspelled
          rw [hsecond] at hword
          cases hword
          simp [hhigh, hlow] at hboth
      · cases hread
  | case4 a b c d tail hpair ih =>
      obtain ⟨code, hcode, hread⟩ := Option.bind_eq_some_iff.mp h
      obtain ⟨chars, hchars, rfl⟩ := cons_eq_some hread
      obtain ⟨spelled, rfl, hspells⟩ := ih hchars
      refine ⟨_, rfl, .unit hcode ?_ hspells⟩
      rintro ⟨e, f, g, h, low, last, rfl, -⟩
      exact hpair _ _ _ _ _ rfl
  | case5 c tail hpair hunit ih =>
      obtain ⟨meant, hmeant, hread⟩ := Option.bind_eq_some_iff.mp h
      obtain ⟨chars, hchars, rfl⟩ := cons_eq_some hread
      obtain ⟨spelled, rfl, hspells⟩ := ih hchars
      exact ⟨_, rfl, .escaped hmeant hspells⟩
  | case6 => cases h
  | case7 c tail hquote hpair hunit hescape hvisible ih =>
      obtain ⟨chars, hchars, rfl⟩ := cons_eq_some h
      obtain ⟨spelled, rfl, hspells⟩ := ih hchars
      refine ⟨_, rfl, .plain (by omega) hquote ?_ hspells⟩
      rintro rfl
      cases spelled with
      | nil => exact hescape _ _ rfl rfl
      | cons next others => exact hescape _ _ rfl rfl

/-! ### Numbers -/

theorem isDigits_takeWhile (h : (text.takeWhile Char.isDigit).isEmpty = false) :
    IsDigits (text.takeWhile Char.isDigit) :=
  ⟨by simpa using h, fun _ hc => List.mem_takeWhile_imp hc⟩

theorem takeWhile_append_drop (text : List Char) :
    text = text.takeWhile Char.isDigit ++ text.drop (text.takeWhile Char.isDigit).length :=
  List.prefix_append_drop (List.takeWhile_prefix _)

theorem wholePart?_eq_some {digits : List Char} (h : wholePart? text = some (digits, rest)) :
    text = digits ++ rest ∧ IsWholePart digits := by
  unfold wholePart? at h
  split at h
  · cases h
    exact ⟨rfl, ⟨⟨by simp, by simp⟩, fun _ => rfl⟩⟩
  next hzero =>
    simp only at h
    split at h
    · cases h
    next hdigits =>
      cases h
      refine ⟨takeWhile_append_drop text, ⟨isDigits_takeWhile (by simpa using hdigits), ?_⟩⟩
      intro hhead
      obtain ⟨tail, htail⟩ : ∃ tail, text = '0' :: tail := by
        cases text with
        | nil => cases hhead
        | cons c tail =>
            by_cases hc : c.isDigit = true
            · rw [List.takeWhile_cons_of_pos hc] at hhead
              exact ⟨tail, by simpa using hhead⟩
            · rw [List.takeWhile_cons_of_neg hc] at hhead
              cases hhead
      exact absurd htail (hzero tail)

theorem spells_fractionPart (text : List Char) :
    ∃ spelled, text = spelled ++ (fractionPart text).2 ∧
      SpellsFraction spelled (fractionPart text).1 := by
  unfold fractionPart
  split
  next tail =>
    simp only
    split
    · exact ⟨[], rfl, .absent⟩
    next hdigits =>
      refine ⟨'.' :: tail.takeWhile Char.isDigit, ?_,
        .present (isDigits_takeWhile (by simpa using hdigits))⟩
      rw [List.cons_append, ← takeWhile_append_drop]
  · exact ⟨[], rfl, .absent⟩

theorem spells_signPart (text : List Char) :
    ∃ sign, text = sign ++ (signPart text).2 ∧ SpellsSign sign (signPart text).1 := by
  unfold signPart
  split
  · exact ⟨_, rfl, .minus⟩
  · exact ⟨_, rfl, .plus⟩
  · exact ⟨[], rfl, .absent⟩

theorem spells_exponentPart (text : List Char) :
    ∃ spelled, text = spelled ++ (exponentPart text).2 ∧
      SpellsPower spelled (exponentPart text).1 := by
  have hpower : ∀ mark tail, mark = 'e' ∨ mark = 'E' →
      ((signPart tail).2.takeWhile Char.isDigit).isEmpty = false →
      ∃ spelled, mark :: tail = spelled ++ (signPart tail).2.drop
          ((signPart tail).2.takeWhile Char.isDigit).length ∧
        SpellsPower spelled (some (signed (signPart tail).1
          (digitsValue ((signPart tail).2.takeWhile Char.isDigit)))) := by
    intro mark tail hmark hdigits
    obtain ⟨sign, htail, hsign⟩ := spells_signPart tail
    refine ⟨mark :: (sign ++ (signPart tail).2.takeWhile Char.isDigit), ?_,
      .present hmark hsign (isDigits_takeWhile hdigits)⟩
    rw [List.cons_append, List.append_assoc, ← takeWhile_append_drop, ← htail]
  unfold exponentPart
  split
  next tail =>
    simp only
    split
    · exact ⟨[], rfl, .absent⟩
    next hdigits => exact hpower 'e' tail (.inl rfl) (by simpa using hdigits)
  next tail =>
    simp only
    split
    · exact ⟨[], rfl, .absent⟩
    next hdigits => exact hpower 'E' tail (.inr rfl) (by simpa using hdigits)
  · exact ⟨[], rfl, .absent⟩

theorem reads_readNumber (negative : Bool) (text : List Char) :
    Reads (SpellsNumber negative) text (readNumber negative text) := by
  unfold readNumber
  split
  · trivial
  next digits tail hwhole =>
    obtain ⟨rfl, hdigits⟩ := wholePart?_eq_some hwhole
    obtain ⟨fraction, htail, hfraction⟩ := spells_fractionPart tail
    obtain ⟨power, hrest, hpower⟩ := spells_exponentPart (fractionPart tail).2
    simp only
    split
    next hwhole =>
      obtain ⟨hnofraction, hnopower⟩ := Bool.and_eq_true_iff.mp hwhole
      split
      next hlong =>
        exact ⟨digits, (List.prefix_append digits tail).isInfix, hlong, hdigits.digits⟩
      · rw [List.isEmpty_iff.mp hnofraction] at hfraction
        rw [Option.isNone_iff_eq_none.mp hnopower] at hpower
        cases hpower
        cases hfraction with
        | present h => exact absurd rfl h.nonempty
        | absent =>
            rw [List.nil_append] at htail hrest
            rw [← hrest, ← htail]
            exact ⟨digits, rfl, .whole hdigits⟩
    next hreal =>
      refine ⟨digits ++ (fraction ++ power), ?_, .real hdigits hfraction hpower ?_⟩
      · rw [List.append_assoc, List.append_assoc, ← hrest, ← htail]
      · rw [Bool.not_eq_true, Bool.and_eq_false_iff] at hreal
        rcases hreal with hsome | hsome
        · exact .inl (by simpa using hsome)
        · exact .inr fun hnone => by simp [hnone] at hsome

theorem reads_readAtom (text : List Char) : Reads Spells text (readAtom text) := by
  unfold readAtom
  split
  next found hfound =>
    obtain ⟨⟨word, value⟩, hmem, hread⟩ := List.exists_of_findSome?_eq_some hfound
    obtain ⟨tail, htail, rfl⟩ := Option.map_eq_some_iff.mp hread
    unfold readWord? at htail
    split at htail
    next hprefix =>
      cases htail
      exact ⟨word, List.prefix_append_drop (List.isPrefixOf_iff_prefix.mp hprefix), .word hmem⟩
    · cases htail
  · split
    next rest _ =>
      exact Reads.prepend ['-'] ((reads_readNumber true rest).mono fun _ _ h => .negative h)
    · exact (reads_readNumber false text).mono fun _ _ h => .positive h

/-! ### Values -/

mutual

theorem reads_readValue : ∀ (fuel : Nat) (text : List Char), Reads Spells text (readValue fuel text)
  | 0, _ => trivial
  | fuel + 1, text => by
      unfold readValue
      split
      next rest =>
        split
        next value tail hread =>
          obtain ⟨spelled, rfl, hspelled⟩ := readString_eq_some hread
          exact ⟨'"' :: (spelled ++ ['"']), by simp, .str hspelled⟩
        · trivial
      next rest =>
        obtain ⟨blanks, hblanks, hrest⟩ := exists_blanks rest
        split
        next tail hclosed =>
          rw [hclosed] at hrest
          exact ⟨'[' :: (blanks ++ [']']), by simp [hrest], .noItems hblanks⟩
        · have htext : '[' :: rest = ('[' :: blanks) ++ skipSpace rest := by
            rw [List.cons_append, ← hrest]
          rw [htext]
          refine Reads.prepend ('[' :: blanks) ((reads_readItems fuel _).bind ?_)
          intro spelled items tail hspelled
          exact ⟨[], rfl, by simpa using Spells.arr (hspelled.prepend hblanks)⟩
      next rest =>
        obtain ⟨blanks, hblanks, hrest⟩ := exists_blanks rest
        split
        next tail hclosed =>
          rw [hclosed] at hrest
          exact ⟨'\x7b' :: (blanks ++ ['\x7d']), by simp [hrest], .noMembers hblanks⟩
        · have htext : '\x7b' :: rest = ('\x7b' :: blanks) ++ skipSpace rest := by
            rw [List.cons_append, ← hrest]
          rw [htext]
          refine Reads.prepend ('\x7b' :: blanks) ((reads_readMembers fuel _).bind ?_)
          intro spelled members tail hspelled
          exact ⟨[], rfl, by simpa using Spells.obj (hspelled.prepend hblanks)⟩
      · exact reads_readAtom text

theorem reads_readItems :
    ∀ (fuel : Nat) (text : List Char), Reads SpellsItems text (readItems fuel text)
  | 0, _ => trivial
  | fuel + 1, text => by
      unfold readItems
      obtain ⟨before, hbefore, htext⟩ := exists_blanks text
      conv => arg 2; rw [htext]
      refine Reads.prepend before ((reads_readValue fuel _).bind ?_)
      intro spelled item rest hspelled
      obtain ⟨after, hafter, hrest⟩ := exists_blanks rest
      dsimp only
      split
      next tail hclosed =>
        rw [hclosed] at hrest
        exact ⟨after ++ [']'], by simp [hrest], .last hbefore hspelled hafter⟩
      next tail hcomma =>
        rw [hcomma] at hrest
        rw [hrest, List.append_cons after ',' tail]
        refine Reads.prepend (after ++ [',']) ((reads_readItems fuel tail).bind ?_)
        intro spelledItems items last hitems
        exact ⟨[], rfl, by simpa using SpellsItems.more hbefore hspelled hafter hitems⟩
      · trivial

theorem reads_readMembers :
    ∀ (fuel : Nat) (text : List Char), Reads SpellsMembers text (readMembers fuel text)
  | 0, _ => trivial
  | fuel + 1, text => by
      unfold readMembers
      obtain ⟨before, hbefore, htext⟩ := exists_blanks text
      conv => arg 2; rw [htext]
      refine Reads.prepend before ?_
      split
      next rest hquote =>
        rw [hquote]
        split
        · trivial
        next key tail hread =>
          obtain ⟨spelled, rfl, hkey⟩ := readString_eq_some hread
          obtain ⟨middle, hmiddle, htail⟩ := exists_blanks tail
          split
          next rest hcolon =>
            rw [hcolon] at htail
            obtain ⟨after, hafter, hrest⟩ := exists_blanks rest
            rw [htail, show '"' :: (spelled ++ '"' :: (middle ++ ':' :: rest)) =
              ('"' :: (spelled ++ '"' :: (middle ++ ':' :: after))) ++ skipSpace rest by
                conv_lhs => rw [hrest]
                simp]
            refine Reads.prepend _ ((reads_readValue fuel _).bind ?_)
            intro spelledValue value rest hvalue
            have hmember := SpellsMember.mk hbefore hkey hmiddle hafter hvalue
            obtain ⟨last, hlast, hrest⟩ := exists_blanks rest
            dsimp only
            split
            next tail hclosed =>
              rw [hclosed] at hrest
              exact ⟨last ++ ['\x7d'], by simp [hrest],
                by simpa using SpellsMembers.last hmember hlast⟩
            next tail hcomma =>
              rw [hcomma] at hrest
              rw [hrest, List.append_cons last ',' tail]
              refine Reads.prepend (last ++ [',']) ((reads_readMembers fuel tail).bind ?_)
              intro spelledMembers members rest hmembers
              exact ⟨[], rfl, by simpa using SpellsMembers.more hmember hlast hmembers⟩
            · trivial
          · trivial
      · trivial

end

/-! ### Documents -/

variable {value : Json}

/-- Only what a text spells is read as its document. -/
theorem spells_of_read (h : read text = .ok value) : SpellsDocument text value := by
  obtain ⟨⟨found, tail⟩, hvalue, hend⟩ := bind_eq_ok.mp h
  obtain ⟨before, hbefore, htext⟩ := exists_blanks text
  have hreads := reads_readValue (text.length + 1) (skipSpace text)
  rw [hvalue] at hreads
  obtain ⟨spelled, hspelled, hspells⟩ := hreads
  obtain ⟨after, hafter, htail⟩ := exists_blanks tail
  dsimp only at hend
  split at hend
  next hnothing =>
    cases hend
    rw [hnothing, List.append_nil] at htail
    exact ⟨before, spelled, tail, by rw [← hspelled, ← htext], hbefore, hspells, htail ▸ hafter⟩
  · cases hend

theorem hasLongRow_of_read (h : read text = .error .tooManyDigits) : HasLongRow text := by
  obtain ⟨before, -, htext⟩ := exists_blanks text
  have hreads := reads_readValue (text.length + 1) (skipSpace text)
  rcases bind_eq_error.mp h with hvalue | ⟨⟨found, tail⟩, -, hend⟩
  · rw [hvalue] at hreads
    rw [htext]
    exact HasLongRow.prepend before hreads
  · dsimp only at hend
    split at hend <;> cases hend

end ModelMint.Json
