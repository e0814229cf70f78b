import ModelMint.Proofs.Json.Grammar

/-!
# Reading what is spelled

A text that spells a document is read as this document, unless a whole number in it has too
many digits.
-/

namespace ModelMint.Json

open ModelMint.Source (EndsDigits EndsNumber IsDigits IsWholePart)

variable {text rest tail before : List Char} {value : Json} {fuel : Nat}

/-- The result is the value, or too many digits stood in the way. -/
def ReadsTo {α : Type} (result : Except ReadError α) (value : α) : Prop :=
  result = .ok value ∨ result = .error .tooManyDigits

theorem ReadsTo.bind {α β : Type} {result : Except ReadError α} {first : α}
    {next : α → Except ReadError β} {value : β} (h : ReadsTo result first)
    (hnext : ReadsTo (next first) value) : ReadsTo (result >>= next) value := by
  rcases h with rfl | rfl
  · exact hnext
  · exact .inr rfl

/-! ## Blanks -/

theorem skipSpace_append (hblanks : Blanks before) (h : ∀ c ∈ text.head?, isBlank c = false) :
    skipSpace (before ++ text) = text := by
  rw [skipSpace_eq, List.dropWhile_append_of_pos hblanks]
  cases text with
  | nil => rfl
  | cons c rest => rw [List.dropWhile_cons_of_neg (by simp [h c rfl])]

theorem isBlank_head_skipSpace (text : List Char) :
    ∀ c ∈ (skipSpace text).head?, isBlank c = false := by
  intro c hc
  rw [skipSpace_eq] at hc
  have := List.head?_dropWhile_not isBlank text
  rw [hc] at this
  simpa using this

theorem skipSpace_cons {c : Char} (hblanks : Blanks before) (h : isBlank c = false)
    (rest : List Char) : skipSpace (before ++ c :: rest) = c :: rest := by
  refine skipSpace_append hblanks ?_
  rintro d ⟨⟩
  exact h

theorem skipSpace_blanks (hblanks : Blanks before) : skipSpace before = [] := by
  rw [skipSpace_eq, List.dropWhile_eq_nil_iff]
  exact hblanks

theorem skipSpace_skipSpace (text : List Char) : skipSpace (skipSpace text) = skipSpace text :=
  skipSpace_append (List.forall_mem_nil _) (isBlank_head_skipSpace text)

/-- Whatever comes after a value. -/
theorem endsNumber_append (hblanks : Blanks before) {c : Char}
    (h : c = ',' ∨ c = ']' ∨ c = '\x7d') :
    EndsNumber (before ++ c :: rest) := by
  cases before with
  | nil =>
      rintro d ⟨⟩
      rcases h with rfl | rfl | rfl <;> decide
  | cons first others =>
      rintro d ⟨⟩
      have hblank := hblanks first List.mem_cons_self
      simp only [isBlank, Bool.or_eq_true, beq_iff_eq, or_assoc] at hblank
      rcases hblank with rfl | rfl | rfl | rfl <;> decide

/-! ## Strings -/

section

variable {chars : List Char}

theorem readString_escaped {c meant : Char} (h : escaped? c = some meant)
    (hrest : readString rest = some (chars, tail)) :
    readString ('\\' :: c :: rest) = some (meant :: chars, tail) := by
  have hunit : c ≠ 'u' := by
    rintro rfl
    cases h
  unfold readString
  split <;> grind

theorem readString_plain {c : Char} (visible : 32 ≤ c.toNat) (quote : c ≠ '"')
    (backslash : c ≠ '\\') (hrest : readString rest = some (chars, tail)) :
    readString (c :: rest) = some (c :: chars, tail) := by
  unfold readString
  split <;> grind

theorem readString_pair {a b c d e f g h : Char} {first second : Nat}
    (hfirst : hexWord? a b c d = some first) (hsecond : hexWord? e f g h = some second)
    (hhigh : isHighSurrogate first = true) (hlow : isLowSurrogate second = true)
    (hrest : readString rest = some (chars, tail)) :
    readString ('\\' :: 'u' :: a :: b :: c :: d :: '\\' :: 'u' :: e :: f :: g :: h :: rest) =
      some (Char.ofNat (joinSurrogates first second) :: chars, tail) := by
  unfold readString
  simp [hfirst, hsecond, hhigh, hlow, hrest]

theorem readString_unit {a b c d : Char} {code : Nat} (h : hexWord? a b c d = some code)
    (halone : ¬ Pairs code rest)
    (hother : ∀ e f g h after, rest = '\\' :: 'u' :: e :: f :: g :: h :: after →
      ∃ code, hexWord? e f g h = some code)
    (hrest : readString rest = some (chars, tail)) :
    readString ('\\' :: 'u' :: a :: b :: c :: d :: rest) =
      some (charOfUnit code :: chars, tail) := by
  unfold readString
  split
  next heq => cases heq
  next heq => cases heq
  next e f g i after heq =>
    cases heq
    obtain ⟨second, hsecond⟩ := hother e f g i after rfl
    have hboth : ¬ (isHighSurrogate code && isLowSurrogate second) = true := by
      rw [Bool.and_eq_true]
      rintro ⟨hhigh, hlow⟩
      exact halone ⟨e, f, g, i, second, after, rfl, hsecond, hhigh, hlow⟩
    simp only [h, hsecond, Option.bind_eq_bind, Option.bind_some, if_neg hboth, hrest]
  next heq =>
    cases heq
    simp [h, hrest]
  next hunit heq =>
    cases heq
    exact absurd rfl (hunit _ _ _ _ _ rfl)
  next hunit _ heq =>
    cases heq
    exact absurd rfl (hunit _ _ _ _ _ rfl)

/-- A unit of code at the start of what stands between quotes ends before the quote. -/
theorem SpellsChars.start_eq {a b c d : Char} {after : List Char} (h : SpellsChars text chars)
    (htext : text ++ '"' :: tail = '\\' :: 'u' :: a :: b :: c :: d :: after) :
    (∃ code, hexWord? a b c d = some code) ∧
      ∃ rest, text = '\\' :: 'u' :: a :: b :: c :: d :: rest := by
  cases h with
  | nil => cases htext
  | plain visible quote backslash =>
      exact absurd (List.cons.inj htext).1 backslash
  | escaped escape =>
      obtain ⟨rfl, -⟩ := List.cons.inj (List.cons.inj htext).2
      cases escape
  | unit word =>
      simp only [List.cons_append, List.cons.injEq, true_and] at htext
      obtain ⟨rfl, rfl, rfl, rfl, -⟩ := htext
      exact ⟨⟨_, word⟩, _, rfl⟩
  | pair word =>
      simp only [List.cons_append, List.cons.injEq, true_and] at htext
      obtain ⟨rfl, rfl, rfl, rfl, -⟩ := htext
      exact ⟨⟨_, word⟩, _, rfl⟩

theorem readString_of_spells (h : SpellsChars text chars) (tail : List Char) :
    readString (text ++ '"' :: tail) = some (chars, tail) := by
  induction h with
  | nil => rfl
  | plain visible quote backslash h ih => exact readString_plain visible quote backslash ih
  | escaped escape h ih => exact readString_escaped escape ih
  | pair word other high low h ih => exact readString_pair word other high low ih
  | unit word alone h ih =>
      refine readString_unit word ?_ ?_ ih
      · rintro ⟨e, f, g, i, low, after, htext, hword, hpair⟩
        obtain ⟨-, rest, rfl⟩ := h.start_eq htext
        exact alone ⟨e, f, g, i, low, rest, rfl, hword, hpair⟩
      · intro e f g i after htext
        exact (h.start_eq htext).1

end

/-! ## Numbers -/

theorem ne_of_isDigit {c other : Char} (hc : c.isDigit = true) (hother : other.isDigit = false) :
    c ≠ other := by
  rintro rfl
  rw [hc] at hother
  cases hother

theorem exists_digit {digits : List Char} (h : IsDigits digits) :
    ∃ c rest, digits = c :: rest ∧ c.isDigit = true := by
  obtain ⟨c, rest, rfl⟩ := List.exists_cons_of_ne_nil h.nonempty
  exact ⟨c, rest, rfl, h.digits c List.mem_cons_self⟩

theorem signPart_of_spells {sign digits : List Char} {negative : Bool}
    (h : SpellsSign sign negative) (hdigits : IsDigits digits) :
    signPart (sign ++ (digits ++ rest)) = (negative, digits ++ rest) := by
  cases h with
  | plus => rfl
  | minus => rfl
  | absent =>
      obtain ⟨c, others, rfl, hc⟩ := exists_digit hdigits
      rw [List.nil_append, List.cons_append]
      unfold signPart
      split
      next heq =>
        cases heq
        cases hc
      next heq =>
        cases heq
        cases hc
      · rfl

theorem exponentPart_of_spells {power : Option Int} (h : SpellsPower text power)
    (hrest : EndsNumber rest) : exponentPart (text ++ rest) = (power, rest) := by
  cases h with
  | absent => exact Source.exponentPart_of_endsNumber hrest
  | present exponent hsign hdigits =>
      rw [List.cons_append, List.append_assoc]
      rcases exponent with rfl | rfl <;>
        simp only [exponentPart, signPart_of_spells hsign hdigits,
          Source.takeWhile_digits hdigits.digits hrest.endsDigits] <;>
        simp [hdigits.nonempty, signed]

theorem endsDigits_of_power {power : Option Int} (h : SpellsPower text power)
    (hrest : EndsNumber rest) :
    EndsDigits (text ++ rest) ∧ ∀ c ∈ (text ++ rest).head?, c ≠ '.' := by
  cases h with
  | absent => exact ⟨hrest.endsDigits, hrest.ne_point⟩
  | present exponent =>
      constructor
      · rintro c ⟨⟩
        rcases exponent with rfl | rfl <;> decide
      · rintro c ⟨⟩
        rcases exponent with rfl | rfl <;> decide

theorem fractionPart_of_spells {fraction : List Char} (h : SpellsFraction text fraction)
    (hrest : EndsDigits rest) (hpoint : ∀ c ∈ rest.head?, c ≠ '.') :
    fractionPart (text ++ rest) = (fraction, rest) := by
  cases h with
  | absent => exact Source.fractionPart_of_ne hpoint
  | present hdigits => exact Source.fractionPart_append hdigits hrest

theorem endsDigits_of_fraction {fraction : List Char} (h : SpellsFraction text fraction)
    (hrest : EndsDigits rest) : EndsDigits (text ++ rest) := by
  cases h with
  | absent => exact hrest
  | present hdigits =>
      rintro c ⟨⟩
      decide

theorem readsTo_readNumber {negative : Bool} (h : SpellsNumber negative text value)
    (hrest : EndsNumber rest) : ReadsTo (readNumber negative (text ++ rest)) (value, rest) := by
  cases h with
  | whole hdigits =>
      unfold readNumber
      rw [Source.wholePart?_append hdigits hrest.endsDigits]
      simp only [Source.fractionPart_of_ne hrest.ne_point, Source.exponentPart_of_endsNumber hrest]
      simp only [List.isEmpty_nil, Option.isNone_none, Bool.and_self, if_true]
      split
      · exact .inr rfl
      · exact .inl rfl
  | real hdigits hfraction hpower inexact =>
      obtain ⟨hends, hpoint⟩ := endsDigits_of_power hpower hrest
      have hinexact : ∀ {fraction : List Char} {power : Option Int}, fraction ≠ [] ∨ power ≠ none →
          (fraction.isEmpty && power.isNone) = false := by
        rintro (_ | ⟨c, others⟩) (_ | exponent) h <;> simp_all
      refine .inl ?_
      unfold readNumber
      rw [List.append_assoc, List.append_assoc,
        Source.wholePart?_append hdigits (endsDigits_of_fraction hfraction hends)]
      simp only [fractionPart_of_spells hfraction hends hpoint, exponentPart_of_spells hpower hrest,
        hinexact inexact, Bool.false_eq_true, if_false]

/-! ## Values -/

theorem SpellsNumber.exists_digit {negative : Bool} (h : SpellsNumber negative text value) :
    ∃ c rest, text = c :: rest ∧ c.isDigit = true := by
  cases h with
  | whole hdigits => exact Json.exists_digit hdigits.toIsDigits
  | real hdigits =>
      obtain ⟨c, others, rfl, hc⟩ := Json.exists_digit hdigits.toIsDigits
      exact ⟨c, _, rfl, hc⟩

theorem readAtom_of_word (h : (text, value) ∈ words) (rest : List Char) :
    readAtom (text ++ rest) = .ok (value, rest) := by
  simp only [words, List.mem_cons, Prod.mk.injEq, List.not_mem_nil, or_false] at h
  rcases h with ⟨rfl, rfl⟩ | ⟨rfl, rfl⟩ | ⟨rfl, rfl⟩ | ⟨rfl, rfl⟩ | ⟨rfl, rfl⟩ | ⟨rfl, rfl⟩ <;> rfl

/-- No word starts with a digit, or with a digit behind a sign. -/
theorem findSome?_words {c : Char} (hc : c.isDigit = true) (rest : List Char) :
    (words.findSome? fun (word, value) => (readWord? word (c :: rest)).map (value, ·)) = none ∧
      (words.findSome? fun (word, value) =>
        (readWord? word ('-' :: c :: rest)).map (value, ·)) = none := by
  have hne : ∀ other : Char, other.isDigit = false → ¬ other = c := fun _ hother heq =>
    ne_of_isDigit hc hother heq.symm
  constructor <;>
    simp [words, readWord?, hne 'n' rfl, hne 't' rfl, hne 'f' rfl, hne 'N' rfl, hne 'I' rfl,
      hne '-' rfl]

theorem readAtom_of_digit {c : Char} (hc : c.isDigit = true) (rest : List Char) :
    readAtom (c :: rest) = readNumber false (c :: rest) ∧
      readAtom ('-' :: c :: rest) = readNumber true (c :: rest) := by
  obtain ⟨hplain, hminus⟩ := findSome?_words hc rest
  unfold readAtom
  rw [hplain, hminus]
  refine ⟨?_, rfl⟩
  simp only
  split
  next heq =>
    cases heq
    cases hc
  · rfl

theorem exists_start_of_word (h : (text, value) ∈ words) :
    ∃ c rest, text = c :: rest ∧ isBlank c = false ∧ c ∉ [']', '"', '[', '\x7b'] := by
  simp only [words, List.mem_cons, Prod.mk.injEq, List.not_mem_nil, or_false] at h
  rcases h with ⟨rfl, -⟩ | ⟨rfl, -⟩ | ⟨rfl, -⟩ | ⟨rfl, -⟩ | ⟨rfl, -⟩ | ⟨rfl, -⟩ <;>
    exact ⟨_, _, rfl, by decide, by decide⟩

theorem Spells.exists_start (h : Spells text value) :
    ∃ c rest, text = c :: rest ∧ isBlank c = false ∧ c ≠ ']' := by
  have hdigit : ∀ {c : Char}, c.isDigit = true → isBlank c = false ∧ c ≠ ']' := by
    intro c hc
    have hne : ∀ other : Char, other.isDigit = false → ¬ c = other := fun _ => ne_of_isDigit hc
    simp [isBlank, hne ' ' rfl, hne '\t' rfl, hne '\n' rfl, hne '\r' rfl, hne ']' rfl]
  cases h with
  | word h =>
      obtain ⟨c, rest, rfl, hblank, hnot⟩ := exists_start_of_word h
      exact ⟨c, rest, rfl, hblank, List.ne_of_not_mem_cons hnot⟩
  | positive h =>
      obtain ⟨c, rest, rfl, hc⟩ := h.exists_digit
      exact ⟨c, rest, rfl, hdigit hc⟩
  | _ => exact ⟨_, _, rfl, by decide, by decide⟩

/-- The blanks before a value are skipped, and no more. -/
theorem Spells.skipSpace_append (h : Spells text value) (hblanks : Blanks before)
    (rest : List Char) : skipSpace (before ++ (text ++ rest)) = text ++ rest := by
  obtain ⟨c, others, rfl, hblank, -⟩ := h.exists_start
  exact skipSpace_cons hblanks hblank _

theorem readItems_skipSpace (fuel : Nat) (text : List Char) :
    readItems fuel (skipSpace text) = readItems fuel text := by
  cases fuel with
  | zero => rfl
  | succ fuel => rw [readItems, readItems, skipSpace_skipSpace]

theorem readMembers_skipSpace (fuel : Nat) (text : List Char) :
    readMembers fuel (skipSpace text) = readMembers fuel text := by
  cases fuel with
  | zero => rfl
  | succ fuel => rw [readMembers, readMembers, skipSpace_skipSpace]

theorem readValue_of_ne {c : Char} (hquote : c ≠ '"') (hbracket : c ≠ '[') (hbrace : c ≠ '\x7b')
    (fuel : Nat) (rest : List Char) : readValue (fuel + 1) (c :: rest) = readAtom (c :: rest) := by
  unfold readValue
  split
  next heq => exact absurd (List.cons.inj heq).1 hquote
  next heq => exact absurd (List.cons.inj heq).1 hbracket
  next heq => exact absurd (List.cons.inj heq).1 hbrace
  · rfl

theorem readValue_of_word (h : (text, value) ∈ words) (fuel : Nat) (rest : List Char) :
    readValue (fuel + 1) (text ++ rest) = .ok (value, rest) := by
  have hread := readAtom_of_word h rest
  obtain ⟨c, others, rfl, -, hnot⟩ := exists_start_of_word h
  simp only [List.mem_cons, not_or] at hnot
  obtain ⟨-, hquote, hbracket, hbrace, -⟩ := hnot
  rwa [List.cons_append, readValue_of_ne hquote hbracket hbrace]

theorem readsTo_readValue_of_number {negative : Bool} (h : SpellsNumber negative text value)
    (hrest : EndsNumber rest) (fuel : Nat) :
    ReadsTo (readValue (fuel + 1) ((if negative then '-' :: text else text) ++ rest))
      (value, rest) := by
  have hread := readsTo_readNumber h hrest
  obtain ⟨c, others, rfl, hc⟩ := h.exists_digit
  obtain ⟨hplain, hminus⟩ := readAtom_of_digit hc (others ++ rest)
  rw [List.cons_append] at hread
  cases negative with
  | false =>
      rw [if_neg Bool.false_ne_true, List.cons_append, readValue_of_ne (ne_of_isDigit hc rfl)
        (ne_of_isDigit hc rfl) (ne_of_isDigit hc rfl), hplain]
      exact hread
  | true =>
      rw [if_pos rfl, List.cons_append, List.cons_append, readValue_of_ne (by decide) (by decide)
        (by decide), hminus]
      exact hread

theorem readsTo_readItems_of_first {item : Json} {items : List Json} {after last : List Char}
    (hbefore : Blanks before) (hitem : Spells text item)
    (hfirst : ReadsTo (readValue fuel (text ++ (after ++ rest))) (item, after ++ rest))
    (hafter : Blanks after) (hrest : rest = ']' :: last ∧ items = [] ∨
      ∃ tail, rest = ',' :: tail ∧ ReadsTo (readItems fuel tail) (items, last)) :
    ReadsTo (readItems (fuel + 1) (before ++ (text ++ (after ++ rest)))) (item :: items, last) := by
  unfold readItems
  rw [hitem.skipSpace_append hbefore]
  refine hfirst.bind ?_
  dsimp only
  rcases hrest with ⟨rfl, rfl⟩ | ⟨tail, rfl, hothers⟩
  · rw [skipSpace_cons hafter (by decide)]
    exact .inl rfl
  · rw [skipSpace_cons hafter (by decide)]
    exact hothers.bind (.inl rfl)

theorem readsTo_readMembers_of_first {spelled key middle after closing last : List Char}
    {value : Json} {members : List (String × Json)} (hbefore : Blanks before)
    (hkey : SpellsChars spelled key) (hmiddle : Blanks middle) (hafter : Blanks after)
    (hvalue : Spells text value)
    (hfirst : ReadsTo (readValue fuel (text ++ (closing ++ rest))) (value, closing ++ rest))
    (hclosing : Blanks closing) (hrest : rest = '\x7d' :: last ∧ members = [] ∨
      ∃ tail, rest = ',' :: tail ∧ ReadsTo (readMembers fuel tail) (members, last)) :
    ReadsTo (readMembers (fuel + 1) (before ++ '"' :: (spelled ++ '"' :: (middle ++ ':' ::
        (after ++ (text ++ (closing ++ rest)))))))
      ((String.ofList key, value) :: members, last) := by
  unfold readMembers
  rw [skipSpace_cons hbefore (by decide)]
  simp only [readString_of_spells hkey]
  rw [skipSpace_cons hmiddle (by decide)]
  simp only [hvalue.skipSpace_append hafter]
  refine hfirst.bind ?_
  dsimp only
  rcases hrest with ⟨rfl, rfl⟩ | ⟨tail, rfl, hothers⟩
  · rw [skipSpace_cons hclosing (by decide)]
    exact .inl rfl
  · rw [skipSpace_cons hclosing (by decide)]
    exact hothers.bind (.inl rfl)

theorem SpellsItems.skipSpace_ne {items : List Json} (h : SpellsItems text items)
    (rest tail : List Char) : skipSpace (text ++ rest) ≠ ']' :: tail := by
  have hitem : ∀ {before item later : List Char} {value : Json}, Blanks before →
      Spells item value → skipSpace (before ++ (item ++ later)) ≠ ']' :: tail := by
    intro before item later value hbefore hitem
    rw [hitem.skipSpace_append hbefore]
    obtain ⟨c, others, rfl, -, hne⟩ := hitem.exists_start
    exact fun heq => hne (List.cons.inj heq).1
  cases h with
  | last hbefore hspells hafter =>
      rw [List.append_assoc, List.append_assoc]
      exact hitem hbefore hspells
  | more hbefore hspells hafter hrest =>
      rw [List.append_assoc, List.append_assoc]
      exact hitem hbefore hspells

theorem SpellsMembers.skipSpace_ne {members : List (String × Json)} (h : SpellsMembers text members)
    (rest tail : List Char) : skipSpace (text ++ rest) ≠ '\x7d' :: tail := by
  have hmember : ∀ {entry later : List Char} {member : String × Json}, SpellsMember entry member →
      skipSpace (entry ++ later) ≠ '\x7d' :: tail := by
    intro entry later member hentry
    cases hentry with
    | mk hbefore =>
        rw [List.append_assoc, List.cons_append,
          skipSpace_cons hbefore (by decide)]
        exact fun heq => absurd (List.cons.inj heq).1 (by decide)
  cases h with
  | last hentry hafter =>
      rw [List.append_assoc]
      exact hmember hentry
  | more hentry hafter hrest =>
      rw [List.append_assoc]
      exact hmember hentry

mutual

theorem readsTo_readValue : ∀ {text : List Char} {value : Json}, Spells text value →
    ∀ {fuel : Nat} {rest : List Char}, text.length ≤ fuel → EndsNumber rest →
      ReadsTo (readValue fuel (text ++ rest)) (value, rest)
  | _, _, h, 0, _, hfuel, _ => by
      obtain ⟨c, others, rfl, -⟩ := h.exists_start
      cases hfuel
  | _, _, .word h, fuel + 1, rest, _, _ => .inl (readValue_of_word h fuel rest)
  | _, _, .positive h, fuel + 1, rest, _, hrest => readsTo_readValue_of_number h hrest fuel
  | _, _, .negative h, fuel + 1, rest, _, hrest => readsTo_readValue_of_number h hrest fuel
  | _, _, .str h, fuel + 1, rest, _, _ => by
      rw [List.cons_append, List.append_assoc, List.singleton_append]
      unfold readValue
      simp only [readString_of_spells h]
      exact .inl rfl
  | _, _, .noItems h, fuel + 1, rest, _, _ => by
      rw [List.cons_append, List.append_assoc, List.singleton_append]
      unfold readValue
      simp only [skipSpace_cons h (show isBlank ']' = false by decide)]
      exact .inl rfl
  | _, _, .arr h, fuel + 1, rest, hfuel, _ => by
      rw [List.cons_append]
      unfold readValue
      simp only
      split
      next tail heq => exact absurd heq (h.skipSpace_ne rest tail)
      · rw [readItems_skipSpace]
        exact (readsTo_readItems h (Nat.le_of_succ_le_succ hfuel)).bind (.inl rfl)
  | _, _, .noMembers h, fuel + 1, rest, _, _ => by
      rw [List.cons_append, List.append_assoc, List.singleton_append]
      unfold readValue
      simp only [skipSpace_cons h (show isBlank '\x7d' = false by decide)]
      exact .inl rfl
  | _, _, .obj h, fuel + 1, rest, hfuel, _ => by
      rw [List.cons_append]
      unfold readValue
      simp only
      split
      next tail heq => exact absurd heq (h.skipSpace_ne rest tail)
      · rw [readMembers_skipSpace]
        exact (readsTo_readMembers h (Nat.le_of_succ_le_succ hfuel)).bind (.inl rfl)

theorem readsTo_readItems : ∀ {text : List Char} {items : List Json}, SpellsItems text items →
    ∀ {fuel : Nat} {rest : List Char}, text.length ≤ fuel →
      ReadsTo (readItems fuel (text ++ rest)) (items, rest)
  | _, _, .last hbefore hitem hafter, 0, _, hfuel => by simp at hfuel
  | _, _, .more hbefore hitem hafter hrest, 0, _, hfuel => by simp at hfuel
  | _, _, .last hbefore hitem hafter, fuel + 1, rest, hfuel => by
      simp only [List.length_append, List.length_cons, List.length_nil] at hfuel
      simp only [List.append_assoc, List.singleton_append]
      refine readsTo_readItems_of_first hbefore hitem ?_ hafter (.inl ⟨rfl, rfl⟩)
      exact readsTo_readValue hitem (by omega) (endsNumber_append hafter (by simp))
  | _, _, .more hbefore hitem hafter hrest, fuel + 1, rest, hfuel => by
      simp only [List.length_append, List.length_cons] at hfuel
      simp only [List.append_assoc, List.cons_append]
      refine readsTo_readItems_of_first hbefore hitem ?_ hafter
        (.inr ⟨_, rfl, readsTo_readItems hrest (by omega)⟩)
      exact readsTo_readValue hitem (by omega) (endsNumber_append hafter (by simp))

theorem readsTo_readMembers : ∀ {text : List Char} {members : List (String × Json)},
    SpellsMembers text members → ∀ {fuel : Nat} {rest : List Char}, text.length ≤ fuel →
      ReadsTo (readMembers fuel (text ++ rest)) (members, rest)
  | _, _, .last _ _, 0, _, hfuel => by simp at hfuel
  | _, _, .more _ _ _, 0, _, hfuel => by simp at hfuel
  | _, _, .last (.mk hbefore hkey hmiddle hafter hvalue) hlast, fuel + 1, rest, hfuel => by
      simp only [List.length_append, List.length_cons, List.length_nil] at hfuel
      simp only [List.append_assoc, List.cons_append, List.nil_append]
      refine readsTo_readMembers_of_first hbefore hkey hmiddle hafter hvalue ?_ hlast
        (.inl ⟨rfl, rfl⟩)
      exact readsTo_readValue hvalue (by omega) (endsNumber_append hlast (by simp))
  | _, _, .more (.mk hbefore hkey hmiddle hafter hvalue) hlast hrest, fuel + 1, rest, hfuel => by
      simp only [List.length_append, List.length_cons] at hfuel
      simp only [List.append_assoc, List.cons_append]
      refine readsTo_readMembers_of_first hbefore hkey hmiddle hafter hvalue ?_ hlast
        (.inr ⟨_, rfl, readsTo_readMembers hrest (by omega)⟩)
      exact readsTo_readValue hvalue (by omega) (endsNumber_append hlast (by simp))

end

/-! ## Documents -/

theorem readsTo_read (h : SpellsDocument text value) : ReadsTo (read text) value := by
  obtain ⟨before, spelled, after, rfl, hbefore, hspells, hafter⟩ := h
  have hends : EndsNumber after := by
    intro c hc
    have hblank := hafter c (List.mem_of_mem_head? hc)
    simp only [isBlank, Bool.or_eq_true, beq_iff_eq, or_assoc] at hblank
    rcases hblank with rfl | rfl | rfl | rfl <;> decide
  unfold read
  rw [hspells.skipSpace_append hbefore]
  refine ReadsTo.bind (readsTo_readValue hspells ?_ hends) ?_
  · simp only [List.length_append]
    omega
  · simp only [skipSpace_blanks hafter]
    exact .inl rfl

/-- A document is read from a text exactly where the text spells it, unless there are too many
digits. -/
theorem read_eq_ok_iff :
    read text = .ok value ↔ SpellsDocument text value ∧ read text ≠ .error .tooManyDigits := by
  constructor
  · intro h
    exact ⟨spells_of_read h, by simp [h]⟩
  · rintro ⟨hspells, hdigits⟩
    exact (readsTo_read hspells).resolve_right hdigits

end ModelMint.Json
