import ModelMint.Proofs.Text.AttributeNames

/-!
# The form of attributes

An attribute is a plain name of small letters, digits and single underscores.  An
underscore leads it only before a digit, and ends it only behind a word that no attribute
may be.  The texts of this form are left as they are, so they are all attributes there are.
-/

namespace ModelMint.Text

structure IsAttribute (text : List Char) : Prop where
  identifier : isIdentifier text = true
  notKeyword : isKeyword text = false
  notReceiver : text ≠ "self".toList
  notExport : text ≠ "to_dict".toList
  letters : ∀ c ∈ text, c.isLower = true ∨ c.isDigit = true ∨ c = '_'
  leading : ∀ rest, text = '_' :: rest → ∃ digit tail, rest = digit :: tail ∧ digit.isDigit = true
  parted : Parted text
  ending : ∀ word, text = word ++ ['_'] → isTaken word = true

/-! ## Attributes have the form -/

theorem letter_of_mem_attributeName {name : List Char} {c : Char} (h : c ∈ attributeName name) :
    c.isLower = true ∨ c.isDigit = true ∨ c = '_' := by
  have hword := (isWord_attributeName name).chars c h
  have hupper := not_isUpper_of_mem_attributeName h
  simpa [isWordChar, Char.isAlphanum, Char.isAlpha, hupper, or_assoc] using hword

theorem isTaken_of_attributeName {name word : List Char} (h : attributeName name = word ++ ['_']) :
    isTaken word = true := by
  rcases attributeName_cases name with ⟨htaken, hname⟩ | ⟨-, hname⟩ <;> rw [hname] at h
  · rwa [List.append_cancel_right h] at htaken
  · have hlast := (isStem_stem name).getLast?_led
    rw [h, List.getLast?_concat] at hlast
    exact absurd rfl hlast

theorem isAttribute_attributeName (name : List Char) : IsAttribute (attributeName name) where
  identifier := (isWord_attributeName name).isIdentifier
  notKeyword := not_isKeyword_attributeName name
  notReceiver := attributeName_ne_reserved name (by decide)
  notExport := attributeName_ne_reserved name (by decide)
  letters := fun _ => letter_of_mem_attributeName
  leading := fun _ => attributeName_underscore
  parted := parted_attributeName name
  ending := fun _ => isTaken_of_attributeName

/-! ## Texts of the form are attributes -/

section Form

variable {text : List Char}

theorem IsAttribute.not_isTaken (h : IsAttribute text) : isTaken text = false := by
  have hreceiver : ("self".toList == text) = false := beq_false_of_ne h.notReceiver.symm
  have hexport : ("to_dict".toList == text) = false := beq_false_of_ne h.notExport.symm
  rw [isTaken, h.notKeyword, reservedAttributes, List.any_cons, List.any_cons, hreceiver, hexport]
  rfl

theorem IsAttribute.not_isUpper (h : IsAttribute text) : ∀ c ∈ text, c.isUpper = false := by
  intro c hc
  rcases h.letters c hc with hlower | hdigit | rfl
  · simpa using Char.not_isUpper_of_isLower hlower
  · have halpha := isAlpha_of_isDigit hdigit
    rw [Char.isAlpha, Bool.or_eq_false_iff] at halpha
    exact halpha.1
  · decide

theorem IsAttribute.isWordChar (h : IsAttribute text) : ∀ c ∈ text, isWordChar c = true := by
  intro c hc
  rcases h.letters c hc with hlower | hdigit | rfl
  · simp [Text.isWordChar, Char.isAlphanum, Char.isAlpha, hlower]
  · simp [Text.isWordChar, Char.isAlphanum, hdigit]
  · decide

theorem IsAttribute.head_not_digit {c : Char} {rest : List Char} (h : IsAttribute (c :: rest)) :
    c.isDigit = false := by
  have hidentifier := h.identifier
  rw [isIdentifier, Bool.and_eq_true, isNameStart,
    if_pos (toNat_lt_of_isWordChar (h.isWordChar c List.mem_cons_self))] at hidentifier
  rw [← Bool.not_eq_true]
  intro hdigit
  have hne : c ≠ '_' := ne_underscore_of_isAlphanum (isAlphanum_of_isDigit hdigit)
  simp [isAlpha_of_isDigit hdigit, hne] at hidentifier

/-- A word that no attribute may be gets an underscore, and keeps it. -/
theorem attributeName_taken {word : List Char} (htaken : isTaken word = true)
    (hsmall : ∀ c ∈ word, c.isUpper = false) : attributeName (word ++ ['_']) = word ++ ['_'] := by
  have hall : ∀ taken ∈ keywords ++ reservedAttributes, taken.toList.any Char.isUpper = true ∨
      attributeName (taken.toList ++ ['_']) = taken.toList ++ ['_'] := by
    decide +kernel
  have hmem : ∃ taken ∈ keywords ++ reservedAttributes, taken.toList = word := by
    simpa [isTaken, isKeyword, or_and_right, exists_or] using htaken
  obtain ⟨taken, hmem, rfl⟩ := hmem
  rcases hall taken hmem with hupper | hkept
  · obtain ⟨c, hc, hupper⟩ := List.any_eq_true.mp hupper
    rw [hsmall c hc] at hupper
    cases hupper
  · exact hkept

theorem stem_led {stem : List Char} (h : IsStem stem) : Text.stem (led stem) = stem := by
  obtain ⟨front, hfront, hled⟩ := led_eq stem
  rw [hled, ← List.append_nil (front ++ stem)]
  exact stem_of_rims h hfront (.inl rfl)

/-- What no underscore ends is a stem, led by an underscore if it begins with a digit. -/
theorem IsAttribute.exists_stem (h : IsAttribute text) (hlast : text.getLast? ≠ some '_') :
    ∃ stem, IsStem stem ∧ led stem = text := by
  have hstem : ∀ front c rest, text = front ++ c :: rest → c ≠ '_' → IsStem (c :: rest) := by
    rintro front c rest rfl hc
    refine ⟨fun d hd => h.isWordChar d (List.mem_append_right front hd),
      fun d hd => h.not_isUpper d (List.mem_append_right front hd),
      List.IsChain.infix h.parted ⟨front, [], by simp⟩, ⟨c, rest, rfl, hc⟩,
      (c :: rest).dropLast, (c :: rest).getLast (List.cons_ne_nil c rest),
      (List.dropLast_append_getLast _).symm, fun hline => hlast ?_⟩
    rw [List.getLast?_append_of_ne_nil _ (List.cons_ne_nil c rest),
      List.getLast?_eq_some_getLast (List.cons_ne_nil c rest), hline]
  cases text with
  | nil => exact absurd h.identifier (by decide)
  | cons c rest =>
      by_cases hc : c = '_'
      · subst hc
        obtain ⟨digit, tail, rfl, hdigit⟩ := h.leading rest rfl
        have hne : digit ≠ '_' := ne_underscore_of_isAlphanum (isAlphanum_of_isDigit hdigit)
        refine ⟨digit :: tail, hstem ['_'] digit tail rfl hne, ?_⟩
        simp [led, hdigit]
      · refine ⟨c :: rest, hstem [] c rest rfl hc, ?_⟩
        have hdigit := h.head_not_digit
        simp [led, hdigit]

theorem attributeName_of_isAttribute (h : IsAttribute text) : attributeName text = text := by
  by_cases hlast : text.getLast? = some '_'
  · obtain ⟨word, rfl⟩ := List.getLast?_eq_some_iff.mp hlast
    exact attributeName_taken (h.ending word rfl)
      fun c hc => h.not_isUpper c (List.mem_append_left _ hc)
  · obtain ⟨stem, hstem, hled⟩ := h.exists_stem hlast
    rw [attributeName_eq, ← hled, stem_led hstem, dressed_eq_ended, hled, h.not_isTaken]
    exact if_neg (by decide)

end Form

/-- Every attribute has the form, and is the attribute that is made from itself; so is every text of
the form, and no other. -/
theorem attributes_keep_form (name : List Char) :
    IsAttribute (attributeName name) ∧
      attributeName (attributeName name) = attributeName name ∧
      ∀ text, attributeName text = text ↔ IsAttribute text := by
  refine ⟨isAttribute_attributeName name, attributeName_attributeName name, fun text => ?_⟩
  constructor
  · intro hfixed
    rw [← hfixed]
    exact isAttribute_attributeName text
  · exact attributeName_of_isAttribute

end ModelMint.Text
