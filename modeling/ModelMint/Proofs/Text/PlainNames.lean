import ModelMint.Proofs.Text.FirstCharacters

/-!
# Made names are plain

Names are made of ASCII letters, digits and underscores.  Where they do not begin with a
digit they are identifiers, and with an underscore among them no reserved words.  So the
name of a constant can be declared, whatever the property is called and the value is.
-/

namespace ModelMint.Text

/-! ## Words -/

/-- A letter, a digit or an underscore. -/
def isWordChar (c : Char) : Bool := c.isAlphanum || c == '_'

theorem toNat_lt_of_isWordChar {c : Char} (h : isWordChar c = true) : c.toNat < 128 := by
  simp only [isWordChar, Bool.or_eq_true, beq_iff_eq] at h
  rcases h with halnum | rfl
  · simp only [Char.isAlphanum, Char.isAlpha, Char.isUpper, Char.isLower, Char.isDigit,
      Bool.or_eq_true, Bool.and_eq_true, decide_eq_true_eq, UInt32.le_iff_toNat_le, ge_iff_le]
      at halnum
    have hcode : c.toNat = c.val.toNat := rfl
    have hupper : 'Z'.val.toNat = 90 := rfl
    have hlower : 'z'.val.toNat = 122 := rfl
    have hdigit : '9'.val.toNat = 57 := rfl
    omega
  · decide

theorem isNameContinue_of_isWordChar {c : Char} (h : isWordChar c = true) :
    isNameContinue c = true := by
  rw [isNameContinue, if_pos (toNat_lt_of_isWordChar h)]
  exact h

theorem isNameStart_of_isWordChar {c : Char} (h : isWordChar c = true) (hdigit : c.isDigit = false) :
    isNameStart c = true := by
  rw [isNameStart, if_pos (toNat_lt_of_isWordChar h)]
  simpa [isWordChar, Char.isAlphanum, hdigit] using h

/-- Word characters that do not begin with a digit. -/
structure IsWord (text : List Char) : Prop where
  chars : ∀ c ∈ text, isWordChar c = true
  head : ∃ c, text.head? = some c ∧ c.isDigit = false

theorem IsWord.isIdentifier {text : List Char} (h : IsWord text) : isIdentifier text = true := by
  obtain ⟨c, hhead, hdigit⟩ := h.head
  obtain ⟨rest, rfl⟩ := List.head?_eq_some_iff.mp hhead
  obtain ⟨hc, hrest⟩ := List.forall_mem_cons.mp h.chars
  rw [Text.isIdentifier, isNameStart_of_isWordChar hc hdigit, Bool.true_and, List.all_eq_true]
  exact fun d hd => isNameContinue_of_isWordChar (hrest d hd)

theorem IsWord.append {text more : List Char} (h : IsWord text)
    (hmore : ∀ c ∈ more, isWordChar c = true) : IsWord (text ++ more) where
  chars := List.forall_mem_append.mpr ⟨h.chars, hmore⟩
  head := by
    obtain ⟨c, hhead, hdigit⟩ := h.head
    exact ⟨c, by rw [List.head?_append, hhead, Option.some_or], hdigit⟩

theorem isWord_underscore {text : List Char} (h : ∀ c ∈ text, isWordChar c = true) :
    IsWord ('_' :: text) where
  chars := List.forall_mem_cons.mpr ⟨by decide, h⟩
  head := ⟨'_', rfl, by decide⟩

/-- No reserved word has an underscore. -/
theorem not_isKeyword_of_mem {text : List Char} (h : '_' ∈ text) : isKeyword text = false := by
  have hall : keywords.all (fun word => !word.toList.contains '_') = true := by decide
  rw [Bool.eq_false_iff]
  intro hkeyword
  obtain ⟨word, hword, hsame⟩ := List.any_eq_true.mp hkeyword
  have hplain := List.all_eq_true.mp hall word hword
  rw [beq_iff_eq.mp hsame] at hplain
  simp [h] at hplain

theorem isPlainName_of_underscore {text : List Char} (h : isIdentifier text = true)
    (hunderscore : '_' ∈ text) : isPlainName text = true := by
  rw [isPlainName, h, not_isKeyword_of_mem hunderscore]
  rfl

theorem IsWord.isPlainName {text : List Char} (h : IsWord text) (hunderscore : '_' ∈ text) :
    isPlainName text = true := isPlainName_of_underscore h.isIdentifier hunderscore

theorem IsWord.isPlainName_prefixed {front text : List Char} (h : IsWord text)
    (hfront : IsWord front) (hunderscore : '_' ∈ front) : Text.isPlainName (front ++ text) = true :=
  (hfront.append h.chars).isPlainName (List.mem_append_left _ hunderscore)

/-! ## Characters -/

/-- Letters stay letters, and other characters stay as they are. -/
theorem isWordChar_toLower {c : Char} (h : isWordChar c = true) : isWordChar c.toLower = true := by
  cases hupper : c.isUpper with
  | false => rwa [Char.toLower_eq_of_not_isUpper (by simp [hupper])]
  | true =>
      have halpha : c.toLower.isAlpha = true := by
        rw [Char.isAlpha_toLower_eq_isAlpha]
        simp [Char.isAlpha, hupper]
      simp [isWordChar, Char.isAlphanum, halpha]

theorem isWordChar_toUpper {c : Char} (h : isWordChar c = true) : isWordChar c.toUpper = true := by
  cases hlower : c.isLower with
  | false => rwa [Char.toUpper_eq_of_not_isLower (by simp [hlower])]
  | true =>
      have halpha : c.toUpper.isAlpha = true := by
        rw [Char.isAlpha_toUpper_eq_isAlpha]
        simp [Char.isAlpha, hlower]
      simp [isWordChar, Char.isAlphanum, halpha]

theorem isWordChar_collapse (text : List Char) : ∀ c ∈ collapse text, isWordChar c = true := by
  have hletter : ∀ c : Char, c.isAlphanum = true → isWordChar c = true := by
    intro c hc
    rw [isWordChar, hc]
    rfl
  have hline : isWordChar '_' = true := by decide
  fun_induction collapse text with
  | case1 => simp
  | case2 c rest hc ih => exact List.forall_mem_cons.mpr ⟨hletter c hc, ih⟩
  | case3 => simpa using hline
  | case4 c _ d rest hd ih => exact List.forall_mem_cons.mpr ⟨hline, ih⟩
  | case5 c _ d rest hd ih => exact ih

theorem isWordChar_stripUnderscores {text : List Char} (h : ∀ c ∈ text, isWordChar c = true) :
    ∀ c ∈ stripUnderscores text, isWordChar c = true := by
  intro c hc
  rw [stripUnderscores, List.mem_reverse] at hc
  exact h c (List.dropWhile_subset _ (List.mem_reverse.mp (List.dropWhile_subset _ hc)))

/-! ## Constants -/

theorem isWordChar_highSnakeCase (name : List Char) :
    ∀ c ∈ highSnakeCase name, isWordChar c = true := by
  rw [highSnakeCase, List.forall_mem_map]
  exact fun c hc => isWordChar_toUpper (isWordChar_collapse _ c hc)

/-- The prefix of the constants is empty where the property has no name. -/
theorem constantPrefix_cases (name : List Char) :
    constantPrefix name = [] ∨ IsWord (constantPrefix name) := by
  have hchars := isWordChar_highSnakeCase name
  unfold constantPrefix
  cases hbody : highSnakeCase name with
  | nil => exact .inl rfl
  | cons c rest =>
      rw [hbody] at hchars
      refine .inr ?_
      simp only
      cases hdigit : c.isDigit with
      | true => exact isWord_underscore hchars
      | false => exact ⟨hchars, c, rfl, hdigit⟩

end ModelMint.Text

namespace ModelMint.Blueprint

theorem Constant.isPlainName_ofValue (property : String) (value : Json) :
    Text.isPlainName (Constant.ofValue property value).name.toList = true := by
  rw [Constant.ofValue, String.toList_ofList]
  have hvalue := Text.isWordChar_collapse value.plain
  refine Text.IsWord.isPlainName ?_ (by simp)
  rcases Text.constantPrefix_cases property.toList with hnil | hword
  · rw [hnil]
    exact Text.isWord_underscore hvalue
  · exact hword.append (List.forall_mem_cons.mpr ⟨by decide, hvalue⟩)

end ModelMint.Blueprint
