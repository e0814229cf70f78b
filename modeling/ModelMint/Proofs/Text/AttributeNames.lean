import ModelMint.Proofs.Text.PlainNames
import ModelMint.Proofs.Text.Underscores

/-!
# Attributes

An attribute is the stem of a name, the words of the name in small letters, dressed where
the stem may be no attribute: an underscore goes before a digit, and one behind a word that
is reserved or taken.  So all attributes have one form, and an attribute is the attribute
that is made from itself.  A key that is the attribute of one property and the name of
another belongs to properties of one attribute.
-/

namespace ModelMint.Text

/-! ## Stems -/

/-- What an attribute is made of: small letters, digits and single underscores between them. -/
structure IsStem (text : List Char) : Prop where
  chars : ∀ c ∈ text, isWordChar c = true
  small : ∀ c ∈ text, c.isUpper = false
  parted : Parted text
  first : ∃ c rest, text = c :: rest ∧ c ≠ '_'
  last : ∃ front c, text = front ++ [c] ∧ c ≠ '_'

/-- The words of a name, or the one for no words. -/
def stem (name : List Char) : List Char :=
  let words := (stripUnderscores (collapse (markWords name))).map Char.toLower
  if words.isEmpty then "field".toList else words

theorem isStem_stem (name : List Char) : IsStem (stem name) := by
  have hchars : ∀ c ∈ stripUnderscores (collapse (markWords name)), isWordChar c = true :=
    isWordChar_stripUnderscores (isWordChar_collapse _)
  have hparted : Parted (stripUnderscores (collapse (markWords name))) :=
    (parted_collapse _).stripUnderscores
  have hends := stripUnderscores_ends (collapse (markWords name))
  unfold stem
  generalize stripUnderscores (collapse (markWords name)) = words at hchars hparted hends
  cases words with
  | nil =>
      have hletters : ("field".toList.all fun c => isWordChar c && !c.isUpper) = true := by decide
      have hfield : Parted "field".toList := by
        simp [Parted]
      refine ⟨fun c hc => ?_, fun c hc => ?_, hfield, ⟨'f', _, rfl, by decide⟩,
        ⟨"fiel".toList, 'd', rfl, by decide⟩⟩
      · have := List.all_eq_true.mp hletters c hc
        simp_all
      · have := List.all_eq_true.mp hletters c hc
        simp_all
  | cons first rest =>
      obtain ⟨⟨c, others, hcons, hc⟩, front, d, hsnoc, hd⟩ := hends (List.cons_ne_nil _ _)
      refine ⟨?_, ?_, hparted.map fun c => eq_of_toLower_eq (by decide), ?_, ?_⟩
      · intro d hd
        obtain ⟨given, hgiven, rfl⟩ := List.mem_map.mp hd
        exact isWordChar_toLower (hchars given hgiven)
      · intro d hd
        obtain ⟨given, -, rfl⟩ := List.mem_map.mp hd
        exact Char.isUpper_toLower_eq_false given
      · exact ⟨c.toLower, others.map Char.toLower, by rw [hcons]; rfl, toLower_ne_underscore hc⟩
      · refine ⟨front.map Char.toLower, d.toLower, ?_, toLower_ne_underscore hd⟩
        rw [hsnoc]
        simp

/-! ## Dressed stems -/

/-- One underscore or none. -/
def IsRim (text : List Char) : Prop := text = [] ∨ text = ['_']

/-- What an attribute becomes by what it may not be: led by a digit, reserved, or taken. -/
def dressed (stem : List Char) : List Char :=
  let body := if stem.head?.any Char.isDigit then '_' :: stem else stem
  let body := if isKeyword body then body ++ ['_'] else body
  if reservedAttributes.any (·.toList == body) then body ++ ['_'] else body

theorem attributeName_eq (name : List Char) : attributeName name = dressed (stem name) := rfl

/-- The words that no attribute may be. -/
def isTaken (word : List Char) : Bool :=
  isKeyword word || reservedAttributes.any (·.toList == word)

def led (stem : List Char) : List Char :=
  if stem.head?.any Char.isDigit then '_' :: stem else stem

theorem not_reserved_of_ending (body : List Char) :
    reservedAttributes.any (·.toList == body ++ ['_']) = false := by
  rw [← Bool.not_eq_true, List.any_eq_true]
  rintro ⟨word, hword, hsame⟩
  have hlast := congrArg List.getLast? (beq_iff_eq.mp hsame)
  simp only [reservedAttributes, List.mem_cons, List.not_mem_nil, or_false] at hword
  rcases hword with rfl | rfl <;> simp at hlast

theorem dressed_eq_ended (stem : List Char) :
    dressed stem = if isTaken (led stem) then led stem ++ ['_'] else led stem := by
  have hending : ∀ body : List Char,
      (let whole := if isKeyword body then body ++ ['_'] else body
        if reservedAttributes.any (·.toList == whole) then whole ++ ['_'] else whole) =
        if isTaken body then body ++ ['_'] else body := by
    intro body
    unfold isTaken
    cases isKeyword body with
    | true => simp [not_reserved_of_ending]
    | false => rfl
  exact hending (led stem)

theorem led_eq (stem : List Char) : ∃ front, IsRim front ∧ led stem = front ++ stem := by
  unfold led
  split
  · exact ⟨['_'], .inr rfl, rfl⟩
  · exact ⟨[], .inl rfl, rfl⟩

theorem dressed_eq (stem : List Char) :
    ∃ front ending, IsRim front ∧ IsRim ending ∧ dressed stem = front ++ stem ++ ending := by
  obtain ⟨front, hfront, hled⟩ := led_eq stem
  rw [dressed_eq_ended, hled]
  split
  · exact ⟨front, ['_'], hfront, .inr rfl, rfl⟩
  · exact ⟨front, [], hfront, .inl rfl, (List.append_nil _).symm⟩

theorem IsStem.parted_rims {text front ending : List Char} (h : IsStem text) (hfront : IsRim front)
    (hending : IsRim ending) : Parted (front ++ text ++ ending) := by
  obtain ⟨c, rest, hcons, hc⟩ := h.first
  obtain ⟨before, d, hsnoc, hd⟩ := h.last
  have hled : Parted (front ++ text) := by
    rcases hfront with rfl | rfl
    · exact h.parted
    · rw [hcons]
      exact List.isChain_cons_cons.mpr ⟨fun _ => hc, hcons ▸ h.parted⟩
  rcases hending with rfl | rfl
  · simpa using hled
  · unfold Parted at hled ⊢
    rw [List.isChain_append]
    refine ⟨hled, .singleton _, ?_⟩
    intro x hx y _ hline
    rw [hsnoc, ← List.append_assoc, List.getLast?_concat] at hx
    obtain rfl := Option.mem_some_iff.mp hx
    exact absurd hline hd

/-! ## The form of attributes -/

section Led

variable {text rest : List Char}

theorem IsStem.isWord_led (h : IsStem text) : IsWord (led text) := by
  obtain ⟨c, rest, rfl, -⟩ := h.first
  unfold led
  cases hdigit : c.isDigit with
  | true => simpa [hdigit] using isWord_underscore h.chars
  | false => simpa [hdigit] using (⟨h.chars, c, rfl, hdigit⟩ : IsWord (c :: rest))

theorem IsStem.not_isUpper_led (h : IsStem text) : ∀ c ∈ led text, c.isUpper = false := by
  unfold led
  split
  · exact List.forall_mem_cons.mpr ⟨by decide, h.small⟩
  · exact h.small

theorem IsStem.getLast?_led (h : IsStem text) : (led text).getLast? ≠ some '_' := by
  obtain ⟨before, c, hsnoc, hc⟩ := h.last
  obtain ⟨front, -, hled⟩ := led_eq text
  rw [hled, hsnoc, ← List.append_assoc, List.getLast?_concat]
  simpa using hc

/-- An underscore goes before a digit only. -/
theorem IsStem.led_underscore (h : IsStem text) (hled : led text = '_' :: rest) :
    rest = text ∧ ∃ digit tail, text = digit :: tail ∧ digit.isDigit = true := by
  obtain ⟨c, others, rfl, hc⟩ := h.first
  unfold led at hled
  split at hled
  next hdigit =>
    cases hled
    exact ⟨rfl, c, others, rfl, by simpa using hdigit⟩
  next =>
    exact absurd (List.cons.inj hled).1 hc

end Led

theorem attributeName_cases (name : List Char) :
    (isTaken (led (stem name)) = true ∧ attributeName name = led (stem name) ++ ['_']) ∨
      (isTaken (led (stem name)) = false ∧ attributeName name = led (stem name)) := by
  rw [attributeName_eq, dressed_eq_ended]
  cases isTaken (led (stem name)) with
  | true => exact .inl ⟨rfl, rfl⟩
  | false => exact .inr ⟨rfl, rfl⟩

section Attributes

variable {name rest : List Char}

theorem isWord_attributeName (name : List Char) : IsWord (attributeName name) := by
  have hled := (isStem_stem name).isWord_led
  rcases attributeName_cases name with ⟨-, hname⟩ | ⟨-, hname⟩ <;> rw [hname]
  · exact hled.append (List.forall_mem_singleton.mpr (by decide))
  · exact hled

theorem not_isKeyword_attributeName (name : List Char) : isKeyword (attributeName name) = false := by
  rcases attributeName_cases name with ⟨-, hname⟩ | ⟨hfree, hname⟩ <;> rw [hname]
  · exact not_isKeyword_of_mem (by simp)
  · exact (Bool.or_eq_false_iff.mp hfree).1

theorem isPlainName_attributeName (name : List Char) : isPlainName (attributeName name) = true := by
  rw [isPlainName, (isWord_attributeName name).isIdentifier, not_isKeyword_attributeName]
  rfl

theorem attributeName_ne_reserved (name : List Char) {reserved : String}
    (h : reserved ∈ reservedAttributes) : attributeName name ≠ reserved.toList := by
  have hnone : reservedAttributes.any (·.toList == attributeName name) = false := by
    rcases attributeName_cases name with ⟨-, hname⟩ | ⟨hfree, hname⟩ <;> rw [hname]
    · exact not_reserved_of_ending _
    · exact (Bool.or_eq_false_iff.mp hfree).2
  intro hsame
  have hdiffers := List.any_eq_false.mp hnone reserved h
  simp [hsame] at hdiffers

theorem not_isUpper_of_mem_attributeName {c : Char} (h : c ∈ attributeName name) :
    c.isUpper = false := by
  have hled := (isStem_stem name).not_isUpper_led
  have hall : ∀ c ∈ attributeName name, c.isUpper = false := by
    rcases attributeName_cases name with ⟨-, hname⟩ | ⟨-, hname⟩ <;> rw [hname]
    · exact List.forall_mem_append.mpr ⟨hled, List.forall_mem_singleton.mpr (by decide)⟩
    · exact hled
  exact hall c h

theorem parted_attributeName (name : List Char) : Parted (attributeName name) := by
  obtain ⟨front, ending, hfront, hending, hdressed⟩ := dressed_eq (stem name)
  rw [attributeName_eq, hdressed]
  exact (isStem_stem name).parted_rims hfront hending

theorem led_prefix_attributeName (name : List Char) : led (stem name) <+: attributeName name := by
  rcases attributeName_cases name with ⟨-, hname⟩ | ⟨-, hname⟩ <;> rw [hname]
  exact List.prefix_append _ _

theorem exists_led_of_attributeName (h : attributeName name = '_' :: rest) :
    ∃ others, led (stem name) = '_' :: others ∧ others <+: rest := by
  obtain ⟨c, hhead, -⟩ := (isStem_stem name).isWord_led.head
  obtain ⟨others, hled⟩ := List.head?_eq_some_iff.mp hhead
  have hprefix := led_prefix_attributeName name
  rw [hled, h, List.cons_prefix_cons] at hprefix
  exact ⟨others, by rw [hled, hprefix.1], hprefix.2⟩

theorem attributeName_underscore (h : attributeName name = '_' :: rest) :
    ∃ digit tail, rest = digit :: tail ∧ digit.isDigit = true := by
  obtain ⟨others, hled, ending, rfl⟩ := exists_led_of_attributeName h
  obtain ⟨rfl, digit, tail, hstem, hdigit⟩ := (isStem_stem name).led_underscore hled
  exact ⟨digit, tail ++ ending, by rw [hstem, List.cons_append], hdigit⟩

/-- An attribute begins with an underscore only where the name is led by a digit. -/
theorem isNumbered_of_attributeName (h : attributeName name = '_' :: rest) :
    isNumbered name = true := by
  obtain ⟨others, hled, -⟩ := exists_led_of_attributeName h
  obtain ⟨-, digit, tail, hstem, hdigit⟩ := (isStem_stem name).led_underscore hled
  have hfind : (stripUnderscores (collapse (markWords name))).find? Char.isAlphanum =
      name.find? Char.isAlphanum := by
    rw [find?_stripUnderscores, find?_collapse, find?_markWords]
  rw [isNumbered, ← hfind]
  unfold stem at hstem
  generalize stripUnderscores (collapse (markWords name)) = words at hstem
  cases words with
  | nil =>
      cases hstem
      cases hdigit
  | cons first others =>
      obtain rfl : first = digit :=
        eq_of_toLower_eq (isAlpha_of_isDigit hdigit) (List.cons.inj hstem).1
      simp [isAlphanum_of_isDigit hdigit, hdigit]

end Attributes

/-! ## Texts that are left as they are -/

theorem isAlphanum_of_isWordChar {c : Char} (h : isWordChar c = true)
    (hline : c ≠ '_') : c.isAlphanum = true := by
  simpa [isWordChar, hline] using h

theorem collapse_eq_self {text : List Char}
    (hchars : ∀ c ∈ text, isWordChar c = true) (hparted : Parted text) :
    collapse text = text := by
  induction text with
  | nil => rfl
  | cons c rest ih =>
      obtain ⟨hc, hrest⟩ := List.forall_mem_cons.mp hchars
      have htail := ih hrest (List.isChain_cons.mp hparted).2
      by_cases hline : c = '_'
      · subst hline
        cases rest with
        | nil => rfl
        | cons d rest =>
            have hne : d ≠ '_' := (List.isChain_cons_cons.mp hparted).1 rfl
            have hd := isAlphanum_of_isWordChar (hrest d List.mem_cons_self) hne
            rw [collapse.eq_def]
            simp only [show Char.isAlphanum '_' = false by decide, Bool.false_eq_true, if_false, hd,
              if_true, htail]
      · rw [collapse_of_isAlphanum (isAlphanum_of_isWordChar hc hline), htail]

theorem startsWord_of_not_isUpper {before here : Char} {after : Option Char}
    (h : here.isUpper = false) : startsWord before here after = false := by
  simp [startsWord, h]

theorem markWords_eq_self {name : List Char} (h : ∀ c ∈ name, c.isUpper = false) :
    markWords name = name := by
  fun_induction markWords name with
  | case1 => rfl
  | case2 => rfl
  | case3 before here rest hstart ih =>
      rw [startsWord_of_not_isUpper (h here (by simp))] at hstart
      cases hstart
  | case4 before here rest hstart ih =>
      rw [ih fun c hc => h c (List.mem_cons_of_mem _ hc)]

theorem map_toLower_eq_self {name : List Char} (h : ∀ c ∈ name, c.isUpper = false) :
    name.map Char.toLower = name := by
  rw [List.map_congr_left (g := id) fun c hc => by
    exact Char.toLower_eq_of_not_isUpper (by simp [h c hc])]
  exact List.map_id name

theorem stem_of_rims {text front ending : List Char} (h : IsStem text) (hfront : IsRim front)
    (hending : IsRim ending) : stem (front ++ text ++ ending) = text := by
  have hall : ∀ {P : Char → Prop}, P '_' → (∀ c ∈ text, P c) → ∀ c ∈ front ++ text ++ ending, P c := by
    intro P hline htext c hc
    rcases hfront with rfl | rfl <;> rcases hending with rfl | rfl <;>
      simp only [List.nil_append, List.append_nil, List.cons_append, List.mem_append,
        List.mem_cons, List.not_mem_nil, or_false] at hc <;> grind
  have hparted : Parted (front ++ text ++ ending) := h.parted_rims hfront hending
  have hline : ∀ {rim : List Char}, IsRim rim → ∀ c ∈ rim, c = '_' := by
    rintro rim (rfl | rfl) <;> simp
  have hempty : text.isEmpty = false := by
    obtain ⟨c, rest, rfl, -⟩ := h.first
    rfl
  unfold stem
  rw [markWords_eq_self (hall (by decide) h.small), collapse_eq_self (hall (by decide) h.chars) hparted,
    stripUnderscores_of_ends (hline hfront) (hline hending) h.first h.last,
    map_toLower_eq_self h.small]
  simp [hempty]

theorem attributeName_attributeName (name : List Char) :
    attributeName (attributeName name) = attributeName name := by
  obtain ⟨front, ending, hfront, hending, hdressed⟩ := dressed_eq (stem name)
  rw [attributeName_eq (attributeName name), attributeName_eq name, hdressed,
    stem_of_rims (isStem_stem name) hfront hending, ← hdressed]

end ModelMint.Text
