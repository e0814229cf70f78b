import ModelMint.Proofs.Text.FirstCharacters

/-!
# Underscores in made names

Every run of other characters becomes one underscore, so a made name has no two in a row
but where the prefix of a constant meets the word of its value.  An underscore in front
of a digit is there only for a name whose first letter or digit is a digit.
-/

namespace ModelMint.Text

/-! ## Single underscores -/

/-- No two underscores in a row. -/
def Parted (text : List Char) : Prop := text.IsChain fun c d => c = '_' → d ≠ '_'

theorem ne_underscore_of_isAlphanum {c : Char} (h : c.isAlphanum = true) : c ≠ '_' := by
  rintro rfl
  exact absurd h (by decide)

theorem collapse_of_isAlphanum {c : Char} (h : c.isAlphanum = true) (rest : List Char) :
    collapse (c :: rest) = c :: collapse rest := by
  rw [collapse.eq_def]
  exact if_pos h

theorem parted_collapse (text : List Char) : Parted (collapse text) := by
  unfold Parted
  fun_induction collapse text with
  | case1 => exact .nil
  | case2 c rest hc ih =>
      rw [List.isChain_cons]
      exact ⟨fun _ _ hline => absurd hline (ne_underscore_of_isAlphanum hc), ih⟩
  | case3 => exact .singleton _
  | case4 c _ d rest hd ih =>
      rw [collapse_of_isAlphanum hd] at ih ⊢
      exact List.isChain_cons_cons.mpr ⟨fun _ => ne_underscore_of_isAlphanum hd, ih⟩
  | case5 c _ d rest hd ih => exact ih

theorem Parted.not_infix {text : List Char} (h : Parted text) : ¬ ['_', '_'] <:+: text := by
  intro hinfix
  have hpair : Parted ['_', '_'] := List.IsChain.infix h hinfix
  exact (List.isChain_cons_cons.mp hpair).1 rfl rfl

theorem Parted.map {text : List Char} (h : Parted text) {f : Char → Char}
    (hf : ∀ c, f c = '_' → c = '_') : Parted (text.map f) := by
  unfold Parted
  rw [List.isChain_map]
  exact h.imp fun c d hline hc hd => hline (hf c hc) (hf d hd)

theorem collapse_ne_nil {text : List Char} (h : text ≠ []) : collapse text ≠ [] := by
  fun_induction collapse text with
  | case1 => exact absurd rfl h
  | case2 => exact List.cons_ne_nil _ _
  | case3 => exact List.cons_ne_nil _ _
  | case4 => exact List.cons_ne_nil _ _
  | case5 c _ d rest hd ih => exact ih (List.cons_ne_nil _ _)

theorem constantPrefix_eq_nil {name : List Char} : constantPrefix name = [] ↔ name = [] := by
  constructor
  · intro h
    by_contra hname
    cases name with
    | nil => exact hname rfl
    | cons c rest =>
        unfold constantPrefix at h
        have hbody : highSnakeCase (c :: rest) ≠ [] := by
          rw [highSnakeCase, ne_eq, List.map_eq_nil_iff]
          exact collapse_ne_nil (by simp [markCapitals])
        cases hcase : highSnakeCase (c :: rest) with
        | nil => exact hbody hcase
        | cons first others =>
            rw [hcase] at h
            simp only at h
            split at h <;> cases h
  · rintro rfl
    rfl

/-- The prefix of a constant does not begin with two underscores. -/
theorem constantPrefix_second {name rest : List Char} {c : Char}
    (h : constantPrefix name = '_' :: c :: rest) : c ≠ '_' := by
  have hparted : Parted (highSnakeCase name) :=
    (parted_collapse _).map fun c => eq_of_toUpper_eq (by decide)
  unfold constantPrefix at h
  generalize highSnakeCase name = body at h hparted
  cases body with
  | nil => cases h
  | cons first others =>
      simp only at h
      split at h
      next hdigit =>
        cases h
        rintro rfl
        exact absurd hdigit (by decide)
      · cases h
        exact (List.isChain_cons_cons.mp hparted).1 rfl

/-! ## Stripped ends -/

/-- Taking underscores away at the end leaves what was there. -/
theorem stripUnderscores_append (text : List Char) :
    ∃ ending, (∀ c ∈ ending, c = '_') ∧
      text.dropWhile (· == '_') = stripUnderscores text ++ ending :=
  ⟨_, fun _ hc => by simpa using List.mem_rtakeWhile_imp hc,
    List.rdropWhile_append_rtakeWhile.symm⟩

theorem stripUnderscores_ends (text : List Char) (h : stripUnderscores text ≠ []) :
    (∃ c rest, stripUnderscores text = c :: rest ∧ c ≠ '_') ∧
      ∃ front c, stripUnderscores text = front ++ [c] ∧ c ≠ '_' := by
  constructor
  · obtain ⟨c, rest, hcons⟩ := List.exists_cons_of_ne_nil h
    obtain ⟨ending, -, hdrop⟩ := stripUnderscores_append text
    have hhead := List.head?_dropWhile_not (· == '_') text
    rw [hdrop, hcons] at hhead
    exact ⟨c, rest, hcons, by simpa using hhead⟩
  · have hlast : ¬ ((stripUnderscores text).getLast h == '_') = true :=
      List.rdropWhile_last_not (· == '_') (text.dropWhile (· == '_')) h
    exact ⟨(stripUnderscores text).dropLast, (stripUnderscores text).getLast h,
      (List.dropLast_append_getLast h).symm, by simpa using hlast⟩

theorem Parted.stripUnderscores {text : List Char} (h : Parted text) :
    Parted (stripUnderscores text) := by
  have hinfix : Text.stripUnderscores text <:+: text := by
    obtain ⟨ending, -, hdrop⟩ := stripUnderscores_append text
    obtain ⟨front, hfront⟩ := List.dropWhile_suffix (l := text) (· == '_')
    exact ⟨front, ending, by rw [List.append_assoc, ← hdrop, hfront]⟩
  exact List.IsChain.infix h hinfix

theorem stripUnderscores_of_ends {text front ending : List Char}
    (hfront : ∀ c ∈ front, c = '_') (hending : ∀ c ∈ ending, c = '_')
    (hfirst : ∃ c rest, text = c :: rest ∧ c ≠ '_')
    (hlast : ∃ before c, text = before ++ [c] ∧ c ≠ '_') :
    stripUnderscores (front ++ text ++ ending) = text := by
  obtain ⟨c, rest, hcons, hc⟩ := hfirst
  obtain ⟨before, d, hsnoc, hd⟩ := hlast
  have hdrop : (front ++ text ++ ending).dropWhile (· == '_') = text ++ ending := by
    rw [List.append_assoc, List.dropWhile_append_of_pos (by simpa using hfront), hcons,
      List.cons_append, List.dropWhile_cons_of_neg (by simpa using hc)]
  have hback : (text ++ ending).reverse.dropWhile (· == '_') = text.reverse := by
    rw [List.reverse_append, List.dropWhile_append_of_pos (by simpa using hending), hsnoc,
      List.reverse_append, List.reverse_singleton, List.singleton_append,
      List.dropWhile_cons_of_neg (by simpa using hd)]
  rw [stripUnderscores, hdrop, hback, List.reverse_reverse]

/-! ## Names led by a digit -/

/-- Whether the first letter or digit is a digit. -/
def isNumbered (name : List Char) : Bool := (name.find? Char.isAlphanum).any Char.isDigit

theorem isAlphanum_of_isDigit {c : Char} (h : c.isDigit = true) : c.isAlphanum = true := by
  simp [Char.isAlphanum, h]

theorem isAlpha_of_isDigit {c : Char} (h : c.isDigit = true) : c.isAlpha = false := by
  rw [← Bool.not_eq_true]
  intro halpha
  simp only [Char.isDigit, Char.isAlpha, Char.isUpper, Char.isLower, Bool.and_eq_true,
    Bool.or_eq_true, decide_eq_true_eq, ge_iff_le, UInt32.le_iff_toNat_le] at h halpha
  have hupper : 'A'.val.toNat = 65 := rfl
  have hlower : 'a'.val.toNat = 97 := rfl
  have hnine : '9'.val.toNat = 57 := rfl
  omega

theorem find?_collapse (text : List Char) :
    (collapse text).find? Char.isAlphanum = text.find? Char.isAlphanum := by
  fun_induction collapse text with
  | case1 => rfl
  | case2 c rest hc => simp [hc]
  | case3 c hc =>
      rw [List.find?_cons_of_neg hc, List.find?_cons_of_neg (by decide)]
  | case4 c hc d rest hd ih =>
      rw [List.find?_cons_of_neg (by decide), ih, List.find?_cons_of_neg hc]
  | case5 c hc d rest hd ih => rw [ih, List.find?_cons_of_neg hc]

theorem find?_markWords (name : List Char) :
    (markWords name).find? Char.isAlphanum = name.find? Char.isAlphanum := by
  fun_induction markWords name with
  | case1 => rfl
  | case2 => rfl
  | case3 before here rest hstart ih =>
      have hline : ('_' :: markWords (here :: rest)).find? Char.isAlphanum =
          (here :: rest).find? Char.isAlphanum := by
        rw [List.find?_cons_of_neg (by decide), ih]
      cases hbefore : before.isAlphanum with
      | true => simp [hbefore]
      | false =>
          have hskip : ¬ before.isAlphanum = true := by simp [hbefore]
          rw [List.find?_cons_of_neg hskip, hline, List.find?_cons_of_neg hskip]
  | case4 before here rest hstart ih => rw [List.find?_cons, List.find?_cons, ih]

theorem find?_markCapitals (name : List Char) :
    (markCapitals name).find? Char.isAlphanum = name.find? Char.isAlphanum := by
  have hrest : ∀ rest : List Char,
      (rest.flatMap fun d => if d.isUpper then ['_', d] else [d]).find? Char.isAlphanum =
        rest.find? Char.isAlphanum := by
    intro rest
    induction rest with
    | nil => rfl
    | cons d rest ih =>
        rw [List.flatMap_cons, List.find?_append, ih]
        cases hd : d.isAlphanum <;> split <;>
          simp [hd, show Char.isAlphanum '_' = false by decide]
  cases name with
  | nil => rfl
  | cons c rest => rw [markCapitals, List.find?_cons, List.find?_cons, hrest]

theorem find?_dropWhile (text : List Char) :
    (text.dropWhile (· == '_')).find? Char.isAlphanum = text.find? Char.isAlphanum := by
  induction text with
  | nil => rfl
  | cons c rest ih =>
      by_cases hc : c = '_'
      · subst hc
        rw [List.dropWhile_cons_of_pos (by simp), ih, List.find?_cons_of_neg (by decide)]
      · rw [List.dropWhile_cons_of_neg (by simpa using hc)]

theorem find?_stripUnderscores (text : List Char) :
    (stripUnderscores text).find? Char.isAlphanum = text.find? Char.isAlphanum := by
  obtain ⟨ending, hending, hdrop⟩ := stripUnderscores_append text
  have hnone : ending.find? Char.isAlphanum = none := by
    rw [List.find?_eq_none]
    intro c hc
    rw [hending c hc]
    decide
  rw [← find?_dropWhile text, hdrop, List.find?_append, hnone, Option.or_none]

/-- The prefix of a constant begins with an underscore and a digit only where the name is led by a
digit. -/
theorem isNumbered_of_constantPrefix {name rest : List Char} {digit : Char}
    (hdigit : digit.isDigit = true) (h : constantPrefix name = '_' :: digit :: rest) :
    isNumbered name = true := by
  have hfind : (collapse (markCapitals name)).find? Char.isAlphanum =
      name.find? Char.isAlphanum := by
    rw [find?_collapse, find?_markCapitals]
  rw [isNumbered, ← hfind]
  unfold constantPrefix highSnakeCase at h
  generalize collapse (markCapitals name) = collapsed at h
  have hupper : ∀ {c : Char}, c.toUpper = digit → c = digit :=
    eq_of_toUpper_eq (isAlpha_of_isDigit hdigit)
  cases collapsed with
  | nil => cases h
  | cons first others =>
      simp only [List.map_cons] at h
      split at h
      · obtain ⟨hfirst, -⟩ := List.cons.inj (List.cons.inj h).2
        obtain rfl := hupper hfirst
        simp [isAlphanum_of_isDigit hdigit, hdigit]
      · obtain ⟨hfirst, hrest⟩ := List.cons.inj h
        obtain rfl : first = '_' := eq_of_toUpper_eq (by decide) hfirst
        cases others with
        | nil => cases hrest
        | cons second others =>
            obtain rfl := hupper (List.cons.inj hrest).1
            simp [isAlphanum_of_isDigit hdigit, hdigit, show Char.isAlphanum '_' = false by decide]

end ModelMint.Text
