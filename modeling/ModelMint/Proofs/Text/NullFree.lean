import ModelMint.Proofs.Text.AttributeNames
import ModelMint.Proofs.Text.Visible
import ModelMint.Proofs.Text.Wrapped

/-!
# Texts without null characters

The reader of source texts knows no null character.  Quoted forms never hold one, and
what cuts a text, wraps it or makes a name of it adds none.
-/

namespace ModelMint.Text

def NullFree (text : List Char) : Prop := '\x00' ∉ text

instance (text : List Char) : Decidable (NullFree text) := inferInstanceAs (Decidable (_ ∉ _))

section Lists

variable {c : Char} {text rest : List Char}

@[simp] theorem nullFree_nil : NullFree [] := List.not_mem_nil

@[simp] theorem nullFree_cons : NullFree (c :: rest) ↔ c ≠ '\x00' ∧ NullFree rest := by
  simp [NullFree, eq_comm]

@[simp] theorem nullFree_append :
    NullFree (text ++ rest) ↔ NullFree text ∧ NullFree rest := by
  simp [NullFree]

@[simp] theorem nullFree_reverse : NullFree text.reverse ↔ NullFree text := by
  simp [NullFree]

theorem NullFree.of_subset (h : NullFree text) (hsub : rest ⊆ text) : NullFree rest :=
  fun hmem => h (hsub hmem)

theorem nullFree_flatMap {α : Type} {items : List α} {f : α → List Char} :
    NullFree (items.flatMap f) ↔ ∀ item ∈ items, NullFree (f item) := by
  simp [NullFree]

theorem Visible.nullFree (h : Visible text) : NullFree text := h.not_mem (by decide)

end Lists

/-! ## Quoted texts -/

theorem nullFree_hexDigits (width value : Nat) : NullFree (hexDigits width value) :=
  (visible_hexDigits width value).nullFree

theorem nullFree_codeEscape (code : Nat) : NullFree (codeEscape code) := by
  unfold codeEscape
  split
  · simp [nullFree_hexDigits]
  · split <;> simp [nullFree_hexDigits]

theorem nullFree_showChar (mark c : Char) (hmark : mark ≠ '\x00') : NullFree (showChar mark c) := by
  unfold showChar
  split
  next h =>
    have hplain : c ≠ '\x00' := by
      rintro rfl
      simp only [Bool.or_eq_true, beq_iff_eq] at h
      rcases h with h | h
      · exact hmark h.symm
      · cases h
    simp [hplain]
  · split
    · simp
    · split
      · simp
      · split
        · simp
        · split
          next h =>
            have hplain : c ≠ '\x00' := by
              rintro rfl
              revert h
              decide
            simp [hplain]
          · exact nullFree_codeEscape _

theorem nullFree_shown (text : List Char) : NullFree (shown text) := by
  have hmark : quoteMark text ≠ '\x00' := by
    unfold quoteMark
    split <;> decide
  rw [shown, nullFree_cons, nullFree_append, nullFree_flatMap]
  exact ⟨hmark, fun c _ => nullFree_showChar _ c hmark, by simp [hmark]⟩

/-! ## Lines -/

theorem nullFree_splitLines {text : List Char} (h : NullFree text) :
    ∀ line ∈ splitLines text, NullFree line := by
  fun_induction splitLines text with
  | case1 => simp
  | case2 rest ih => simpa using ih (by simpa using h)
  | case3 c rest _ _ ih => simpa using ih (nullFree_cons.mp h).2
  | case4 c rest _ _ hrest ih => simpa using (nullFree_cons.mp h).1
  | case5 c rest _ _ line lines hrest ih =>
      obtain ⟨hc, hothers⟩ := nullFree_cons.mp h
      have hlines := ih hothers
      rw [hrest, List.forall_mem_cons] at hlines
      rw [List.forall_mem_cons, nullFree_cons]
      exact ⟨⟨hc, hlines.1⟩, hlines.2⟩

theorem nullFree_parts {mark : Char} {text : List Char} (h : NullFree text) :
    ∀ part ∈ parts mark text, NullFree part := by
  fun_induction parts mark text with
  | case1 => simp
  | case2 c rest _ ih => simpa using ih (nullFree_cons.mp h).2
  | case3 c rest _ hnil ih => simpa using (nullFree_cons.mp h).1
  | case4 c rest _ part others hparts ih =>
      obtain ⟨hc, hothers⟩ := nullFree_cons.mp h
      have hrest := ih hothers
      rw [hparts, List.forall_mem_cons] at hrest
      rw [List.forall_mem_cons, nullFree_cons]
      exact ⟨⟨hc, hrest.1⟩, hrest.2⟩

/-! ## Wrapped lines -/

theorem nullFree_iff {text : List Char} : NullFree text ↔ ∀ c ∈ text, c ≠ '\x00' :=
  ⟨fun h _ hc hnull => h (hnull ▸ hc), fun h hmem => h _ hmem rfl⟩

theorem nullFree_wrapLines (limit : Nat) {lines : List (List Char)}
    (h : ∀ line ∈ lines, NullFree line) : ∀ line ∈ wrapLines limit lines, NullFree line := by
  simp only [nullFree_iff] at h ⊢
  exact forall_mem_wrapLines (by decide) limit h

/-! ## Names -/

theorem nullFree_of_isWordChar {text : List Char} (h : ∀ c ∈ text, isWordChar c = true) :
    NullFree text := by
  rw [nullFree_iff]
  rintro c hc rfl
  exact absurd (h _ hc) (by decide)

/-- Letters, digits and underscores are all that is left. -/
theorem nullFree_collapse (text : List Char) : NullFree (collapse text) :=
  nullFree_of_isWordChar (isWordChar_collapse text)

theorem nullFree_constantPrefix (name : List Char) : NullFree (constantPrefix name) := by
  rcases constantPrefix_cases name with hnil | hword
  · rw [hnil]
    exact nullFree_nil
  · exact nullFree_of_isWordChar hword.chars

theorem nullFree_attributeName (name : List Char) : NullFree (attributeName name) :=
  nullFree_of_isWordChar (isWord_attributeName name).chars

end ModelMint.Text
