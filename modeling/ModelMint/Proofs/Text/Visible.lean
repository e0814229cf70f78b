import Mathlib.Tactic.SplitIfs
import ModelMint.Json.Shown
import ModelMint.Source.Literal

/-!
# Texts without control characters

Numbers and quoted texts in their written form hold no character before the blank, and so
no line end and no null character.  Neither does any literal.
-/

namespace ModelMint

/-- What stands in a row of texts is a comma, a blank or part of a text. -/
theorem mem_commaSeparated {c : Char} {texts : List (List Char)} (h : c ∈ commaSeparated texts) :
    c = ',' ∨ c = ' ' ∨ ∃ text ∈ texts, c ∈ text := by
  induction texts with
  | nil => cases h
  | cons text rest ih =>
      cases rest with
      | nil =>
          rw [commaSeparated, List.intercalate_singleton] at h
          exact .inr (.inr ⟨text, List.mem_cons_self, h⟩)
      | cons next others =>
          rw [commaSeparated, List.intercalate_cons_cons, List.mem_append, List.mem_append] at h
          rcases h with (htext | hmark) | hothers
          · exact .inr (.inr ⟨text, List.mem_cons_self, htext⟩)
          · simp only [List.mem_cons, List.not_mem_nil, or_false] at hmark
            exact hmark.imp_right .inl
          · exact (ih hothers).imp_right (Or.imp_right fun ⟨other, hother, hc⟩ =>
              ⟨other, List.mem_cons_of_mem _ hother, hc⟩)

namespace Text

def Visible (text : List Char) : Prop := ∀ c ∈ text, ' ' ≤ c

section Lists

variable {c : Char} {text rest : List Char}

@[simp] theorem visible_nil : Visible [] := fun _ hc => by cases hc

@[simp] theorem visible_cons : Visible (c :: rest) ↔ ' ' ≤ c ∧ Visible rest := List.forall_mem_cons

@[simp] theorem visible_append : Visible (text ++ rest) ↔ Visible text ∧ Visible rest :=
  List.forall_mem_append

theorem Visible.of_subset (h : Visible text) (hsub : rest ⊆ text) : Visible rest :=
  fun c hc => h c (hsub hc)

theorem Visible.not_mem (h : Visible text) (hc : c < ' ') : c ∉ text :=
  fun hmem => absurd (h c hmem) (Char.not_le.mpr hc)

theorem visible_of_all (h : text.all (fun c => decide (' ' ≤ c)) = true) : Visible text :=
  fun c hc => of_decide_eq_true (List.all_eq_true.mp h c hc)

theorem visible_commaSeparated {texts : List (List Char)} (h : ∀ text ∈ texts, Visible text) :
    Visible (commaSeparated texts) := by
  intro c hc
  rcases mem_commaSeparated hc with rfl | rfl | ⟨text, htext, hc⟩
  · decide
  · decide
  · exact h text htext c hc

end Lists

/-! ## Numbers -/

theorem visible_of_isDigit {digits : List Char} (h : ∀ c ∈ digits, c.isDigit = true) :
    Visible digits := by
  intro c hc
  have hdigit := h c hc
  rw [Char.isDigit, Bool.and_eq_true, decide_eq_true_iff] at hdigit
  exact UInt32.le_trans (by decide) hdigit.1

theorem visible_repr (value : Nat) : Visible (Nat.repr value).toList := by
  rw [Nat.toList_repr]
  exact visible_of_isDigit fun c hc => Nat.isDigit_of_mem_toDigits (by decide) (by decide) hc

theorem visible_intText (value : Int) : Visible (intText value) := by
  cases value with
  | ofNat n => exact visible_repr n
  | negSucc n =>
      rw [intText, visible_cons]
      exact ⟨by decide, visible_repr _⟩

theorem visible_zeros (count : Nat) : Visible (List.replicate count '0') := by
  intro c hc
  rw [List.eq_of_mem_replicate hc]
  decide

theorem visible_write (style : DecimalStyle) {digits : List Char} (h : Visible digits)
    (point : Int) : Visible (style.write digits point) := by
  have hpoint : ' ' ≤ '.' ∧ ' ' ≤ '0' := by decide
  have htake := fun count => h.of_subset (List.take_subset count digits)
  have hdrop := fun count => h.of_subset (List.drop_subset count digits)
  unfold DecimalStyle.write
  split
  · split
    · simp [h, hpoint]
    · split <;> simp [h, hpoint, visible_zeros, htake, hdrop]
    · simp [h, hpoint, visible_zeros]
  · have hsign : ' ' ≤ (if point - 1 < 0 then '-' else '+') := by
      split <;> decide
    have htail : Visible (if digits.length ≤ 1 then [] else '.' :: digits.drop 1) := by
      split
      · exact visible_nil
      · exact visible_cons.mpr ⟨by decide, hdrop 1⟩
    have hpower : Visible (padLeft style.exponentDigits (Nat.repr (point - 1).natAbs).toList) :=
      visible_append.mpr ⟨visible_zeros _, visible_repr _⟩
    simp only [visible_append, visible_cons]
    exact ⟨⟨htake 1, htail⟩, by decide, hsign, hpower⟩

theorem visible_trimZeros {digits : List Char} (h : Visible digits) : Visible (trimZeros digits) :=
  h.of_subset fun _ hc => List.mem_reverse.mp (List.dropWhile_subset _ (List.mem_reverse.mp hc))

theorem visible_binary64 (value : Binary64) : Visible value.text := by
  cases value with
  | nan => simp [Binary64.text]
  | infinite negative => cases negative <;> simp [Binary64.text]
  | finite negative mantissa exponent =>
      rw [Binary64.text]
      -- which decimal it is does not matter, and it is expensive to work out
      generalize Binary64.shortest mantissa exponent = decimal
      have hbody : Visible (if mantissa = 0 then DecimalStyle.standard.write ['0'] 1
          else DecimalStyle.standard.write (trimZeros (Nat.repr decimal.digits).toList)
            (decimal.exponent + (Nat.repr decimal.digits).toList.length)) := by
        split
        · exact visible_write _ (by simp) _
        · exact visible_write _ (visible_trimZeros (visible_repr _)) _
      cases negative with
      | false => simpa only [Bool.false_eq_true, if_false] using hbody
      | true =>
          simp only [if_true, visible_cons]
          exact ⟨by decide, hbody⟩

/-! ## Quoted texts -/

theorem visible_hexDigits (width value : Nat) : Visible (hexDigits width value) := by
  induction width generalizing value with
  | zero => exact visible_nil
  | succ width ih =>
      have hdigit : ∀ digit < 16, ' ' ≤ hexDigit digit := by decide
      rw [hexDigits, visible_append]
      exact ⟨ih _, by simpa using hdigit _ (Nat.mod_lt value (by decide))⟩

theorem visible_writeChar (c : Char) : Visible (writeChar c) := by
  have hescape : ∀ {letter : Char}, ' ' ≤ letter → Visible ['\\', letter] := fun hletter =>
    visible_cons.mpr ⟨by decide, visible_cons.mpr ⟨hletter, visible_nil⟩⟩
  unfold writeChar
  split
  next hmark =>
    rcases (by simpa using hmark : c = '"' ∨ c = '\\') with rfl | rfl <;> exact hescape (by decide)
  next =>
    split_ifs with hbreak hreturn htab hback hfeed hsmall
    iterate 5 exact hescape (by decide)
    · rw [visible_cons, visible_cons]
      exact ⟨by decide, by decide, visible_hexDigits 4 c.toNat⟩
    · exact visible_cons.mpr ⟨UInt32.le_iff_toNat_le.mpr (Nat.not_lt.mp hsmall), visible_nil⟩

theorem visible_written (text : List Char) : Visible (written text) := by
  have hbody : Visible (text.flatMap writeChar) := by
    intro c hc
    obtain ⟨source, -, hwritten⟩ := List.mem_flatMap.mp hc
    exact visible_writeChar source c hwritten
  rw [written, visible_cons, visible_append, visible_cons]
  exact ⟨by decide, hbody, by decide, visible_nil⟩

/-! ## Literals -/

mutual

theorem visible_literal : ∀ value : Json, Visible (Source.literal value)
  | .null => visible_of_all (by decide)
  | .bool value => visible_of_all (by cases value <;> decide)
  | .int value => visible_intText value
  | .float value => visible_binary64 value
  | .str text => visible_written text.toList
  | .arr items => by
      rw [Source.literal, visible_cons, visible_append, visible_cons]
      exact ⟨by decide, visible_commaSeparated (visible_literalItems items), by decide, visible_nil⟩
  | .obj members => by
      rw [Source.literal, visible_cons, visible_append, visible_cons]
      exact ⟨by decide, visible_commaSeparated (visible_literalMembers members), by decide,
        visible_nil⟩

theorem visible_literalItems : ∀ items : List Json,
    ∀ text ∈ Source.literalItems items, Visible text
  | [] => by simp [Source.literalItems]
  | item :: rest => by
      rw [Source.literalItems, List.forall_mem_cons]
      exact ⟨visible_literal item, visible_literalItems rest⟩

theorem visible_literalMembers : ∀ members : List (String × Json),
    ∀ text ∈ Source.literalMembers members, Visible text
  | [] => by simp [Source.literalMembers]
  | (key, value) :: rest => by
      rw [Source.literalMembers, List.forall_mem_cons, visible_append, visible_cons, visible_cons]
      exact ⟨⟨visible_written key.toList, by decide, by decide, visible_literal value⟩,
        visible_literalMembers rest⟩

end

end Text

end ModelMint
