import Mathlib
import ModelMint.Source.Scan

/-!
# Scanning without a bound

Every step of the scanner but the one at the start of a line takes a character, so a
bound of twice the length is never reached.  Without the bound the scanner is given by
one equation for each kind of step.
-/

namespace ModelMint.Source

/-! ## Steps take characters -/

theorem scanLine_length {quote : Char} {text body rest : List Char}
    (h : scanLine quote text = some (body, rest)) : rest.length < text.length := by
  fun_induction scanLine quote text generalizing body with
  | case1 => cases h
  | case2 c tail ih =>
      obtain ⟨⟨first, other⟩, htail, heq⟩ := Option.map_eq_some_iff.mp h
      cases heq
      have hlength := ih htail
      simp only [List.length_cons]
      omega
  | case3 c tail =>
      cases h
      simp
  | case4 => cases h
  | case5 c tail _ hquote hbreak ih =>
      obtain ⟨⟨first, other⟩, htail, heq⟩ := Option.map_eq_some_iff.mp h
      cases heq
      have hlength := ih htail
      simp only [List.length_cons]
      omega

theorem scanBlock_length {quote : Char} {text body rest : List Char}
    (h : scanBlock quote text = some (body, rest)) : rest.length < text.length := by
  fun_induction scanBlock quote text generalizing body with
  | case1 => cases h
  | case2 c tail ih =>
      obtain ⟨⟨first, other⟩, htail, heq⟩ := Option.map_eq_some_iff.mp h
      cases heq
      have hlength := ih htail
      simp only [List.length_cons]
      omega
  | case3 c tail =>
      cases h
      simp only [List.length_drop, List.length_cons]
      omega
  | case4 c tail hquote hnot ih =>
      obtain ⟨⟨first, other⟩, htail, heq⟩ := Option.map_eq_some_iff.mp h
      cases heq
      have hlength := ih htail
      simp only [List.length_cons]
      omega

theorem scanQuoted_length {quote : Char} {text body rest : List Char}
    (h : scanQuoted quote text = some (body, rest)) : rest.length < text.length := by
  unfold scanQuoted at h
  split at h
  · split at h
    · have hlength := scanBlock_length h
      simp only [List.length_cons]
      omega
    · exact scanLine_length h
  · exact scanLine_length h

theorem decimalTail_length {text rest : List Char} (h : decimalTail text = some rest) :
    rest.length ≤ text.length := by
  fun_induction decimalTail text with
  | case1 =>
      cases h
      rfl
  | case2 d tail hdigit ih =>
      have hlength := ih h
      simp only [List.length_cons]
      omega
  | case3 => cases h
  | case4 c tail _ hdigit ih =>
      have hlength := ih h
      simp only [List.length_cons]
      omega
  | case5 => cases h
  | case6 =>
      cases h
      rfl

theorem radixTail_length {isDigit : Char → Bool} {after : Bool} {text rest : List Char}
    (h : radixTail isDigit after text = some rest) : rest.length ≤ text.length := by
  fun_induction radixTail isDigit after text with
  | case1 =>
      cases h
      rfl
  | case2 => cases h
  | case3 after d tail hdigit ih =>
      have hlength := ih h
      simp only [List.length_cons]
      omega
  | case4 => cases h
  | case5 after c tail _ hdigit ih =>
      have hlength := ih h
      simp only [List.length_cons]
      omega
  | case6 =>
      cases h
      rfl
  | case7 => cases h

theorem endsAt_eq_some {text rest : List Char} (h : endsAt text = some rest) : rest = text := by
  unfold endsAt at h
  split at h
  · exact (Option.some.inj h).symm
  · cases h

theorem imaginaryEnd_length {text rest : List Char} (h : imaginaryEnd text = some rest) :
    rest.length ≤ text.length := by
  unfold imaginaryEnd at h
  split at h <;> obtain rfl := endsAt_eq_some h <;> simp

theorem exponentEnd_length {text rest : List Char} (h : exponentEnd text = some rest) :
    rest.length ≤ text.length := by
  have hdigits : ∀ tail : List Char, (decimalTail tail).bind imaginaryEnd = some rest →
      rest.length ≤ tail.length := by
    intro tail hbind
    obtain ⟨middle, hmiddle, hend⟩ := Option.bind_eq_some_iff.mp hbind
    exact (imaginaryEnd_length hend).trans (decimalTail_length hmiddle)
  unfold exponentEnd at h
  split at h
  next e sign tail =>
    split at h
    · split at h
      · split at h
        next d digits =>
          split at h
          · have hlength := hdigits digits h
            simp only [List.length_cons]
            omega
          · cases h
        · cases h
      · split at h
        · have hlength := hdigits tail h
          simp only [List.length_cons]
          omega
        · rw [endsAt_eq_some h]
    · exact imaginaryEnd_length h
  · exact imaginaryEnd_length h

theorem fractionEnd_length {text rest : List Char} (h : fractionEnd text = some rest) :
    rest.length ≤ text.length := by
  unfold fractionEnd at h
  split at h
  next d tail =>
    split at h
    · obtain ⟨middle, hmiddle, hend⟩ := Option.bind_eq_some_iff.mp h
      have hlength := (exponentEnd_length hend).trans (decimalTail_length hmiddle)
      simp only [List.length_cons]
      omega
    · exact exponentEnd_length h
  · exact exponentEnd_length h

theorem wholeEnd_length {digits text rest : List Char} (h : wholeEnd digits text = some rest) :
    rest.length ≤ text.length := by
  unfold wholeEnd at h
  split at h
  · have hlength := fractionEnd_length h
    simp only [List.length_cons]
    omega
  · exact exponentEnd_length h
  · exact exponentEnd_length h
  · exact imaginaryEnd_length h
  · exact imaginaryEnd_length h
  · split at h
    · split at h
      · rw [endsAt_eq_some h]
      · cases h
    · split at h
      · cases h
      · rw [endsAt_eq_some h]

theorem numberEnd_length {text rest : List Char} (h : numberEnd text = some rest) :
    rest.length < text.length := by
  have hradix : ∀ (isDigit : Char → Bool) (tail : List Char),
      (radixTail isDigit false tail).bind endsAt = some rest → rest.length ≤ tail.length := by
    intro isDigit tail hbind
    obtain ⟨middle, hmiddle, hend⟩ := Option.bind_eq_some_iff.mp hbind
    rw [endsAt_eq_some hend]
    exact radixTail_length hmiddle
  unfold numberEnd at h
  split at h
  iterate 6
    · have hlength := hradix _ _ h
      simp only [List.length_cons]
      omega
  · have hlength := fractionEnd_length h
    simp only [List.length_cons]
    omega
  · split at h
    · obtain ⟨middle, hmiddle, hend⟩ := Option.bind_eq_some_iff.mp h
      have hlength := (wholeEnd_length hend).trans (decimalTail_length hmiddle)
      simp only [List.length_cons]
      omega
    · cases h
  · cases h

theorem marks_ne_nil {mark : List Char} (h : mark ∈ marks) : mark ≠ [] := by
  intro hnil
  subst hnil
  exact absurd h (by decide)

theorem skipComment_length (text : List Char) : (skipComment text).length ≤ text.length :=
  List.length_dropWhile_le _ _

theorem wordToken_nil : wordToken [] = none := by
  decide

theorem scanWord_length {brackets text : List Char} {step : Step}
    (h : scanWord brackets text = some step) : step.rest.length < text.length := by
  have hdrop : (text.drop (text.takeWhile isWordChar).length).length =
      text.length - (text.takeWhile isWordChar).length := List.length_drop
  have hshorter : ∀ token, wordToken (text.takeWhile isWordChar) = some token →
      (text.drop (text.takeWhile isWordChar).length).length < text.length := by
    intro token htoken
    have hpositive : 0 < (text.takeWhile isWordChar).length := by
      rw [List.length_pos_iff]
      intro hnil
      rw [hnil, wordToken_nil] at htoken
      cases htoken
    have hprefix := (List.takeWhile_prefix isWordChar (l := text)).length_le
    omega
  unfold scanWord at h
  simp only at h
  split at h
  next quote body hrest =>
    split at h
    next kind hkind =>
      obtain ⟨⟨found, rest⟩, hquoted, hstep⟩ := Option.bind_eq_some_iff.mp h
      cases hstep
      have hlength := scanQuoted_length hquoted
      rw [hrest, List.length_cons] at hdrop
      simp only
      omega
    next hkind =>
      obtain ⟨token, htoken, rfl⟩ := Option.map_eq_some_iff.mp h
      exact hshorter token htoken
  next hrest =>
    obtain ⟨token, htoken, rfl⟩ := Option.map_eq_some_iff.mp h
    exact hshorter token htoken

theorem scanStep_length {brackets text : List Char} {step : Step}
    (h : scanStep brackets text = some step) : step.rest.length < text.length := by
  unfold scanStep at h
  split at h
  · cases h
  next rest =>
    cases h
    have hlength := skipComment_length rest
    simp only [List.length_cons]
    omega
  · cases h
    simp
  next c rest _ _ =>
    split at h
    · cases h
      simp
    · split at h
      · exact scanWord_length h
      · split at h
        · obtain ⟨tail, htail, hstep⟩ := Option.bind_eq_some_iff.mp h
          cases hstep
          exact numberEnd_length htail
        · obtain ⟨mark, hmark, hrest⟩ := Option.bind_eq_some_iff.mp h
          obtain ⟨after, -, hstep⟩ := Option.bind_eq_some_iff.mp hrest
          cases hstep
          have hpositive := List.length_pos_iff.mpr (marks_ne_nil (List.mem_of_find?_eq_some hmark))
          simp only [List.length_drop, List.length_cons]
          omega

theorem measureIndent_length {held : Nat} {indent after : Indentation} {text rest : List Char}
    (h : measureIndent held indent text = some (after, rest)) : rest.length ≤ text.length := by
  fun_induction measureIndent held indent text with
  | case1 held indent tail ih => exact (ih h).trans (by simp)
  | case2 held indent tail ih => exact (ih h).trans (by simp)
  | case3 held indent tail ih => exact (ih h).trans (by simp)
  | case4 held indent c tail ih => exact (ih h).trans (by simp)
  | case5 => cases h
  | case6 =>
      cases h
      rfl

/-! ## Scanning to the end -/

/-- The tokens of a text from a layout on. -/
def lex (layout : Layout) (start : Bool) (text : List Char) : Option (List Token) :=
  scanFrom (2 * text.length + 2) layout start text

/-- What bounds the steps: at the start of a line one more than within it. -/
def stepBound (start : Bool) (text : List Char) : Nat :=
  2 * text.length + if start then 2 else 1

theorem scanFrom_token (fuel : Nat) (layout : Layout) {c : Char} {rest : List Char}
    (hbreak : c ≠ '\n') : scanFrom (fuel + 1) layout false (c :: rest) =
      (scanStep layout.brackets (c :: rest)).bind fun step =>
        (scanFrom fuel { layout with brackets := step.brackets } false step.rest).map
          (step.token.toList ++ ·) := by
  rw [scanFrom]
  · cases scanStep layout.brackets (c :: rest) with
    | none => rfl
    | some step =>
        simp only [Option.bind_eq_bind, Option.bind_some]
        cases scanFrom fuel _ false step.rest <;> rfl
  · intro hnil
    cases hnil
  · intro other heq
    exact hbreak (List.cons.inj heq).1

theorem scanFrom_congr {fuel other : Nat} {layout : Layout} {start : Bool} {text : List Char}
    (hfuel : stepBound start text ≤ fuel) (hother : stepBound start text ≤ other) :
    scanFrom fuel layout start text = scanFrom other layout start text := by
  unfold stepBound at hfuel hother
  induction fuel generalizing other layout start text with
  | zero =>
      split at hfuel <;> omega
  | succ fuel ih =>
      obtain ⟨other, rfl⟩ : ∃ less, other = less + 1 :=
        ⟨other - 1, by split at hother <;> omega⟩
      cases text with
      | nil => simp only [scanFrom]
      | cons c rest =>
          cases start with
          | true =>
              simp only [if_true, List.length_cons] at hfuel hother
              simp only [scanFrom]
              cases hmeasure : measureIndent 0 {} (c :: rest) with
              | none => rfl
              | some measured =>
                  obtain ⟨indent, tail⟩ := measured
                  have htail := measureIndent_length hmeasure
                  simp only [List.length_cons] at htail
                  have hinside : ∀ layout, scanFrom fuel layout false tail =
                      scanFrom other layout false tail := by
                    intro layout
                    apply ih <;> simp only [Bool.false_eq_true, if_false] <;> omega
                  have hskipped : isEmptyLine tail = true → ∀ layout,
                      scanFrom fuel layout true ((skipComment tail).drop 1) =
                        scanFrom other layout true ((skipComment tail).drop 1) := by
                    intro hempty layout
                    have hpositive : 0 < tail.length := by
                      cases tail with
                      | nil => cases hempty
                      | cons => simp
                    have hcomment := skipComment_length tail
                    apply ih <;> simp only [if_true, List.length_drop] <;> omega
                  simp only [Option.bind_eq_bind, Option.bind_some]
                  split
                  next hempty => exact hskipped hempty _
                  · simp only [hinside]
          | false =>
              simp only [Bool.false_eq_true, if_false, List.length_cons] at hfuel hother
              by_cases hbreak : c = '\n'
              · subst hbreak
                have hnext : scanFrom fuel layout true rest = scanFrom other layout true rest := by
                  apply ih <;> simp only [if_true] <;> omega
                simp only [scanFrom, hnext]
              · rw [scanFrom_token fuel layout hbreak, scanFrom_token other layout hbreak]
                cases hstep : scanStep layout.brackets (c :: rest) with
                | none => rfl
                | some step =>
                    have hlength := scanStep_length hstep
                    simp only [List.length_cons] at hlength
                    have hnext : ∀ layout, scanFrom fuel layout false step.rest =
                        scanFrom other layout false step.rest := by
                      intro layout
                      apply ih <;> simp only [Bool.false_eq_true, if_false] <;> omega
                    simp only [Option.bind_some, hnext]

section Equations

variable {layout : Layout} {start : Bool} {text rest : List Char}

theorem scanFrom_eq_lex {fuel : Nat} (h : stepBound start text ≤ fuel) :
    scanFrom fuel layout start text = lex layout start text := by
  refine scanFrom_congr h ?_
  unfold stepBound
  split <;> omega

theorem lex_nil : lex layout start [] =
    if layout.brackets.isEmpty then some (layout.indents.map fun _ => .dedent) else none := by
  simp only [lex, scanFrom]

theorem lex_break : lex layout false ('\n' :: rest) =
    (lex layout true rest).map fun others =>
      if layout.brackets.isEmpty then .newline :: others else others := by
  have hrest : scanFrom (2 * (rest.length + 1) + 1) layout true rest = lex layout true rest :=
    scanFrom_eq_lex (by simp only [stepBound, if_true]; omega)
  simp only [lex, List.length_cons, scanFrom] at hrest ⊢
  rw [hrest]
  cases scanFrom (2 * rest.length + 2) layout true rest <;> rfl

theorem lex_step {step : Step} (hbreak : text.head? ≠ some '\n')
    (hstep : scanStep layout.brackets text = some step) :
    lex layout false text =
      (lex { layout with brackets := step.brackets } false step.rest).map
        (step.token.toList ++ ·) := by
  have hlength := scanStep_length hstep
  cases text with
  | nil => cases hstep
  | cons c tail =>
      have hrest : ∀ layout, scanFrom (2 * (tail.length + 1) + 1) layout false step.rest =
          lex layout false step.rest := by
        intro layout
        refine scanFrom_eq_lex ?_
        simp only [stepBound, Bool.false_eq_true, if_false, List.length_cons] at hlength ⊢
        omega
      have hne : c ≠ '\n' := by simpa using hbreak
      rw [lex, List.length_cons, scanFrom_token _ _ hne, hstep, Option.bind_some, hrest]

theorem lex_step_none {c : Char} (hbreak : c ≠ '\n')
    (hstep : scanStep layout.brackets (c :: rest) = none) :
    lex layout false (c :: rest) = none := by
  rw [lex, List.length_cons, scanFrom_token _ _ hbreak, hstep, Option.bind_none]

theorem lex_empty_line {indent : Indentation} (hmeasure : measureIndent 0 {} text = some (indent, rest))
    (hempty : isEmptyLine rest = true) :
    lex layout true text = lex layout true ((skipComment rest).drop 1) := by
  have hlength := measureIndent_length hmeasure
  have hcomment := skipComment_length rest
  cases rest with
  | nil => cases hempty
  | cons d others =>
      cases text with
      | nil => simp at hlength
      | cons c tail =>
          have hrest : scanFrom (2 * (tail.length + 1) + 1) layout true
              ((skipComment (d :: others)).drop 1) =
                lex layout true ((skipComment (d :: others)).drop 1) := by
            refine scanFrom_eq_lex ?_
            simp only [stepBound, if_true, List.length_drop, List.length_cons] at *
            omega
          rw [← hrest]
          simp only [lex, List.length_cons, scanFrom, hmeasure, Option.bind_eq_bind,
            Option.bind_some, hempty, if_true]

/-- Outside of brackets a line changes the indentation. -/
theorem lex_line {indent : Indentation} (htext : text ≠ [])
    (hmeasure : measureIndent 0 {} text = some (indent, rest)) (hempty : isEmptyLine rest = false)
    (hbrackets : layout.brackets = []) :
    lex layout true text = (changeIndent layout.indents indent).bind fun (indents, tokens) =>
      (lex { layout with indents } false rest).map (tokens ++ ·) := by
  have hlength := measureIndent_length hmeasure
  cases text with
  | nil => exact absurd rfl htext
  | cons c tail =>
      have hrest : ∀ layout, scanFrom (2 * (tail.length + 1) + 1) layout false rest =
          lex layout false rest := by
        intro layout
        refine scanFrom_eq_lex ?_
        simp only [stepBound, Bool.false_eq_true, if_false, List.length_cons] at *
        omega
      unfold lex at hrest ⊢
      simp only [List.length_cons, scanFrom, hmeasure, Option.bind_eq_bind, Option.bind_some,
        hempty, Bool.false_eq_true, if_false, hbrackets, List.isEmpty_nil, if_true, hrest]
      cases changeIndent layout.indents indent with
      | none => rfl
      | some changed =>
          obtain ⟨indents, tokens⟩ := changed
          simp only [Option.bind_some]
          cases scanFrom (2 * rest.length + 2) _ false rest <;> rfl

/-- Within brackets it does not. -/
theorem lex_inner_line {indent : Indentation} (htext : text ≠ [])
    (hmeasure : measureIndent 0 {} text = some (indent, rest)) (hempty : isEmptyLine rest = false)
    (hbrackets : layout.brackets ≠ []) :
    lex layout true text = lex layout false rest := by
  have hlength := measureIndent_length hmeasure
  cases text with
  | nil => exact absurd rfl htext
  | cons c tail =>
      have hrest : scanFrom (2 * (tail.length + 1) + 1) layout false rest =
          lex layout false rest := by
        refine scanFrom_eq_lex ?_
        simp only [stepBound, Bool.false_eq_true, if_false, List.length_cons] at *
        omega
      have hopen : layout.brackets.isEmpty = false := by simpa using hbrackets
      rw [← hrest]
      simp only [lex, List.length_cons, scanFrom, hmeasure, Option.bind_eq_bind, Option.bind_some,
        hempty, Bool.false_eq_true, if_false, hopen]

end Equations

end ModelMint.Source
