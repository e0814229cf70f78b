import ModelMint.Blueprint.Field
import ModelMint.Proofs.Text.Layout

/-!
# Descriptions within their width

A width that has room for a character has room for every text.  Its lines hold the text but
for blanks, none is wider than asked for, and none ends before its end.
-/

namespace ModelMint.Blueprint

theorem wrapText_of_pos {width : Int} (h : 1 ≤ width) (text : String) :
    wrapText (.int width) text =
      .ok ((Text.wrapLines width.toNat (Text.splitLines text.toList)).map String.ofList) := by
  have hroom : room (.int width) = .ok (.whole width.toNat) := by
    simp only [room]
    rw [if_pos (by omega)]
  unfold wrapText
  simp only
  split
  next hempty =>
    rw [List.isEmpty_iff.mp hempty]
    rfl
  next =>
    rw [hroom]
    rfl

/-- Every line of a text is laid out after two turns for each of its characters at most, tabs
counted as spaces.  What comes out are lines of the width that no line end cuts, the last one not
empty, with all characters of the text but its blanks, in their order. -/
theorem description_lines_hold_text (width : Int) (text : String) (h : 1 ≤ width) :
    (∀ line ∈ Text.splitLines text.toList,
      Text.fillWithin width.toNat (2 * (Text.expandTabs 0 line).length) false
        (Text.runs (Text.expandTabs 0 line)) = some (Text.wrapLine width.toNat line)) ∧
    ∃ lines, wrapText (.int width) text = .ok lines ∧
      (∀ line ∈ lines, line.length ≤ width ∧ ∀ c ∈ line.toList, Text.isLineBreak c = false) ∧
      (∀ last ∈ lines.getLast?, last ≠ "") ∧
      Text.solid (lines.flatMap String.toList) = Text.solid text.toList := by
  refine ⟨fun line _ => Text.fillWithin_wrapLine width.toNat line, _, wrapText_of_pos h text,
    ?_, ?_, ?_⟩
  · intro line hline
    obtain ⟨letters, hletters, rfl⟩ := List.mem_map.mp hline
    have hlimit : 1 ≤ width.toNat := by omega
    have hfits := Text.length_wrapLines_le hlimit _ letters hletters
    have hunbroken := Text.forall_mem_wrapLines (P := fun c => Text.isLineBreak c = false)
      (by decide) width.toNat (Text.not_isLineBreak_of_mem_splitLines text.toList) letters hletters
    rw [String.length_ofList, String.toList_ofList]
    exact ⟨by omega, hunbroken⟩
  · intro last hlast
    rw [List.getLast?_map] at hlast
    obtain ⟨letters, hletters, rfl⟩ := Option.map_eq_some_iff.mp hlast
    have hne := Text.getLast?_wrapLines width.toNat _ letters hletters
    simpa using hne
  · have hletters : ∀ lines : List (List Char),
        (lines.map String.ofList).flatMap String.toList = lines.flatten := by
      intro lines
      simp [List.flatMap_map, List.flatMap_id']
    rw [hletters, Text.solid_wrapLines, Text.solid_splitLines]

theorem description_lines_hold_text_beds :
    1 ≤ (6 : Int) ∧ ∃ lines, wrapText (.int 6) "Two\tbeds \n\n breakfast\r\n \n" = .ok lines ∧
      lines = ["Two", "beds", "", " break", "fast"] ∧
      Text.solid (lines.flatMap String.toList) = "Twobedsbreakfast".toList := by
  have hpos : 1 ≤ (6 : Int) := by decide
  obtain ⟨-, lines, hlines, -, -, hkept⟩ :=
    description_lines_hold_text 6 "Two\tbeds \n\n breakfast\r\n \n" hpos
  have hgiven : wrapText (.int 6) "Two\tbeds \n\n breakfast\r\n \n" =
      .ok ["Two", "beds", "", " break", "fast"] := by
    decide +kernel
  refine ⟨hpos, lines, hlines, ?_, hkept.trans (by decide)⟩
  rw [hgiven] at hlines
  exact (Except.ok.inj hlines).symm

end ModelMint.Blueprint
