import Mathlib
import ModelMint.Blueprint.Rule

/-!
# How constants begin

A letter keeps its place in the alphabet under a change of case, and what is no letter stays
as it is.  No constant begins with a small letter, so none is taken for an accessor.
-/

namespace ModelMint.Text

/-! ## Case -/

theorem eq_of_toLower_eq {c other : Char} (hother : other.isAlpha = false)
    (h : c.toLower = other) : c = other := by
  have halpha : c.isAlpha = false := by
    rw [← Char.isAlpha_toLower_eq_isAlpha, h]
    exact hother
  have hupper : ¬ c.isUpper = true := by
    simp only [Char.isAlpha, Bool.or_eq_false_iff] at halpha
    simp [halpha.1]
  rwa [Char.toLower_eq_of_not_isUpper hupper] at h

theorem eq_of_toUpper_eq {c other : Char} (hother : other.isAlpha = false)
    (h : c.toUpper = other) : c = other := by
  have halpha : c.isAlpha = false := by
    rw [← Char.isAlpha_toUpper_eq_isAlpha, h]
    exact hother
  have hlower : ¬ c.isLower = true := by
    simp only [Char.isAlpha, Bool.or_eq_false_iff] at halpha
    simp [halpha.2]
  rwa [Char.toUpper_eq_of_not_isLower hlower] at h

theorem toLower_ne_underscore {c : Char} (h : c ≠ '_') : c.toLower ≠ '_' :=
  fun hlower => h (eq_of_toLower_eq (by decide) hlower)

/-! ## Constants -/

theorem not_isLower_of_mem_constantPrefix {name : List Char} {c : Char}
    (h : c ∈ constantPrefix name) : c.isLower = false := by
  have hbody : ∀ d ∈ highSnakeCase name, d.isLower = false := by
    intro d hd
    obtain ⟨upper, -, rfl⟩ := List.mem_map.mp hd
    exact Char.isLower_toUpper_eq_false upper
  unfold constantPrefix at h
  generalize highSnakeCase name = body at h hbody
  cases body with
  | nil => cases h
  | cons first rest =>
      simp only at h
      split at h
      · rcases List.mem_cons.mp h with rfl | hmem
        · decide
        · exact hbody c hmem
      · exact hbody c h

end ModelMint.Text

namespace ModelMint.Blueprint

theorem Constant.ofValue_name_head {property : String} {value : Json} {c : Char}
    (h : (Constant.ofValue property value).name.toList.head? = some c) : c.isLower = false := by
  simp only [Constant.ofValue, String.toList_ofList] at h
  cases hfront : Text.constantPrefix property.toList with
  | nil =>
      rw [hfront] at h
      cases h
      decide
  | cons first rest =>
      rw [hfront] at h
      obtain rfl : first = c := by simpa using h
      exact Text.not_isLower_of_mem_constantPrefix (hfront ▸ List.mem_cons_self)

end ModelMint.Blueprint
