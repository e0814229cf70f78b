import Mathlib.Algebra.Order.Field.Rat
import Mathlib.Tactic.Ring
import ModelMint.Instance.Compare

/-!
# When numbers are equal

Numbers of every kind are compared as multiples of powers of two, and the infinite ones
stand beyond all others.  Among them being equal is an equivalence; what is no number is
not even equal to itself.
-/

namespace ModelMint

/-! ## Points -/

namespace Binary64

theorem Point.compare_eq_swap (p q : Point) : q.compare p = (p.compare q).map Ordering.swap := by
  cases p with
  | undefined => cases q <;> rfl
  | endpoint a =>
      cases q with
      | undefined | dyadic n f => cases a <;> rfl
      | endpoint b => cases a <;> cases b <;> rfl
  | dyadic m e =>
      cases q with
      | undefined => rfl
      | endpoint b => cases b <;> rfl
      | dyadic n f =>
          -- both are taken at the lesser exponent, whichever side it is on
          simp only [Point.compare, Option.map_some, Option.some.injEq, Int.min_comm f e]
          exact Std.OrientedCmp.eq_swap

theorem Point.compare_isSome {p q : Point} (hp : p ≠ .undefined) (hq : q ≠ .undefined) :
    (p.compare q).isSome = true := by
  cases p with
  | undefined => exact absurd rfl hp
  | endpoint a | dyadic m e =>
      cases q with
      | undefined => exact absurd rfl hq
      | _ => rfl

theorem Point.compare_dyadic_eq {m n e f : Int} :
    Point.compare (.dyadic m e) (.dyadic n f) = some .eq ↔
      (m : ℚ) * 2 ^ e = (n : ℚ) * 2 ^ f := by
  have hscale : ∀ exponent : Int, min e f ≤ exponent →
      (2 : ℚ) ^ exponent = 2 ^ (exponent - min e f).toNat * 2 ^ min e f := by
    intro exponent hleast
    rw [← zpow_natCast, ← zpow_add₀ (by norm_num), Int.toNat_of_nonneg (by omega)]
    congr 1
    omega
  have hwhole : ∀ k : Nat, ((Int.ofNat (Nat.pow 2 k) : Int) : ℚ) = 2 ^ k := by
    intro k
    change ((2 ^ k : Nat) : ℚ) = 2 ^ k
    push_cast
    rfl
  have hpositive : (2 : ℚ) ^ min e f ≠ 0 := zpow_ne_zero _ (by norm_num)
  rw [hscale e (min_le_left e f), hscale f (min_le_right e f), ← mul_assoc, ← mul_assoc,
    mul_left_inj' hpositive]
  simp only [Point.compare, Option.some.injEq, compare_eq_iff_eq]
  rw [← Int.cast_inj (α := ℚ), Int.cast_mul, Int.cast_mul, hwhole, hwhole]

theorem Point.compare_self {p : Point} (h : p ≠ .undefined) : p.compare p = some .eq := by
  cases p with
  | undefined => exact absurd rfl h
  | endpoint negative => simp [Point.compare]
  | dyadic m e => exact compare_dyadic_eq.mpr rfl

theorem Point.compare_eq_trans {p q r : Point} (hpq : p.compare q = some .eq)
    (hqr : q.compare r = some .eq) : p.compare r = some .eq := by
  cases p with
  | undefined => cases hpq
  | endpoint a =>
      cases q with
      | undefined => cases hpq
      | dyadic n f => cases a <;> cases hpq
      | endpoint b =>
          obtain rfl : a = b := by
            cases a <;> cases b <;> first | rfl | cases hpq
          exact hqr
  | dyadic m e =>
      cases q with
      | undefined => cases hpq
      | endpoint b => cases b <;> cases hpq
      | dyadic n f =>
          cases r with
          | undefined => cases hqr
          | endpoint c => cases c <;> cases hqr
          | dyadic l g =>
              exact compare_dyadic_eq.mpr
                ((compare_dyadic_eq.mp hpq).trans (compare_dyadic_eq.mp hqr))

end Binary64

/-! ## Values -/

namespace Value

theorem sameNumber_iff {a b : Value} :
    sameNumber a b = true ↔
      ∃ p q, a.number? = some p ∧ b.number? = some q ∧ p.compare q = some .eq := by
  unfold sameNumber
  cases a.number? <;> cases b.number? <;> simp

theorem sameNumber_symm {a b : Value} (h : sameNumber a b = true) : sameNumber b a = true := by
  obtain ⟨p, q, hp, hq, hsame⟩ := sameNumber_iff.mp h
  refine sameNumber_iff.mpr ⟨q, p, hq, hp, ?_⟩
  rw [Binary64.Point.compare_eq_swap, hsame]
  rfl

theorem sameNumber_trans {a b c : Value} (hab : sameNumber a b = true)
    (hbc : sameNumber b c = true) : sameNumber a c = true := by
  obtain ⟨p, q, hp, hq, hpq⟩ := sameNumber_iff.mp hab
  obtain ⟨q', r, hq', hr, hqr⟩ := sameNumber_iff.mp hbc
  obtain rfl := Option.some.inj (hq.symm.trans hq')
  exact sameNumber_iff.mpr ⟨p, r, hp, hr, Binary64.Point.compare_eq_trans hpq hqr⟩

end Value

end ModelMint
