import Mathlib
import ModelMint.Number.Shortest

/-!
# Rounding quotients and decimals

A quotient is rounded for the rational number that it is, in whatever terms it is given,
and a double is rounded to itself.  So a decimal may be written with more or fewer zeros
at its end, and the shortest decimal of a double reads back as the double.
-/

namespace ModelMint.Binary64

variable {num den other below mantissa digits : Nat} {exponent place : Int} {negative : Bool}

/-! ## Quotients -/

theorem inUnits_pos (hden : 0 < den) (exponent : Int) : 0 < (inUnits num den exponent).2 := by
  cases exponent with
  | ofNat k => exact Nat.mul_pos hden (Nat.pow_pos (by decide))
  | negSucc k => exact hden

theorem inUnits_eq (num den : Nat) (exponent : Int) :
    ((inUnits num den exponent).1 : ℚ) / (inUnits num den exponent).2 =
      (num : ℚ) / den / 2 ^ exponent := by
  cases exponent with
  | ofNat k => simp [inUnits, div_div]
  | negSucc k =>
      simp [inUnits, zpow_negSucc, div_eq_mul_inv]
      ring

/-- Whether a quotient has so many binary digits in units of a power of two. -/
theorem inUnits_lt_iff (hden : 0 < den) (exponent : Int) (count : Nat) :
    (inUnits num den exponent).1 < (inUnits num den exponent).2 * Nat.pow 2 count ↔
      (num : ℚ) / den < 2 ^ (count + exponent) := by
  have hpositive : (0 : ℚ) < (inUnits num den exponent).2 := by
    exact_mod_cast inUnits_pos hden exponent
  rw [zpow_add₀ two_ne_zero, ← div_lt_iff₀ (by positivity), ← inUnits_eq, div_lt_iff₀' hpositive,
    zpow_natCast, ← Nat.cast_lt (α := ℚ), Nat.cast_mul, Nat.pow_eq, Nat.cast_pow, Nat.cast_two]

theorem log_eq {base : Nat} (hbase : 1 < base) {value : ℚ} (hleast : (base : ℚ) ^ place ≤ value)
    (hless : value < (base : ℚ) ^ (place + 1)) : Int.log base value = place := by
  have hpositive : 0 < value := lt_of_lt_of_le (by positivity) hleast
  have hreached := (Int.zpow_le_iff_le_log hbase hpositive).mp hleast
  have hmissed := (Int.lt_zpow_iff_log_lt hbase hpositive).mp hless
  omega

theorem log2_bounds (h : 0 < num) :
    (2 : ℚ) ^ (Nat.log2 num : Int) ≤ num ∧ (num : ℚ) < 2 ^ ((Nat.log2 num : Int) + 1) := by
  have hleast := Nat.log2_self_le h.ne'
  have hless := Nat.lt_log2_self (n := num)
  constructor
  · rw [zpow_natCast]
    exact_mod_cast hleast
  · rw [← Nat.cast_succ, zpow_natCast]
    exact_mod_cast hless

theorem quotient_bounds (hnum : 0 < num) (hden : 0 < den) :
    (2 : ℚ) ^ ((Nat.log2 num : Int) - Nat.log2 den - 1) ≤ (num : ℚ) / den ∧
      (num : ℚ) / den < 2 ^ ((Nat.log2 num : Int) - Nat.log2 den + 1) := by
  obtain ⟨hnumLeast, hnumLess⟩ := log2_bounds hnum
  obtain ⟨hdenLeast, hdenLess⟩ := log2_bounds hden
  have hdenCast : (0 : ℚ) < den := by exact_mod_cast hden
  constructor
  · rw [le_div_iff₀ hdenCast]
    calc (2 : ℚ) ^ ((Nat.log2 num : Int) - Nat.log2 den - 1) * den
        ≤ 2 ^ ((Nat.log2 num : Int) - Nat.log2 den - 1) * 2 ^ ((Nat.log2 den : Int) + 1) := by
          gcongr
      _ = 2 ^ (Nat.log2 num : Int) := by rw [← zpow_add₀ two_ne_zero]; congr 1; ring
      _ ≤ num := hnumLeast
  · rw [div_lt_iff₀ hdenCast]
    calc (num : ℚ) < 2 ^ ((Nat.log2 num : Int) + 1) := hnumLess
      _ = 2 ^ ((Nat.log2 num : Int) - Nat.log2 den + 1) * 2 ^ (Nat.log2 den : Int) := by
        rw [← zpow_add₀ two_ne_zero]; congr 1; ring
      _ ≤ 2 ^ ((Nat.log2 num : Int) - Nat.log2 den + 1) * den := by gcongr

theorem unitExponent_eq_log (hnum : 0 < num) (hden : 0 < den) :
    unitExponent num den = Int.log 2 ((num : ℚ) / den) - 52 := by
  obtain ⟨hleast, hless⟩ := quotient_bounds hnum hden
  unfold unitExponent
  generalize hguess : (Nat.log2 num : Int) - Nat.log2 den - 52 = guess
  rw [show (Nat.log2 num : Int) - Nat.log2 den = 52 + guess by omega] at hleast hless
  simp only [inUnits_lt_iff hden]
  -- the guess is the exponent or one more
  split
  next hbelow =>
    rw [log_eq (by decide) hleast (by simpa using hbelow)]
    omega
  next habove =>
    rw [log_eq (by decide) (not_lt.mp habove) hless]
    omega

theorem roundDiv_mul_left (hother : 0 < other) (num den : Nat) :
    roundDiv (other * num) (other * den) = roundDiv num den := by
  unfold roundDiv
  simp only [Nat.mul_div_mul_left _ _ hother, Nat.mul_mod_mul_left]
  have hless : 2 * (other * (num % den)) < other * den ↔ 2 * (num % den) < den := by
    rw [Nat.mul_left_comm, Nat.mul_lt_mul_left hother]
  have hsame : 2 * (other * (num % den)) = other * den ↔ 2 * (num % den) = den := by
    rw [Nat.mul_left_comm, Nat.mul_right_inj hother.ne']
  simp [hless, hsame]

theorem roundDiv_congr (hden : 0 < den) (hbelow : 0 < below)
    (h : (num : ℚ) / den = (other : ℚ) / below) : roundDiv num den = roundDiv other below := by
  have hcross : num * below = other * den := by
    rw [div_eq_div_iff (by positivity) (by positivity)] at h
    exact_mod_cast h
  calc roundDiv num den
      = roundDiv (below * num) (below * den) := (roundDiv_mul_left hbelow _ _).symm
    _ = roundDiv (den * other) (den * below) := by
      rw [Nat.mul_comm below num, hcross, Nat.mul_comm other, Nat.mul_comm below]
    _ = roundDiv other below := roundDiv_mul_left hden _ _

theorem roundDiv_of_dvd (hden : 0 < den) (h : (num : ℚ) / den = mantissa) :
    roundDiv num den = mantissa := by
  have hone : (num : ℚ) / den = (mantissa : ℚ) / (1 : Nat) := by rw [h]; simp
  rw [roundDiv_congr hden Nat.one_pos hone]
  simp [roundDiv, Nat.mod_one]

theorem roundDiv_bounds (num den : Nat) :
    num / den ≤ roundDiv num den ∧ roundDiv num den ≤ num / den + 1 := by
  unfold roundDiv
  dsimp only
  split <;> omega

theorem roundDiv_le (h : num < den * mantissa) : roundDiv num den ≤ mantissa :=
  (roundDiv_bounds num den).2.trans (Nat.div_lt_of_lt_mul h)

theorem le_roundDiv (hden : 0 < den) (h : den * mantissa ≤ num) : mantissa ≤ roundDiv num den :=
  ((Nat.le_div_iff_mul_le hden).mpr (by rwa [Nat.mul_comm])).trans (roundDiv_bounds num den).1

/-! ## Doubles -/

/-- The double with a mantissa that was rounded, which may have become too great by one. -/
def settled (negative : Bool) (exponent : Int) (mantissa : Nat) : Binary64 :=
  if mantissa = Nat.pow 2 53 then bounded negative (Nat.pow 2 52) (exponent + 1)
  else bounded negative mantissa exponent

theorem ofRatio_eq_settled (hnum : num ≠ 0)
    (hexponent : exponent = max (unitExponent num den) (-1074)) :
    ofRatio negative num den = settled negative exponent
      (roundDiv (inUnits num den exponent).1 (inUnits num den exponent).2) := by
  unfold ofRatio
  rw [if_neg hnum, ← hexponent]
  unfold settled
  dsimp only

theorem settled_canonical (hmantissa : mantissa ≤ Nat.pow 2 53) (hexponent : -1074 ≤ exponent)
    (hfull : Nat.pow 2 52 ≤ mantissa ∨ exponent = -1074) :
    (settled negative exponent mantissa).Canonical := by
  have hpowers : Nat.pow 2 53 = 2 * Nat.pow 2 52 ∧ 0 < Nat.pow 2 52 := by decide
  unfold settled bounded
  split_ifs with hcarry hgreat hgreat
  · trivial
  · exact ⟨by omega, by omega, by omega, .inl le_rfl⟩
  · trivial
  · exact ⟨by omega, hexponent, by omega, hfull⟩

theorem canonical_zero : (finite negative 0 (-1074)).Canonical :=
  ⟨by decide, le_rfl, by decide, .inr rfl⟩

theorem ofRatio_canonical (hden : 0 < den) : (ofRatio negative num den).Canonical := by
  by_cases hnum : num = 0
  · rw [hnum]
    unfold ofRatio
    rw [if_pos rfl]
    exact canonical_zero
  · have hunit := unitExponent_eq_log (Nat.pos_of_ne_zero hnum) hden
    have hpositive : (0 : ℚ) < (num : ℚ) / den := by positivity
    have hless := Int.lt_zpow_succ_log_self (b := 2) (by decide) ((num : ℚ) / den)
    have hleast := Int.zpow_log_le_self (b := 2) (by decide) hpositive
    rw [Nat.cast_two] at hless hleast
    rw [ofRatio_eq_settled hnum rfl]
    refine settled_canonical (roundDiv_le ?_) (le_max_right _ _) ?_
    · rw [inUnits_lt_iff hden]
      exact hless.trans_le (zpow_le_zpow_right₀ (by norm_num) (by push_cast; omega))
    · rcases le_total (unitExponent num den) (-1074) with hsmall | hlarge
      · exact .inr (max_eq_right hsmall)
      · rw [max_eq_left hlarge]
        refine .inl (le_roundDiv (inUnits_pos hden _) ?_)
        rw [← not_lt, inUnits_lt_iff hden, not_lt]
        exact le_trans (zpow_le_zpow_right₀ (by norm_num) (by push_cast; omega)) hleast

/-- A quotient is rounded for the rational number that it is. -/
theorem ofRatio_congr (hden : 0 < den) (hbelow : 0 < below)
    (h : (num : ℚ) / den = (other : ℚ) / below) :
    ofRatio negative num den = ofRatio negative other below := by
  have hzero : num = 0 ↔ other = 0 := by
    have hnum : num = 0 ↔ (num : ℚ) / den = 0 := by simp [hden.ne']
    have hother : other = 0 ↔ (other : ℚ) / below = 0 := by simp [hbelow.ne']
    rw [hnum, hother, h]
  by_cases hnum : num = 0
  · rw [hnum, hzero.mp hnum]
    unfold ofRatio
    rw [if_pos rfl, if_pos rfl]
  · have hother : other ≠ 0 := fun hnone => hnum (hzero.mpr hnone)
    have hunit : unitExponent num den = unitExponent other below := by
      rw [unitExponent_eq_log (Nat.pos_of_ne_zero hnum) hden,
        unitExponent_eq_log (Nat.pos_of_ne_zero hother) hbelow, h]
    have hround : ∀ unit, roundDiv (inUnits num den unit).1 (inUnits num den unit).2 =
        roundDiv (inUnits other below unit).1 (inUnits other below unit).2 := by
      intro unit
      refine roundDiv_congr (inUnits_pos hden unit) (inUnits_pos hbelow unit) ?_
      rw [inUnits_eq, inUnits_eq, h]
    rw [ofRatio_eq_settled hnum rfl, ofRatio_eq_settled hother rfl, hunit, hround]

theorem exponent_eq_max (hcanonical : (finite negative mantissa exponent).Canonical)
    (hmantissa : mantissa ≠ 0) :
    exponent = max (Int.log 2 ((mantissa : ℚ) * 2 ^ exponent) - 52) (-1074) := by
  obtain ⟨hless, hleast, -, hfull⟩ := hcanonical
  have hpositive : (0 : ℚ) < mantissa * 2 ^ exponent := by positivity
  have hmissed : Int.log 2 ((mantissa : ℚ) * 2 ^ exponent) < 53 + exponent := by
    rw [← Int.lt_zpow_iff_log_lt (by decide) hpositive, Nat.cast_two, zpow_add₀ two_ne_zero]
    have hcast : (mantissa : ℚ) < 2 ^ (53 : Int) := by exact_mod_cast hless
    gcongr
  rcases hfull with hfull | rfl
  · have hreached : 52 + exponent ≤ Int.log 2 ((mantissa : ℚ) * 2 ^ exponent) := by
      rw [← Int.zpow_le_iff_le_log (by decide) hpositive, Nat.cast_two, zpow_add₀ two_ne_zero]
      have hcast : (2 : ℚ) ^ (52 : Int) ≤ mantissa := by exact_mod_cast hfull
      gcongr
    omega
  · omega

theorem ofRatio_exact (hcanonical : (finite negative mantissa exponent).Canonical)
    (hmantissa : mantissa ≠ 0) (hden : 0 < den)
    (h : (num : ℚ) / den = mantissa * 2 ^ exponent) :
    ofRatio negative num den = .finite negative mantissa exponent := by
  obtain ⟨hless, -, hgreatest, -⟩ := id hcanonical
  have hnum : num ≠ 0 := by
    rintro rfl
    have hpositive : (0 : ℚ) < mantissa * 2 ^ exponent := by positivity
    simp [← h] at hpositive
  have hexponent : exponent = max (unitExponent num den) (-1074) := by
    rw [unitExponent_eq_log (Nat.pos_of_ne_zero hnum) hden, h]
    exact exponent_eq_max hcanonical hmantissa
  have hexact : roundDiv (inUnits num den exponent).1 (inUnits num den exponent).2 = mantissa := by
    refine roundDiv_of_dvd (inUnits_pos hden exponent) ?_
    rw [inUnits_eq, h]
    field_simp
  rw [ofRatio_eq_settled hnum hexponent, hexact, settled, if_neg hless.ne, bounded,
    if_neg (by omega)]

/-! ## Decimals -/

theorem decimalRatio_pos (digits : Nat) (exponent : Int) :
    0 < (decimalRatio digits exponent).2 := by
  cases exponent with
  | ofNat k => exact Nat.one_pos
  | negSucc k => exact Nat.pow_pos (by decide)

theorem decimalRatio_eq (digits : Nat) (exponent : Int) :
    ((decimalRatio digits exponent).1 : ℚ) / (decimalRatio digits exponent).2 =
      digits * 10 ^ exponent := by
  cases exponent with
  | ofNat k => simp [decimalRatio]
  | negSucc k => simp [decimalRatio, zpow_negSucc, div_eq_mul_inv]

theorem length_repr_bounds (h : digits ≠ 0) :
    (10 : ℚ) ^ (((Nat.repr digits).length : Int) - 1) ≤ digits ∧
      (digits : ℚ) < 10 ^ ((Nat.repr digits).length : Int) := by
  have hlength : (Nat.repr digits).length = (Nat.toDigits 10 digits).length := by
    rw [← String.length_toList, Nat.toList_repr]
  have hpositive : 0 < (Nat.toDigits 10 digits).length := Nat.length_toDigits_pos
  rw [hlength]
  constructor
  · obtain ⟨count, hcount⟩ := Nat.exists_eq_add_one.mpr hpositive
    rw [hcount, Nat.cast_succ, add_sub_cancel_right, zpow_natCast]
    rcases Nat.eq_zero_or_pos count with rfl | hmore
    · rw [pow_zero]
      exact_mod_cast Nat.pos_of_ne_zero h
    · have hleast := (Nat.length_toDigits_le_iff (n := digits) (b := 10) (by decide) hmore).not
      rw [hcount] at hleast
      exact_mod_cast not_lt.mp (hleast.mp (by omega))
  · rw [zpow_natCast]
    exact_mod_cast (Nat.length_toDigits_le_iff (by decide) hpositive).mp le_rfl

/-- Where the first digit of a decimal stands is that of its value. -/
theorem place_eq_log (h : digits ≠ 0) (exponent : Int) :
    exponent + (Nat.repr digits).length = Int.log 10 ((digits : ℚ) * 10 ^ exponent) + 1 := by
  obtain ⟨hleast, hless⟩ := length_repr_bounds h
  have hlog : Int.log 10 ((digits : ℚ) * 10 ^ exponent) =
      ((Nat.repr digits).length : Int) - 1 + exponent := by
    refine log_eq (by decide) ?_ ?_
    · rw [Nat.cast_ofNat, zpow_add₀ (by norm_num)]
      gcongr
    · rw [Nat.cast_ofNat, show ((Nat.repr digits).length : Int) - 1 + exponent + 1 =
        (Nat.repr digits).length + exponent by ring, zpow_add₀ (by norm_num)]
      gcongr
  omega

theorem ofDecimal_eq (h : digits ≠ 0) :
    ofDecimal negative digits exponent =
      if 400 < Int.log 10 ((digits : ℚ) * 10 ^ exponent) + 1 then .infinite negative
      else if Int.log 10 ((digits : ℚ) * 10 ^ exponent) + 1 < -400 then .finite negative 0 (-1074)
      else ofRatio negative (decimalRatio digits exponent).1 (decimalRatio digits exponent).2 := by
  rw [← place_eq_log h]
  unfold ofDecimal
  rw [if_neg h]

theorem ofDecimal_canonical (negative : Bool) (digits : Nat) (exponent : Int) :
    (ofDecimal negative digits exponent).Canonical := by
  by_cases hdigits : digits = 0
  · rw [hdigits, ofDecimal, if_pos rfl]
    exact canonical_zero
  · rw [ofDecimal_eq hdigits]
    split_ifs
    · trivial
    · exact canonical_zero
    · exact ofRatio_canonical (decimalRatio_pos _ _)

/-- A decimal is read for the number that it is, with more or fewer zeros at its end. -/
theorem ofDecimal_congr (h : digits ≠ 0)
    (hvalue : (digits : ℚ) * 10 ^ exponent = other * 10 ^ place) :
    ofDecimal negative digits exponent = ofDecimal negative other place := by
  have hother : other ≠ 0 := by
    rintro rfl
    simp [h] at hvalue
    exact absurd hvalue (by positivity)
  rw [ofDecimal_eq h, ofDecimal_eq hother, hvalue,
    ofRatio_congr (decimalRatio_pos _ _) (decimalRatio_pos _ _)]
  rw [decimalRatio_eq, decimalRatio_eq, hvalue]

theorem two_pow_le_ten_pow (count : Nat) : (2 : ℚ) ^ (3 * count) ≤ 10 ^ count := by
  rw [pow_mul]
  gcongr
  norm_num

theorem log_bounds (hcanonical : (finite negative mantissa exponent).Canonical)
    (hmantissa : mantissa ≠ 0) : -401 ≤ Int.log 10 ((mantissa : ℚ) * 2 ^ exponent) ∧
      Int.log 10 ((mantissa : ℚ) * 2 ^ exponent) < 400 := by
  obtain ⟨hless, hleast, hgreatest, -⟩ := hcanonical
  have hpositive : (0 : ℚ) < mantissa * 2 ^ exponent := by positivity
  constructor
  · rw [← Int.zpow_le_iff_le_log (by decide) hpositive]
    have hone : (1 : ℚ) ≤ mantissa := by exact_mod_cast Nat.pos_of_ne_zero hmantissa
    calc ((10 : ℕ) : ℚ) ^ (-401 : Int) ≤ 2 ^ (-1203 : Int) :=
          inv_anti₀ (by positivity) (two_pow_le_ten_pow 401)
      _ ≤ 2 ^ exponent := zpow_le_zpow_right₀ (by norm_num) (by omega)
      _ ≤ mantissa * 2 ^ exponent := le_mul_of_one_le_left (by positivity) hone
  · rw [← Int.lt_zpow_iff_log_lt (by decide) hpositive]
    have hcast : (mantissa : ℚ) < 2 ^ (53 : Int) := by exact_mod_cast hless
    calc (mantissa : ℚ) * 2 ^ exponent < 2 ^ (53 : Int) * 2 ^ exponent := by gcongr
      _ = 2 ^ (53 + exponent) := (zpow_add₀ two_ne_zero _ _).symm
      _ ≤ 2 ^ (1200 : Int) := zpow_le_zpow_right₀ (by norm_num) (by omega)
      _ ≤ ((10 : ℕ) : ℚ) ^ (400 : Int) := two_pow_le_ten_pow 400

theorem ofDecimal_exact (hcanonical : (finite negative mantissa exponent).Canonical)
    (hmantissa : mantissa ≠ 0) (hvalue : (digits : ℚ) * 10 ^ place = mantissa * 2 ^ exponent) :
    ofDecimal negative digits place = .finite negative mantissa exponent := by
  have hdigits : digits ≠ 0 := by
    rintro rfl
    have hpositive : (0 : ℚ) < mantissa * 2 ^ exponent := by positivity
    simp [← hvalue] at hpositive
  obtain ⟨hreached, hmissed⟩ := log_bounds hcanonical hmantissa
  rw [ofDecimal_eq hdigits, hvalue, if_neg (by omega), if_neg (by omega)]
  exact ofRatio_exact hcanonical hmantissa (decimalRatio_pos _ _) (by rw [decimalRatio_eq, hvalue])

theorem allDigits_eq (mantissa : Nat) (exponent : Int) :
    ((allDigits mantissa exponent).digits : ℚ) * 10 ^ (allDigits mantissa exponent).exponent =
      mantissa * 2 ^ exponent := by
  cases exponent with
  | ofNat k => simp [allDigits]
  | negSucc k =>
      have hten : (10 : ℚ) ^ (k + 1) = 2 ^ (k + 1) * 5 ^ (k + 1) := by
        rw [← mul_pow]
        norm_num
      simp only [allDigits, Nat.pow_eq, zpow_negSucc, zpow_neg, zpow_natCast, hten]
      push_cast
      field_simp

/-- The shortest decimal of a double is read as this double. -/
theorem ofDecimal_shortest (hcanonical : (finite false mantissa exponent).Canonical)
    (hmantissa : mantissa ≠ 0) :
    ofDecimal false (shortest mantissa exponent).digits (shortest mantissa exponent).exponent =
      .finite false mantissa exponent := by
  unfold shortest
  cases hfound : (List.range 17).findSome? fun n => withDigits? mantissa exponent (n + 1) with
  | none => exact ofDecimal_exact hcanonical hmantissa (allDigits_eq mantissa exponent)
  | some decimal =>
      obtain ⟨count, -, hdecimal⟩ := List.exists_of_findSome?_eq_some hfound
      unfold withDigits? at hdecimal
      obtain ⟨digits, hdigits, rfl⟩ := Option.map_eq_some_iff.mp hdecimal
      have hread := List.find?_some hdigits
      rwa [beq_iff_eq] at hread

end ModelMint.Binary64
