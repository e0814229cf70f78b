import ModelMint.Json.Reader
import ModelMint.Proofs.Number.Rounding
import ModelMint.Proofs.Source.Literals

/-!
# The values of numbers

Numbers in decimal notation are read for their values: a number without point and
exponent is a whole one, and any other a double.  What is written for a whole number or a
finite double is read as this number, where nothing follows that would belong to it.
-/

namespace ModelMint.Source

open Json (digitsValue)

/-- The value of an unsigned number in decimal notation, and what follows it. -/
def decimal? (text : List Char) : Option (Json × List Char) := do
  let (whole, rest) ← Json.wholePart? text
  let (fraction, rest) := Json.fractionPart rest
  let (power, rest) := Json.exponentPart rest
  if rest.head?.any (fun c => isWordChar c || c == '.') then none
  else if fraction.isEmpty && power.isNone then some (.int (digitsValue whole), rest)
  else
    some (.float (.ofDecimal false (digitsValue (whole ++ fraction))
      (power.getD 0 - fraction.length)), rest)

section Parts

variable {digits more rest : List Char}

/-! ## Digits -/

theorem digitsValue_append (digits more : List Char) :
    digitsValue (digits ++ more) = digitsValue digits * 10 ^ more.length + digitsValue more := by
  calc digitsValue (digits ++ more) = Nat.ofDigitChars 10 more (digitsValue digits) :=
        Nat.ofDigitChars_append 0
    _ = 10 ^ more.length * digitsValue digits + digitsValue more :=
        Nat.ofDigitChars_eq_ofDigitChars_zero
    _ = _ := by rw [Nat.mul_comm]

theorem digitsValue_zeros (count : Nat) : digitsValue (List.replicate count '0') = 0 :=
  Nat.ofDigitChars_replicate_zero.trans (Nat.mul_zero _)

theorem digitsValue_repr (value : Nat) : digitsValue (Nat.repr value).toList = value := by
  rw [Nat.toList_repr]
  exact Nat.ofDigitChars_ten_toDigits

theorem digitsValue_padLeft (count : Nat) (digits : List Char) :
    digitsValue (padLeft count digits) = digitsValue digits := by
  rw [padLeft, digitsValue_append, digitsValue_zeros, Nat.zero_mul, Nat.zero_add]

theorem exists_trimZeros (digits : List Char) :
    ∃ count, digits = trimZeros digits ++ List.replicate count '0' := by
  refine ⟨(digits.reverse.takeWhile (· == '0')).length, ?_⟩
  have hzeros : digits.reverse.takeWhile (· == '0') =
      List.replicate (digits.reverse.takeWhile (· == '0')).length '0' :=
    List.eq_replicate_of_mem fun c hc => by simpa using List.mem_takeWhile_imp hc
  rw [← List.reverse_inj, List.reverse_append, List.reverse_replicate, ← hzeros, trimZeros,
    List.reverse_reverse, List.takeWhile_append_dropWhile]

/-! ## Parts of a number -/

theorem takeWhile_digits (hdigits : ∀ c ∈ digits, c.isDigit = true) (hrest : EndsDigits rest) :
    (digits ++ rest).takeWhile Char.isDigit = digits := by
  rw [List.takeWhile_append_of_pos hdigits]
  cases rest with
  | nil => simp
  | cons c others => simp [(hrest c rfl).1]

/-- Digits that are zero or do not start with it. -/
structure IsWholePart (text : List Char) : Prop extends IsDigits text where
  zero : text.head? = some '0' → text = ['0']

theorem wholePart?_append (h : IsWholePart digits) (hrest : EndsDigits rest) :
    Json.wholePart? (digits ++ rest) = some (digits, rest) := by
  unfold Json.wholePart?
  split
  next after heq =>
    obtain ⟨d, others, rfl⟩ := List.exists_cons_of_ne_nil h.nonempty
    obtain ⟨rfl, rfl⟩ := List.cons.inj heq
    cases h.zero rfl
    rfl
  · simp only [takeWhile_digits h.digits hrest]
    simp [h.nonempty]

theorem fractionPart_append (h : IsDigits digits) (hrest : EndsDigits rest) :
    Json.fractionPart ('.' :: (digits ++ rest)) = (digits, rest) := by
  simp only [Json.fractionPart, takeWhile_digits h.digits hrest]
  simp [h.nonempty]

theorem fractionPart_of_ne (h : ∀ c ∈ rest.head?, c ≠ '.') :
    Json.fractionPart rest = ([], rest) := by
  unfold Json.fractionPart
  split
  · exact absurd rfl (h _ rfl)
  · rfl

theorem exponentPart_append {sign : Char} (hsign : sign = '+' ∨ sign = '-') (h : IsDigits digits)
    (hrest : EndsDigits rest) : Json.exponentPart ('e' :: sign :: (digits ++ rest)) =
      (some (if sign = '-' then -(digitsValue digits : Int) else digitsValue digits), rest) := by
  rcases hsign with rfl | rfl <;>
    simp only [Json.exponentPart, Json.signPart, takeWhile_digits h.digits hrest] <;>
    simp [h.nonempty]

theorem exponentPart_of_endsNumber (h : EndsNumber rest) :
    Json.exponentPart rest = (none, rest) := by
  unfold Json.exponentPart
  split
  · exact absurd rfl (ne_of_endsNumber h (.inl (by decide)))
  · exact absurd rfl (ne_of_endsNumber h (.inl (by decide)))
  · rfl

end Parts

/-! ## Numbers -/

section Numbers

variable {whole fraction power digits rest : List Char}

theorem endsDigits_of_cons {c : Char} (h : c.isDigit = false ∧ c ≠ '_') (rest : List Char) :
    EndsDigits (c :: rest) := by
  rintro d ⟨⟩
  exact h

theorem EndsNumber.any_eq_false (h : EndsNumber rest) :
    rest.head?.any (fun c => isWordChar c || c == '.') = false := by
  cases rest with
  | nil => rfl
  | cons c others =>
      obtain ⟨hword, hpoint⟩ := h c rfl
      simp [hword, hpoint]

theorem EndsNumber.ne_point (h : EndsNumber rest) : ∀ c ∈ rest.head?, c ≠ '.' :=
  fun c hc => (h c hc).2

theorem decimal?_whole (h : IsWholePart digits) (hrest : EndsNumber rest) :
    decimal? (digits ++ rest) = some (.int (digitsValue digits), rest) := by
  simp [decimal?, wholePart?_append h hrest.endsDigits, fractionPart_of_ne hrest.ne_point,
    exponentPart_of_endsNumber hrest, hrest.any_eq_false]

theorem decimal?_fraction (hwhole : IsWholePart whole) (hfraction : IsDigits fraction)
    (hrest : EndsNumber rest) : decimal? (whole ++ '.' :: (fraction ++ rest)) =
      some (.float (.ofDecimal false (digitsValue (whole ++ fraction)) (-fraction.length)),
        rest) := by
  have hpoint : EndsDigits ('.' :: (fraction ++ rest)) := endsDigits_of_cons (by decide) _
  simp [decimal?, wholePart?_append hwhole hpoint, fractionPart_append hfraction hrest.endsDigits,
    exponentPart_of_endsNumber hrest, hrest.any_eq_false, hfraction.nonempty]

theorem decimal?_exponent (hwhole : IsWholePart whole)
    (hfraction : fraction = [] ∨ IsDigits fraction) {sign : Char} (hsign : sign = '+' ∨ sign = '-')
    (hpower : IsDigits power) (hrest : EndsNumber rest) :
    decimal? (whole ++ ((if fraction.isEmpty then [] else '.' :: fraction) ++
        'e' :: sign :: (power ++ rest))) =
      some (.float (.ofDecimal false (digitsValue (whole ++ fraction))
        ((if sign = '-' then -(digitsValue power : Int) else digitsValue power) -
          fraction.length)), rest) := by
  have hends : EndsDigits ('e' :: sign :: (power ++ rest)) := endsDigits_of_cons (by decide) _
  have hexponent := exponentPart_append hsign hpower hrest.endsDigits
  rcases hfraction with rfl | hfraction
  · have hnone : Json.fractionPart ('e' :: sign :: (power ++ rest)) =
        ([], 'e' :: sign :: (power ++ rest)) := rfl
    simp [decimal?, wholePart?_append hwhole hends, hnone, hexponent, hrest.any_eq_false]
  · have hsome : fraction.isEmpty = false := by simpa using hfraction.nonempty
    have hpoint : EndsDigits ('.' :: (fraction ++ 'e' :: sign :: (power ++ rest))) :=
      endsDigits_of_cons (by decide) _
    simp [decimal?, wholePart?_append hwhole hpoint, fractionPart_append hfraction hends,
      hexponent, hrest.any_eq_false, hsome]

theorem isWholePart_zero : IsWholePart ['0'] := ⟨⟨by simp, by simp⟩, fun _ => rfl⟩

/-- Digits that start like others that do not start with zero. -/
theorem isWholePart_of_head (h : IsDigits whole) (hhead : digits.head? ≠ some '0')
    (hsame : whole.head? = digits.head?) : IsWholePart whole :=
  ⟨h, fun hzero => absurd (hsame ▸ hzero) hhead⟩

/-- Digits that are filled up with zeros as far as the point. -/
theorem decimal?_filled (h : IsDigits digits) (hhead : digits.head? ≠ some '0')
    (hdigits : digitsValue digits ≠ 0) (count : Nat) (hrest : EndsNumber rest) :
    decimal? (digits ++ List.replicate count '0' ++ '.' :: '0' :: rest) =
      some (.float (.ofDecimal false (digitsValue digits) count), rest) := by
  have hfilled : IsWholePart (digits ++ List.replicate count '0') :=
    isWholePart_of_head (h.append (IsDigits.zeros _)) hhead
      (List.head?_append_of_ne_nil _ h.nonempty)
  have hread := decimal?_fraction hfilled isWholePart_zero.toIsDigits hrest
  have hvalue : (digitsValue digits : ℚ) * 10 ^ (count : Int) =
      (digitsValue (digits ++ List.replicate count '0' ++ ['0']) : ℚ) *
        10 ^ (-(['0'].length : Int)) := by
    rw [digitsValue_append, digitsValue_append, digitsValue_zeros]
    simp [digitsValue]
  rw [Binary64.ofDecimal_congr hdigits hvalue]
  simpa using hread

/-- One digit before the point, and the power that it stands for. -/
theorem decimal?_scientific (h : IsDigits digits) (hhead : digits.head? ≠ some '0') (power : Int)
    (width : Nat) (hrest : EndsNumber rest) :
    decimal? (digits.take 1 ++ (if digits.length ≤ 1 then [] else '.' :: digits.drop 1) ++
        'e' :: (if power < 0 then '-' else '+') ::
          (padLeft width (Nat.repr power.natAbs).toList ++ rest)) =
      some (.float (.ofDecimal false (digitsValue digits) (power + 1 - digits.length)), rest) := by
  have hsign : (if power < 0 then '-' else '+') = '+' ∨ (if power < 0 then '-' else '+') = '-' := by
    split <;> simp
  have hpower : IsDigits (padLeft width (Nat.repr power.natAbs).toList) :=
    .append_right (IsDigits.zeros _) (IsDigits.repr _)
  have hfirst : IsWholePart (digits.take 1) :=
    isWholePart_of_head (h.take (by decide)) hhead (by rw [List.head?_take, if_neg (by decide)])
  have hlater : digits.drop 1 = [] ∨ IsDigits (digits.drop 1) := by
    rcases Nat.lt_or_ge 1 digits.length with hlong | hshort
    · exact .inr (h.drop hlong)
    · exact .inl (List.drop_eq_nil_of_le hshort)
  have hempty : (digits.drop 1).isEmpty = decide (digits.length ≤ 1) := by
    rw [Bool.eq_iff_iff, List.isEmpty_iff, List.drop_eq_nil_iff, decide_eq_true_iff]
  have hplace : (if (if power < 0 then '-' else '+') = '-' then -(power.natAbs : Int)
      else power.natAbs) - ((digits.drop 1).length : Int) = power + 1 - digits.length := by
    have hsome : 0 < digits.length := List.length_pos_of_ne_nil h.nonempty
    rw [List.length_drop]
    split_ifs <;> first | omega | contradiction
  have hread := decimal?_exponent hfirst hlater hsign hpower hrest
  rw [digitsValue_padLeft, digitsValue_repr, List.take_append_drop, hempty, hplace] at hread
  simpa using hread

/-- A decimal in any of its forms is read as the digits at their place. -/
theorem decimal?_write (h : IsDigits digits) (hhead : digits.head? ≠ some '0')
    (hdigits : digitsValue digits ≠ 0) (point : Int) (hrest : EndsNumber rest) :
    decimal? (DecimalStyle.standard.write digits point ++ rest) =
      some (.float (.ofDecimal false (digitsValue digits) (point - digits.length)), rest) := by
  unfold DecimalStyle.write
  split
  · split
    · have hread := decimal?_fraction isWholePart_zero h hrest
      rw [digitsValue_append] at hread
      simpa [digitsValue] using hread
    next before hbefore _ =>
      split
      next hshort =>
        have hread := decimal?_filled h hhead hdigits (before - digits.length) hrest
        rw [Nat.cast_sub hshort] at hread
        simpa using hread
      next hlong =>
        have hpositive : before ≠ 0 := fun hnone => hbefore (by rw [hnone])
        have hfirst : IsWholePart (digits.take before) :=
          isWholePart_of_head (h.take hpositive) hhead (by rw [List.head?_take, if_neg hpositive])
        have hlater : IsDigits (digits.drop before) := h.drop (by omega)
        have hread := decimal?_fraction hfirst hlater hrest
        rw [List.take_append_drop, List.length_drop, Nat.cast_sub (by omega)] at hread
        simpa using hread
    next zeros _ =>
      have hfraction : IsDigits (List.replicate (zeros + 1) '0' ++ digits) :=
        .append_right (IsDigits.zeros _) h
      have hread := decimal?_fraction isWholePart_zero hfraction hrest
      rw [digitsValue_append, digitsValue_append, digitsValue_zeros] at hread
      simpa [digitsValue, Int.negSucc_eq, sub_eq_add_neg, add_comm] using hread
  · have hread := decimal?_scientific h hhead (point - 1) DecimalStyle.standard.exponentDigits hrest
    simpa using hread

theorem isWholePart_repr (value : Nat) : IsWholePart (Nat.repr value).toList := by
  refine ⟨IsDigits.repr value, fun hhead => ?_⟩
  rw [Nat.toList_repr] at hhead ⊢
  by_cases hzero : value = 0
  · rw [hzero]
    rfl
  · exact absurd hhead (head?_toDigits hzero)

theorem decimal?_repr (value : Nat) (hrest : EndsNumber rest) :
    decimal? ((Nat.repr value).toList ++ rest) = some (.int value, rest) := by
  rw [decimal?_whole (isWholePart_repr value) hrest, digitsValue_repr]

/-- The digits of a positive number that are left without the zeros at its end. -/
theorem trimZeros_repr {value : Nat} (h : value ≠ 0) :
    (trimZeros (Nat.repr value).toList).head? ≠ some '0' ∧
      ∃ count, digitsValue (trimZeros (Nat.repr value).toList) * 10 ^ count = value ∧
        (Nat.repr value).toList.length = (trimZeros (Nat.repr value).toList).length + count := by
  obtain ⟨count, hzeros⟩ := exists_trimZeros (Nat.repr value).toList
  have hhead := head?_toDigits h
  have hvalue := digitsValue_repr value
  rw [← Nat.toList_repr, hzeros,
    List.head?_append_of_ne_nil _ (isDigits_trimZeros h).nonempty] at hhead
  rw [hzeros, digitsValue_append, digitsValue_zeros, List.length_replicate] at hvalue
  refine ⟨hhead, count, by simpa using hvalue, ?_⟩
  conv_lhs => rw [hzeros, List.length_append, List.length_replicate]

theorem decimal?_body {mantissa : Nat} {exponent : Int}
    (hcanonical : (Binary64.finite false mantissa exponent).Canonical) (hrest : EndsNumber rest) :
    decimal? ((Binary64.finite false mantissa exponent).text ++ rest) =
      some (.float (.finite false mantissa exponent), rest) := by
  unfold Binary64.text
  simp only [Bool.false_eq_true, if_false]
  by_cases hmantissa : mantissa = 0
  · subst hmantissa
    have hexponent : exponent = -1074 := hcanonical.2.2.2.resolve_left (by decide)
    rw [if_pos rfl, hexponent]
    exact decimal?_fraction isWholePart_zero isWholePart_zero.toIsDigits hrest
  · rw [if_neg hmantissa]
    have hread := Binary64.ofDecimal_shortest hcanonical hmantissa
    have hdigits := shortest_digits_ne_zero hmantissa exponent
    generalize Binary64.shortest mantissa exponent = decimal at hread hdigits
    obtain ⟨hhead, count, hvalue, hlength⟩ := trimZeros_repr hdigits
    have htrimmed := isDigits_trimZeros hdigits
    generalize trimZeros (Nat.repr decimal.digits).toList = digits at hhead hvalue hlength htrimmed
    have hnonzero : digitsValue digits ≠ 0 := by
      intro hnone
      rw [hnone, Nat.zero_mul] at hvalue
      exact hdigits hvalue.symm
    have hplace : (digitsValue digits : ℚ) *
        10 ^ (decimal.exponent + (Nat.repr decimal.digits).toList.length - digits.length) =
          decimal.digits * 10 ^ decimal.exponent := by
      rw [hlength, ← hvalue, show decimal.exponent + ((digits.length + count : Nat) : Int) -
        digits.length = count + decimal.exponent by push_cast; ring, zpow_add₀ (by norm_num),
        zpow_natCast]
      push_cast
      ring
    rw [decimal?_write htrimmed hhead hnonzero _ hrest, Binary64.ofDecimal_congr hnonzero hplace,
      hread]

end Numbers

end ModelMint.Source
