import ModelMint.Json.Shown
import ModelMint.Proofs.Source.Pieces

/-!
# Numbers in source

Whole numbers and doubles are numbers of the target language in the form in which they
are written.  Only a whole number may have too many digits; a double has a point or an
exponent, and no bound applies to it.
-/

namespace ModelMint.Source

/-- Digits, and at least one. -/
structure IsDigits (digits : List Char) : Prop where
  nonempty : digits ≠ []
  digits : ∀ c ∈ digits, c.isDigit = true

namespace IsDigits

variable {digits more : List Char}

theorem append (h : IsDigits digits) (hmore : ∀ c ∈ more, c.isDigit = true) :
    IsDigits (digits ++ more) :=
  ⟨by simp [h.nonempty], List.forall_mem_append.mpr ⟨h.digits, hmore⟩⟩

theorem append_right (h : ∀ c ∈ digits, c.isDigit = true) (hmore : IsDigits more) :
    IsDigits (digits ++ more) :=
  ⟨by simp [hmore.nonempty], List.forall_mem_append.mpr ⟨h, hmore.digits⟩⟩

theorem take (h : IsDigits digits) {count : Nat} (hcount : count ≠ 0) :
    IsDigits (digits.take count) :=
  ⟨by simp [h.nonempty, hcount], fun c hc => h.digits c (List.mem_of_mem_take hc)⟩

theorem drop (h : IsDigits digits) {count : Nat} (hcount : count < digits.length) :
    IsDigits (digits.drop count) :=
  ⟨by simpa using hcount, fun c hc => h.digits c (List.mem_of_mem_drop hc)⟩

theorem zeros (count : Nat) : ∀ c ∈ List.replicate count '0', c.isDigit = true := by
  intro c hc
  rw [List.eq_of_mem_replicate hc]
  rfl

theorem unbroken (h : IsDigits digits) : '\r' ∉ digits :=
  fun hmem => absurd (h.digits _ hmem) (by decide)

theorem repr (value : Nat) : IsDigits (Nat.repr value).toList := by
  rw [Nat.toList_repr]
  exact ⟨Nat.toDigits_ne_nil, fun c hc => Nat.isDigit_of_mem_toDigits (by decide) (by decide) hc⟩

end IsDigits

/-! ## The end of a number -/

section Ends

variable {digits rest tail : List Char}

/-- Something that digits do not go on with. -/
def EndsDigits (rest : List Char) : Prop := ∀ c ∈ rest.head?, c.isDigit = false ∧ c ≠ '_'

theorem EndsNumber.endsDigits (h : EndsNumber rest) : EndsDigits rest := by
  intro c hc
  have hplain := (h c hc).1
  refine ⟨?_, ?_⟩
  · rw [Bool.eq_false_iff]
    intro hdigit
    rw [isWordChar, hdigit, Bool.or_true] at hplain
    cases hplain
  · rintro rfl
    cases hplain

theorem endsAt_of_endsNumber (h : EndsNumber rest) : endsAt rest = some rest := by
  have hends : endsNumber rest = true := by
    unfold endsNumber
    split
    · rfl
    · rfl
    · rfl
    next c others _ _ _ =>
      rw [(h c rfl).1]
      rfl
    · rfl
  rw [endsAt, hends]
  rfl

theorem ne_of_endsNumber {c other : Char} (h : EndsNumber (c :: rest))
    (hother : isWordChar other = true ∨ other = '.') : c ≠ other := by
  rintro rfl
  obtain ⟨hword, hpoint⟩ := h c rfl
  rcases hother with hletter | hdot
  · rw [hletter] at hword
    cases hword
  · exact hpoint hdot

theorem imaginaryEnd_of_endsNumber (h : EndsNumber rest) : imaginaryEnd rest = some rest := by
  unfold imaginaryEnd
  split
  · exact absurd rfl (ne_of_endsNumber h (.inl (by decide)))
  · exact absurd rfl (ne_of_endsNumber h (.inl (by decide)))
  · exact endsAt_of_endsNumber h

theorem exponentEnd_of_endsNumber (h : EndsNumber rest) : exponentEnd rest = some rest := by
  unfold exponentEnd
  split
  next e sign others =>
    have hsmall : (e == 'e') = false := by
      simpa using ne_of_endsNumber h (.inl (by decide))
    have hlarge : (e == 'E') = false := by
      simpa using ne_of_endsNumber h (.inl (by decide))
    rw [hsmall, hlarge]
    exact imaginaryEnd_of_endsNumber h
  · exact imaginaryEnd_of_endsNumber h

theorem decimalTail_cons {c : Char} (hunderscore : c ≠ '_') :
    decimalTail (c :: rest) = if c.isDigit then decimalTail rest else some (c :: rest) := by
  rw [decimalTail]
  · simp [hunderscore]
  · exact fun d others hc => absurd hc hunderscore

theorem decimalTail_digits (hdigits : ∀ c ∈ digits, c.isDigit = true) (hrest : EndsDigits rest) :
    decimalTail (digits ++ rest) = some rest := by
  induction digits with
  | nil =>
      cases rest with
      | nil => rfl
      | cons c others =>
          obtain ⟨hdigit, hunderscore⟩ := hrest c rfl
          rw [List.nil_append, decimalTail_cons hunderscore, hdigit]
          rfl
  | cons d others ih =>
      obtain ⟨hdigit, hothers⟩ := List.forall_mem_cons.mp hdigits
      have hunderscore : d ≠ '_' := by
        rintro rfl
        cases hdigit
      rw [List.cons_append, decimalTail_cons hunderscore, hdigit]
      exact ih hothers

theorem fractionEnd_digits (h : IsDigits digits) (hrest : EndsDigits rest) :
    fractionEnd (digits ++ rest) = exponentEnd rest := by
  obtain ⟨d, others, rfl⟩ := List.exists_cons_of_ne_nil h.nonempty
  obtain ⟨hdigit, hothers⟩ := List.forall_mem_cons.mp h.digits
  simp [fractionEnd, hdigit, decimalTail_digits hothers hrest]

theorem exponentEnd_digits (h : IsDigits digits) {sign : Char} (hsign : sign = '+' ∨ sign = '-')
    (hrest : EndsNumber rest) : exponentEnd ('e' :: sign :: (digits ++ rest)) = some rest := by
  obtain ⟨d, others, rfl⟩ := List.exists_cons_of_ne_nil h.nonempty
  obtain ⟨hdigit, hothers⟩ := List.forall_mem_cons.mp h.digits
  have htail := decimalTail_digits hothers hrest.endsDigits
  rcases hsign with rfl | rfl <;>
    simp [exponentEnd, hdigit, htail, imaginaryEnd_of_endsNumber hrest]

/-- Whether the digits are a whole number: zero has any number of digits. -/
def isWhole (digits : List Char) : Bool :=
  if digits.head? == some '0' then digits.all (fun c => c == '0' || c == '_')
  else decide ((digits.filter Char.isDigit).length ≤ wholeDigits)

theorem wholeEnd_of_endsNumber (h : EndsNumber rest) :
    wholeEnd digits rest = if isWhole digits then some rest else none := by
  unfold wholeEnd isWhole
  split
  · exact absurd rfl (ne_of_endsNumber h (.inr rfl))
  · exact absurd rfl (ne_of_endsNumber h (.inl (by decide)))
  · exact absurd rfl (ne_of_endsNumber h (.inl (by decide)))
  · exact absurd rfl (ne_of_endsNumber h (.inl (by decide)))
  · exact absurd rfl (ne_of_endsNumber h (.inl (by decide)))
  · rw [endsAt_of_endsNumber h]
    split
    · rfl
    · by_cases hlong : wholeDigits < (digits.filter Char.isDigit).length
      · simp [hlong, Nat.not_le.mpr hlong]
      · simp [hlong, Nat.not_lt.mp hlong]

/-- The letters that a number to another base has behind its zero. -/
def radixLetters : List Char := ['x', 'X', 'o', 'O', 'b', 'B']

theorem numberEnd_digits (h : IsDigits digits) (hrest : EndsDigits rest)
    (hradix : ∀ c ∈ rest.head?, c ∉ radixLetters) :
    numberEnd (digits ++ rest) = wholeEnd digits rest := by
  obtain ⟨d, others, rfl⟩ := List.exists_cons_of_ne_nil h.nonempty
  obtain ⟨hdigit, hothers⟩ := List.forall_mem_cons.mp h.digits
  have hsecond : ∀ c ∈ (others ++ rest).head?, c ∉ radixLetters := by
    cases others with
    | nil => exact hradix
    | cons second after =>
        rintro c ⟨⟩ hmem
        have hall : radixLetters.all (!·.isDigit) = true := by decide
        have hletter := List.all_eq_true.mp hall second hmem
        rw [hothers second List.mem_cons_self] at hletter
        cases hletter
  have hpoint : d ≠ '.' := by
    rintro rfl
    cases hdigit
  have htail := decimalTail_digits hothers hrest
  have htake : (d :: (others ++ rest)).take ((d :: (others ++ rest)).length - rest.length) =
      d :: others := by
    simp [show others.length + rest.length + 1 - rest.length =
      others.length + 1 by omega]
  rw [List.cons_append]
  unfold numberEnd
  split
  iterate 6
    next heq =>
      have hcons := (List.cons.inj heq).2
      rw [hcons] at hsecond
      exact absurd (by decide) (hsecond _ rfl)
  next heq => exact absurd (List.cons.inj heq).1 hpoint
  next heq =>
    cases heq
    simp only [hdigit, if_true, htail, Option.bind_eq_bind, Option.bind_some, htake]
  next heq => cases heq

/-! ## Forms of numbers -/

theorem isNumber_digits (h : IsDigits digits) : IsNumber digits where
  head := by
    obtain ⟨d, others, rfl⟩ := List.exists_cons_of_ne_nil h.nonempty
    exact ⟨d, others, rfl, h.digits d List.mem_cons_self⟩
  scanned rest hrest := by
    have hend : ∀ {rest}, EndsNumber rest →
        numberEnd (digits ++ rest) = if isWhole digits then some rest else none := by
      intro rest hrest
      rw [numberEnd_digits h hrest.endsDigits, wholeEnd_of_endsNumber hrest]
      intro c hc hmem
      have hall : radixLetters.all isWordChar = true := by decide
      have hword := List.all_eq_true.mp hall c hmem
      rw [(hrest c hc).1] at hword
      cases hword
    have hnil : numberEnd digits = if isWhole digits then some [] else none := by
      rw [← hend (fun c hc => by cases hc), List.append_nil]
    rw [hend hrest, hnil]
    cases isWhole digits <;> rfl
  unbroken := h.unbroken

theorem isSome_numberEnd (h : IsDigits digits) : (numberEnd digits).isSome = isWhole digits := by
  have hnil : numberEnd (digits ++ []) = wholeEnd digits [] :=
    numberEnd_digits h (fun c hc => by cases hc) (fun c hc => by cases hc)
  rw [List.append_nil] at hnil
  rw [hnil, wholeEnd_of_endsNumber fun c hc => by cases hc]
  cases isWhole digits <;> rfl

/-- What makes digits a double: a point or an exponent, with all that belongs to it. -/
structure IsParted (tail : List Char) : Prop where
  head : tail.head? = some '.' ∨ tail.head? = some 'e'
  ends : ∀ digits rest, EndsNumber rest → wholeEnd digits (tail ++ rest) = some rest
  unbroken : '\r' ∉ tail

theorem numberEnd_parted (h : IsDigits digits) (htail : IsParted tail) (hrest : EndsNumber rest) :
    numberEnd (digits ++ (tail ++ rest)) = some rest := by
  obtain ⟨c, others, rfl⟩ : ∃ c others, tail = c :: others := by
    cases tail with
    | nil => rcases htail.head with hhead | hhead <;> cases hhead
    | cons c others => exact ⟨c, others, rfl⟩
  have hhead : c = '.' ∨ c = 'e' := by simpa using htail.head
  have hdigits : EndsDigits (c :: others ++ rest) := by
    rintro d ⟨⟩
    rcases hhead with rfl | rfl <;> decide
  have hradix : ∀ d ∈ (c :: others ++ rest).head?, d ∉ radixLetters := by
    rintro d ⟨⟩
    rcases hhead with rfl | rfl <;> decide
  rw [numberEnd_digits h hdigits hradix, htail.ends digits rest hrest]

theorem isNumber_parted (h : IsDigits digits) (htail : IsParted tail) :
    IsNumber (digits ++ tail) ∧ (numberEnd (digits ++ tail)).isSome = true := by
  have hnil := numberEnd_parted h htail (show EndsNumber [] from fun c hc => by cases hc)
  rw [List.append_nil] at hnil
  refine ⟨⟨?_, fun rest hrest => ?_, ?_⟩, ?_⟩
  · obtain ⟨d, others, rfl⟩ := List.exists_cons_of_ne_nil h.nonempty
    exact ⟨d, others ++ tail, rfl, h.digits d List.mem_cons_self⟩
  · rw [List.append_assoc, numberEnd_parted h htail hrest, hnil]
    rfl
  · rw [List.mem_append]
    exact fun hmem => hmem.elim h.unbroken htail.unbroken
  · rw [hnil]
    rfl

theorem isParted_fraction (h : IsDigits digits) : IsParted ('.' :: digits) where
  head := .inl rfl
  ends _ rest hrest := by
    rw [List.cons_append]
    simp only [wholeEnd]
    rw [fractionEnd_digits h hrest.endsDigits, exponentEnd_of_endsNumber hrest]
  unbroken := by simpa using h.unbroken

theorem isParted_exponent {power : List Char} (hpower : IsDigits power) {sign : Char}
    (hsign : sign = '+' ∨ sign = '-') (hdigits : digits = [] ∨ IsDigits digits) :
    IsParted ((if digits.isEmpty then [] else '.' :: digits) ++ 'e' :: sign :: power) where
  head := by cases digits <;> simp
  ends whole rest hrest := by
    have hend := exponentEnd_digits hpower hsign hrest
    rcases hdigits with rfl | hdigits
    · simpa [wholeEnd] using hend
    · have hends : EndsDigits ('e' :: sign :: (power ++ rest)) := by
        rintro c ⟨⟩
        decide
      have hsome : digits.isEmpty = false := by simpa using hdigits.nonempty
      simp only [hsome, Bool.false_eq_true, if_false, List.cons_append, List.append_assoc]
      simp only [wholeEnd]
      rw [fractionEnd_digits hdigits hends, hend]
  unbroken := by
    have hpower := hpower.unbroken
    have hdigits : '\r' ∉ digits := by
      rcases hdigits with rfl | hdigits
      · simp
      · exact hdigits.unbroken
    cases digits <;> rcases hsign with rfl | rfl <;> simp_all

end Ends

/-! ## Doubles -/

theorem isNumber_write {digits : List Char} (h : IsDigits digits) (point : Int) :
    IsNumber (DecimalStyle.standard.write digits point) ∧
      (numberEnd (DecimalStyle.standard.write digits point)).isSome = true := by
  have hzero : IsDigits ['0'] := ⟨by simp, by simp⟩
  unfold DecimalStyle.write
  split
  · split
    · exact isNumber_parted hzero (isParted_fraction h)
    next before hbefore _ =>
      split
      · exact isNumber_parted (h.append (IsDigits.zeros _)) (isParted_fraction hzero)
      next hlong =>
        have hpositive : before ≠ 0 := fun hnone => hbefore (by rw [hnone])
        exact isNumber_parted (h.take hpositive) (isParted_fraction (h.drop (by omega)))
    · exact isNumber_parted hzero (isParted_fraction (.append_right (IsDigits.zeros _) h))
  · have hpower : IsDigits (padLeft DecimalStyle.standard.exponentDigits
        (Nat.repr (point - 1).natAbs).toList) :=
      .append_right (IsDigits.zeros _) (IsDigits.repr _)
    have hsign : (if point - 1 < 0 then '-' else '+') = '+' ∨
        (if point - 1 < 0 then '-' else '+') = '-' := by
      split <;> simp
    have hfirst : IsDigits (digits.take 1) := h.take (by decide)
    by_cases hlong : digits.length ≤ 1
    · have hnone := isNumber_parted hfirst (isParted_exponent hpower hsign (.inl rfl))
      simpa [hlong] using hnone
    · have hmore : IsDigits (digits.drop 1) := h.drop (by omega)
      have hsome := isNumber_parted hfirst (isParted_exponent hpower hsign (.inr hmore))
      rw [if_neg (by simpa using hmore.nonempty)] at hsome
      simpa [hlong] using hsome

/-- Of a positive number some digit is left when the zeros at its end are gone. -/
theorem isDigits_trimZeros {value : Nat} (h : value ≠ 0) :
    IsDigits (trimZeros (Nat.repr value).toList) where
  nonempty := by
    intro hnil
    have hzeros : ∀ c ∈ Nat.toDigits 10 value, c = '0' := by
      rw [trimZeros, List.reverse_eq_nil_iff, List.dropWhile_eq_nil_iff, Nat.toList_repr] at hnil
      intro c hc
      simpa using hnil c (List.mem_reverse.mpr hc)
    have hall := List.eq_replicate_of_mem hzeros
    have hvalue := Nat.ofDigitChars_ten_toDigits (n := value)
    rw [hall, Nat.ofDigitChars_replicate_zero] at hvalue
    exact h (by simpa using hvalue.symm)
  digits c hc := by
    have hmem : c ∈ (Nat.repr value).toList :=
      List.mem_reverse.mp (List.dropWhile_subset _ (List.mem_reverse.mp hc))
    exact (IsDigits.repr value).digits c hmem

theorem shortest_digits_ne_zero {mantissa : Nat} (h : mantissa ≠ 0) (exponent : Int) :
    (Binary64.shortest mantissa exponent).digits ≠ 0 := by
  have hzero : ∀ place, Binary64.ofDecimal false 0 place ≠ .finite false mantissa exponent := by
    intro place heq
    simp only [Binary64.ofDecimal, if_true, Binary64.finite.injEq] at heq
    exact h heq.2.1.symm
  unfold Binary64.shortest
  cases hfound : (List.range 17).findSome? fun n => Binary64.withDigits? mantissa exponent (n + 1) with
  | none =>
      cases exponent with
      | ofNat k => simp [Binary64.allDigits, h]
      | negSucc k => simp [Binary64.allDigits, h]
  | some decimal =>
      obtain ⟨count, -, hdecimal⟩ := List.exists_of_findSome?_eq_some hfound
      unfold Binary64.withDigits? at hdecimal
      obtain ⟨digits, hdigits, rfl⟩ := Option.map_eq_some_iff.mp hdecimal
      have hread := List.find?_some hdigits
      rw [beq_iff_eq] at hread
      rw [Option.getD_some]
      simp only
      rintro rfl
      exact hzero _ hread

theorem isNumber_body (mantissa : Nat) (exponent : Int) :
    IsNumber (Binary64.finite false mantissa exponent).text ∧
      (numberEnd (Binary64.finite false mantissa exponent).text).isSome = true := by
  have hzero : IsDigits ['0'] := ⟨by simp, by simp⟩
  unfold Binary64.text
  simp only [Bool.false_eq_true, if_false]
  split
  · exact isNumber_write hzero 1
  next hmantissa =>
    have hdigits := shortest_digits_ne_zero hmantissa exponent
    generalize Binary64.shortest mantissa exponent = decimal at hdigits ⊢
    exact isNumber_write (isDigits_trimZeros hdigits) _

end ModelMint.Source
