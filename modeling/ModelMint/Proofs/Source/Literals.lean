import ModelMint.Proofs.Source.Numbers
import ModelMint.Proofs.Source.Quotations
import ModelMint.Proofs.Source.Written
import ModelMint.Source.Literal

/-!
# Literals as expressions

Every decoded value is written as an expression.  It can be read as far as its lists and
objects do not lie too deep and its whole numbers do not have too many digits.
-/

namespace ModelMint

namespace Source

namespace Expr

def ofInt : Int → Expr
  | .ofNat n => number (Nat.repr n).toList
  | .negSucc n => negative (number (Nat.repr (n + 1)).toList)

def ofBinary64 : Binary64 → Expr
  | .nan => name ['n', 'a', 'n']
  | .infinite below =>
    if below then negative (name ['i', 'n', 'f']) else name ['i', 'n', 'f']
  | .finite below mantissa exponent =>
    if below then negative (number (Binary64.finite false mantissa exponent).text)
    else number (Binary64.finite false mantissa exponent).text

theorem ofBinary64_positive (mantissa : Nat) (exponent : Int) :
    ofBinary64 (.finite false mantissa exponent) =
      number (Binary64.finite false mantissa exponent).text := by
  rw [ofBinary64, if_neg Bool.false_ne_true]

theorem ofBinary64_negative (mantissa : Nat) (exponent : Int) :
    ofBinary64 (.finite true mantissa exponent) =
      negative (number (Binary64.finite false mantissa exponent).text) := by
  rw [ofBinary64, if_pos rfl]

mutual

def ofLiteral : Json → Expr
  | .null => constant ['N', 'o', 'n', 'e']
  | .bool value => constant (boolText value)
  | .int value => ofInt value
  | .float value => ofBinary64 value
  | .str text => quoted (text.toList.flatMap Text.writeChar)
  | .arr items => list none (ofItems items)
  | .obj members => dict none (ofMembers members)

def ofItems : List Json → List Expr
  | [] => []
  | first :: rest => ofLiteral first :: ofItems rest

def ofMembers : List (String × Json) → List Expr
  | [] => []
  | (key, value) :: rest =>
    member (key.toList.flatMap Text.writeChar) (ofLiteral value) :: ofMembers rest

end

/-! ## Characters -/

theorem chars_list_none (items : List Expr) :
    (list none items).chars = '[' :: (Piece.charsOf (row items) ++ [']']) := by
  simp [chars, pieces, Piece.chars]

theorem chars_dict_none (members : List Expr) :
    (dict none members).chars = '\x7b' :: (Piece.charsOf (row members) ++ ['\x7d']) := by
  simp [chars, pieces, Piece.chars]

theorem chars_member (key : List Char) (value : Expr) :
    (member key value).chars = '"' :: (key ++ '"' :: ':' :: ' ' :: value.chars) := by
  simp [chars, pieces, Piece.chars]

theorem charsOf_rowRest (first : Expr) (rest : List Expr) :
    Piece.charsOf (first.pieces ++ rowRest rest) =
      commaSeparated (first.chars :: rest.map chars) := by
  induction rest generalizing first with
  | nil => simp [rowRest, commaSeparated, chars]
  | cons second others ih =>
      rw [Piece.charsOf_append, rowRest, Piece.charsOf_cons, Piece.charsOf_cons, ih]
      simp [commaSeparated, List.intercalate, Piece.chars, chars]

/-- Items on one line have commas between them. -/
theorem charsOf_row (items : List Expr) :
    Piece.charsOf (row items) = commaSeparated (items.map chars) := by
  cases items with
  | nil => rfl
  | cons first rest => exact charsOf_rowRest first rest

theorem chars_ofBinary64 (value : Binary64) : (ofBinary64 value).chars = value.text := by
  cases value with
  | nan => rfl
  | infinite below => cases below <;> rfl
  | finite below mantissa exponent =>
      have hsign : (Binary64.finite true mantissa exponent).text =
          '-' :: (Binary64.finite false mantissa exponent).text := by
        simp only [Binary64.text, if_true, Bool.false_eq_true, if_false]
      cases below with
      | false =>
          rw [ofBinary64_positive]
          simp only [chars, pieces, Piece.charsOf_cons, Piece.chars, Piece.charsOf_nil,
            List.append_nil]
      | true =>
          rw [ofBinary64_negative, hsign]
          simp only [chars, pieces, Piece.charsOf_cons, Piece.chars, Piece.charsOf_nil,
            List.append_nil]
          rfl

mutual

theorem chars_ofLiteral : ∀ value : Json, (ofLiteral value).chars = literal value
  | .null => rfl
  | .bool value => by
      cases value <;> rfl
  | .int (.ofNat n) => by
      simp [ofLiteral, ofInt, chars, pieces, Piece.chars, literal, Json.shown, intText]
  | .int (.negSucc n) => by
      simp [ofLiteral, ofInt, chars, pieces, Piece.chars, literal, Json.shown, intText]
  | .float value => by
      rw [ofLiteral, chars_ofBinary64]
      rfl
  | .str text => by
      simp [ofLiteral, chars, pieces, Piece.chars, literal, Text.written]
  | .arr items => by
      rw [ofLiteral, chars_list_none, charsOf_row, chars_ofItems, literal]
  | .obj members => by
      rw [ofLiteral, chars_dict_none, charsOf_row, chars_ofMembers, literal]

theorem chars_ofItems : ∀ items : List Json, (ofItems items).map chars = literalItems items
  | [] => rfl
  | first :: rest => by
      rw [ofItems, List.map_cons, chars_ofLiteral, chars_ofItems, literalItems]

theorem chars_ofMembers : ∀ members : List (String × Json),
    (ofMembers members).map chars = literalMembers members
  | [] => rfl
  | (key, value) :: rest => by
      rw [ofMembers, List.map_cons, chars_member, chars_ofLiteral, chars_ofMembers, literalMembers,
        Text.written]
      simp

end

/-! ## Soundness -/

theorem isMember_ofLiteral (value : Json) : (ofLiteral value).isMember = false := by
  cases value with
  | int value => cases value <;> rfl
  | float value =>
      cases value with
      | nan => rfl
      | infinite below => cases below <;> rfl
      | finite below mantissa exponent =>
          cases below with
          | false =>
              rw [ofLiteral, ofBinary64_positive]
              rfl
          | true =>
              rw [ofLiteral, ofBinary64_negative]
              rfl
  | _ => rfl

theorem sound_ofInt (value : Int) : (ofInt value).Sound := by
  cases value with
  | ofNat n => exact isNumber_digits (IsDigits.repr n)
  | negSucc n => exact ⟨isNumber_digits (IsDigits.repr (n + 1)), rfl⟩

theorem sound_ofBinary64 (value : Binary64) : (ofBinary64 value).Sound := by
  have hname : ∀ word ∈ [['n', 'a', 'n'], ['i', 'n', 'f']], Text.isPlainName word = true := by decide
  cases value with
  | nan => exact hname ['n', 'a', 'n'] (by simp)
  | infinite below =>
      cases below with
      | false => exact hname ['i', 'n', 'f'] (by simp)
      | true => exact ⟨hname ['i', 'n', 'f'] (by simp), rfl⟩
  | finite below mantissa exponent =>
      have hbody := (isNumber_body mantissa exponent).1
      cases below with
      | false =>
          rw [ofBinary64_positive]
          exact hbody
      | true =>
          rw [ofBinary64_negative]
          exact ⟨hbody, rfl⟩

mutual

theorem sound_ofLiteral : ∀ value : Json, (ofLiteral value).Sound
  | .null => by
      change ['N', 'o', 'n', 'e'] ∈ constants
      decide
  | .bool value => by
      change boolText value ∈ constants
      revert value
      decide
  | .int value => sound_ofInt value
  | .float value => sound_ofBinary64 value
  | .str text => isBody_written text.toList
  | .arr items => sound_ofItems items
  | .obj members => sound_ofMembers members

theorem sound_ofItems : ∀ items : List Json,
    AreSound (ofItems items) ∧ (ofItems items).all (!·.isMember) = true
  | [] => ⟨trivial, rfl⟩
  | first :: rest => by
      obtain ⟨hsound, hplain⟩ := sound_ofItems rest
      refine ⟨⟨sound_ofLiteral first, hsound⟩, ?_⟩
      rw [ofItems, List.all_cons, isMember_ofLiteral, hplain]
      rfl

theorem sound_ofMembers : ∀ members : List (String × Json),
    AreSound (ofMembers members) ∧ (ofMembers members).all isMember = true
  | [] => ⟨trivial, rfl⟩
  | (key, value) :: rest => by
      obtain ⟨hsound, hmembers⟩ := sound_ofMembers rest
      refine ⟨⟨⟨isBody_written key.toList, sound_ofLiteral value, isMember_ofLiteral value⟩, hsound⟩,
        ?_⟩
      rw [ofMembers, List.all_cons, hmembers]
      rfl

end

end Expr

end Source

/-! ## Bounds -/

namespace Json

open Source

mutual

/-- Whether the value can be read behind so many open brackets once it is written. -/
def isWithin (depth : Nat) : Json → Bool
  | .int value => decide ((Nat.repr value.natAbs).length ≤ wholeDigits)
  | .arr items => decide (depth < bracketLimit) && itemsWithin (depth + 1) items
  | .obj members => decide (depth < bracketLimit) && membersWithin (depth + 1) members
  | _ => true

def itemsWithin (depth : Nat) : List Json → Bool
  | [] => true
  | item :: rest => item.isWithin depth && itemsWithin depth rest

def membersWithin (depth : Nat) : List (String × Json) → Bool
  | [] => true
  | (_, value) :: rest => value.isWithin depth && membersWithin depth rest

end

end Json

namespace Source

theorem head?_toDigits {value : Nat} (h : value ≠ 0) : (Nat.toDigits 10 value).head? ≠ some '0' := by
  induction value using Nat.strongRecOn with
  | ind value ih =>
      rcases Nat.lt_or_ge value 10 with hsmall | hlarge
      · have hall : ∀ digit < 10, digit ≠ 0 → (Nat.toDigits 10 digit).head? ≠ some '0' := by decide
        exact hall value hsmall h
      · have hquotient : value / 10 ≠ 0 := by omega
        have hhead := ih (value / 10) (by omega) hquotient
        rw [Nat.toDigits_of_base_le (by decide) hlarge, List.head?_append_of_ne_nil _
          Nat.toDigits_ne_nil]
        exact hhead

theorem isWhole_repr {value : Nat} (h : (Nat.repr value).length ≤ wholeDigits) :
    isWhole (Nat.repr value).toList = true := by
  rw [← String.length_toList] at h
  unfold isWhole
  by_cases hzero : value = 0
  · subst hzero
    decide
  · have hhead : ((Nat.repr value).toList.head? == some '0') = false := by
      rw [Nat.toList_repr]
      simpa using head?_toDigits hzero
    rw [hhead, if_neg (by decide), decide_eq_true_eq]
    exact (List.length_filter_le _ _).trans h

namespace Expr

theorem fits_ofInt {value : Int} (h : (Nat.repr value.natAbs).length ≤ wholeDigits) (depth : Nat) :
    (ofInt value).fits depth = true := by
  cases value with
  | ofNat n =>
      rw [ofInt, fits, isSome_numberEnd (IsDigits.repr n)]
      exact isWhole_repr h
  | negSucc n =>
      rw [ofInt, fits, fits, isSome_numberEnd (IsDigits.repr (n + 1))]
      exact isWhole_repr h

theorem fits_ofBinary64 (value : Binary64) (depth : Nat) : (ofBinary64 value).fits depth = true := by
  cases value with
  | nan => rfl
  | infinite below => cases below <;> rfl
  | finite below mantissa exponent =>
      have hbody := (isNumber_body mantissa exponent).2
      cases below with
      | false =>
          rw [ofBinary64_positive, fits]
          exact hbody
      | true =>
          rw [ofBinary64_negative, fits, fits]
          exact hbody

mutual

theorem fits_ofLiteral : ∀ {value : Json} {depth : Nat}, value.isWithin depth = true →
    (ofLiteral value).fits depth = true
  | .null, _, _ | .bool _, _, _ | .str _, _, _ => rfl
  | .int value, depth, h => fits_ofInt (of_decide_eq_true h) depth
  | .float value, depth, _ => fits_ofBinary64 value depth
  | .arr items, depth, h => by
      obtain ⟨hdepth, hitems⟩ := Bool.and_eq_true_iff.mp h
      rw [ofLiteral, fits, hdepth, allFit_ofItems hitems]
      rfl
  | .obj members, depth, h => by
      obtain ⟨hdepth, hmembers⟩ := Bool.and_eq_true_iff.mp h
      rw [ofLiteral, fits, hdepth, allFit_ofMembers hmembers]
      rfl

theorem allFit_ofItems : ∀ {items : List Json} {depth : Nat}, Json.itemsWithin depth items = true →
    allFit depth (ofItems items) = true
  | [], _, _ => rfl
  | first :: rest, depth, h => by
      obtain ⟨hfirst, hrest⟩ := Bool.and_eq_true_iff.mp h
      rw [ofItems, allFit, fits_ofLiteral hfirst, allFit_ofItems hrest]
      rfl

theorem allFit_ofMembers : ∀ {members : List (String × Json)} {depth : Nat},
    Json.membersWithin depth members = true → allFit depth (ofMembers members) = true
  | [], _, _ => rfl
  | (key, value) :: rest, depth, h => by
      obtain ⟨hvalue, hrest⟩ := Bool.and_eq_true_iff.mp h
      rw [ofMembers, allFit, fits, fits_ofLiteral hvalue, allFit_ofMembers hrest]
      rfl

end

end Expr

end Source

end ModelMint
