import ModelMint.Emit.Text
import ModelMint.Proofs.Source.Pieces

/-!
# Quoted texts in source

What is written between quotes is scanned as far as it was written and can be decoded: a
text in its written form on one line, and lines of documentation in triple quotes, where
backslashes and triple quotes are escaped or absent.
-/

namespace ModelMint.Source

/-! ## Decoding -/

/-- The characters that stand for another one behind a backslash. -/
def escapeLetters : List Char := ['\\', '"', 'n', 'r', 't', 'b', 'f']

section Decoding

variable {c letter : Char} {rest : List Char}

theorem decodeFrom_plain (h : c ≠ '\\') :
    decodeFrom false 0 (c :: rest) = (decodeFrom false 0 rest).map (c :: ·) := by
  have hplain : (c == '\\') = false := by simpa using h
  simp [decodeFrom, hplain]

theorem exists_letterEscape? (h : letter ∈ escapeLetters) :
    ∃ value, letterEscape? letter = some value := by
  simp only [escapeLetters, List.mem_cons, List.not_mem_nil, or_false] at h
  rcases h with rfl | rfl | rfl | rfl | rfl | rfl | rfl <;> exact ⟨_, rfl⟩

theorem decodeFrom_letter (h : letter ∈ escapeLetters) (hvalue : letterEscape? letter = some c) :
    decodeFrom false 0 ('\\' :: letter :: rest) = (decodeFrom false 0 rest).map (c :: ·) := by
  have hescape : escape? false (letter :: rest) = some ([c], 1) := by
    simp only [escapeLetters, List.mem_cons, List.not_mem_nil, or_false] at h
    rcases h with rfl | rfl | rfl | rfl | rfl | rfl | rfl <;> cases hvalue <;> rfl
  cases htail : decodeFrom false 0 rest <;> simp [decodeFrom, hescape, htail]

/-- The codes below 32 are read back from four digits. -/
theorem hexNumber?_hexDigits {code : Nat} (h : code < 32) :
    hexNumber? (Text.hexDigits 4 code) = some code := by
  have hall : (List.range 32).all (fun code => hexNumber? (Text.hexDigits 4 code) == some code) =
      true := by decide
  exact beq_iff_eq.mp (List.all_eq_true.mp hall code (List.mem_range.mpr h))

theorem hexDigits_four (code : Nat) :
    ∃ a b c d, Text.hexDigits 4 code = [a, b, c, d] := ⟨_, _, _, _, rfl⟩

theorem decodeFrom_code {code : Nat} (h : code < 32) :
    decodeFrom false 0 ('\\' :: 'u' :: (Text.hexDigits 4 code ++ rest)) =
      (decodeFrom false 0 rest).map (Char.ofNat code :: ·) := by
  have hnumber := hexNumber?_hexDigits h
  obtain ⟨a, b, c, d, hdigits⟩ := hexDigits_four code
  rw [hdigits] at hnumber ⊢
  have hchar : charOfCode code = Char.ofNat code := by
    have hplain : ¬ (0xD800 ≤ code ∧ code < 0xE000) := by omega
    simp [charOfCode, hplain]
  have hescape : escape? false ('u' :: a :: b :: c :: d :: rest) = some ([Char.ofNat code], 5) := by
    have hsmall : ¬ 0x10FFFF < code := by omega
    simp [escape?, hnumber, hsmall, hchar]
  cases htail : decodeFrom false 0 rest <;> simp [decodeFrom, hescape, htail]

theorem decodeFrom_writeChar (c : Char) (rest : List Char) :
    decodeFrom false 0 (Text.writeChar c ++ rest) = (decodeFrom false 0 rest).map (c :: ·) := by
  have hletter : ∀ {letter value}, (c == value) = true → letter ∈ escapeLetters →
      letterEscape? letter = some value →
        decodeFrom false 0 (['\\', letter] ++ rest) = (decodeFrom false 0 rest).map (c :: ·) := by
    intro letter value hsame hmem hvalue
    rw [beq_iff_eq.mp hsame]
    exact decodeFrom_letter hmem hvalue
  unfold Text.writeChar
  split
  next hmark =>
    rcases (by simpa using hmark : c = '"' ∨ c = '\\') with rfl | rfl <;>
      exact decodeFrom_letter (by decide) rfl
  next hmark =>
    split
    next hbreak => exact hletter hbreak (by decide) rfl
    next =>
      split
      next hreturn => exact hletter hreturn (by decide) rfl
      next =>
        split
        next htab => exact hletter htab (by decide) rfl
        next =>
          split
          next hback => exact hletter hback (by decide) rfl
          next =>
            split
            next hfeed => exact hletter hfeed (by decide) rfl
            next =>
              split
              next hsmall =>
                refine (decodeFrom_code hsmall).trans ?_
                rw [Char.ofNat_toNat]
              next => exact decodeFrom_plain fun hescape => hmark (by simp [hescape])

theorem decode_written (text : List Char) :
    decode {} (text.flatMap Text.writeChar) = some text := by
  have hplain : ∀ body, decode {} body = decodeFrom false 0 body := fun _ => rfl
  rw [hplain]
  induction text with
  | nil => rfl
  | cons c rest ih => rw [List.flatMap_cons, decodeFrom_writeChar, ih, Option.map_some]

end Decoding

/-- A stretch of a body behind which decoding goes on. -/
def Decodes (text : List Char) : Prop :=
  ∀ rest, (decodeFrom false 0 rest).isSome = true →
    (decodeFrom false 0 (text ++ rest)).isSome = true

section Decodes

variable {text more : List Char}

theorem decodes_nil : Decodes [] := fun _ hrest => hrest

theorem Decodes.append (h : Decodes text) (hmore : Decodes more) : Decodes (text ++ more) := by
  intro rest hrest
  rw [List.append_assoc]
  exact h _ (hmore rest hrest)

theorem Decodes.cons {c : Char} (hc : Decodes [c]) (h : Decodes text) : Decodes (c :: text) :=
  hc.append h

theorem decodes_plain {c : Char} (h : c ≠ '\\') : Decodes [c] := by
  intro rest hrest
  rwa [List.singleton_append, decodeFrom_plain h, Option.isSome_map]

theorem decodes_escape {c : Char} (h : c ∈ escapeLetters) : Decodes ['\\', c] := by
  intro rest hrest
  obtain ⟨value, hvalue⟩ := exists_letterEscape? h
  rwa [List.cons_append, List.singleton_append, decodeFrom_letter h hvalue, Option.isSome_map]

theorem decodes_code {code : Nat} (h : code < 32) :
    Decodes ('\\' :: 'u' :: Text.hexDigits 4 code) := by
  intro rest hrest
  rwa [List.cons_append, List.cons_append, decodeFrom_code h, Option.isSome_map]

end Decodes

/-! ## Texts on one line -/

/-- A stretch of a body that a text on one line holds. -/
structure Holds (text : List Char) : Prop where
  scanned : ∀ rest, scanLine '"' (text ++ rest) =
    (scanLine '"' rest).map fun (body, rest) => (text ++ body, rest)
  decodes : Decodes text
  unbroken : '\r' ∉ text

namespace Holds

variable {text more : List Char}

theorem nil : Holds [] where
  scanned rest := by cases hrest : scanLine '"' rest <;> simp [hrest]
  decodes := decodes_nil
  unbroken := by simp

theorem append (h : Holds text) (hmore : Holds more) : Holds (text ++ more) where
  scanned rest := by
    rw [List.append_assoc, h.scanned, hmore.scanned]
    cases scanLine '"' rest <;> simp
  decodes := h.decodes.append hmore.decodes
  unbroken := by simp [h.unbroken, hmore.unbroken]

theorem flatMap {chars : List Char} {f : Char → List Char} (h : ∀ c ∈ chars, Holds (f c)) :
    Holds (chars.flatMap f) := by
  induction chars with
  | nil => exact .nil
  | cons c rest ih =>
      rw [List.flatMap_cons]
      exact (h c List.mem_cons_self).append (ih fun d hd => h d (List.mem_cons_of_mem _ hd))

theorem plain {c : Char} (h : c ∉ ['"', '\\', '\n', '\r']) : Holds [c] := by
  simp only [List.mem_cons, List.not_mem_nil, or_false, not_or] at h
  obtain ⟨hquote, hescape, hbreak, hreturn⟩ := h
  refine ⟨fun rest => ?_, decodes_plain hescape, by simpa using Ne.symm hreturn⟩
  rw [List.singleton_append, scanLine.eq_def '"' (c :: rest)]
  split
  next heq => cases heq
  next heq => exact absurd (List.cons.inj heq).1 hescape
  next heq =>
    cases heq
    simp [hquote, hbreak]

theorem escaped {c : Char} (hc : c ≠ '\r') (hdecodes : Decodes ['\\', c]) : Holds ['\\', c] where
  scanned rest := rfl
  decodes := hdecodes
  unbroken := by simpa using Ne.symm hc

end Holds

theorem hexDigit_plain (value : Nat) : Text.hexDigit (value % 16) ∉ ['"', '\\', '\n', '\r'] := by
  have hall : (List.range 16).all (fun value =>
      !(['"', '\\', '\n', '\r'].contains (Text.hexDigit value))) = true := by decide
  have hvalue := List.all_eq_true.mp hall (value % 16)
    (List.mem_range.mpr (Nat.mod_lt _ (by decide)))
  simpa using hvalue

theorem holds_hexDigits (width value : Nat) : Holds (Text.hexDigits width value) := by
  induction width generalizing value with
  | zero => exact .nil
  | succ width ih => exact (ih _).append (.plain (hexDigit_plain value))

theorem holds_code {code : Nat} (h : code < 32) :
    Holds ('\\' :: 'u' :: Text.hexDigits 4 code) where
  scanned rest := by
    have hdigits := (holds_hexDigits 4 code).scanned rest
    rw [List.cons_append, List.cons_append, scanLine, hdigits]
    cases scanLine '"' rest <;> rfl
  decodes := decodes_code h
  unbroken := by
    have hdigits := (holds_hexDigits 4 code).unbroken
    simpa using hdigits

theorem holds_writeChar (c : Char) : Holds (Text.writeChar c) := by
  have hletter : ∀ {letter}, letter ∈ escapeLetters → Holds ['\\', letter] := by
    intro letter hmem
    refine .escaped ?_ (decodes_escape hmem)
    rintro rfl
    exact absurd hmem (by decide)
  unfold Text.writeChar
  split
  next hmark =>
    rcases (by simpa using hmark : c = '"' ∨ c = '\\') with rfl | rfl <;> exact hletter (by decide)
  next hmark =>
    split
    · exact hletter (by decide)
    next hbreak =>
      split
      · exact hletter (by decide)
      next hreturn =>
        split
        · exact hletter (by decide)
        · split
          · exact hletter (by decide)
          · split
            · exact hletter (by decide)
            · split
              next hsmall => exact holds_code hsmall
              next =>
                refine .plain ?_
                simp only [Bool.or_eq_true, beq_iff_eq, not_or] at hmark
                simpa [hmark] using ⟨by simpa using hbreak, by simpa using hreturn⟩

theorem head?_writeChar (c : Char) : ∃ first rest, Text.writeChar c = first :: rest ∧ first ≠ '"' := by
  unfold Text.writeChar
  split
  · exact ⟨_, _, rfl, by decide⟩
  next hmark =>
    have hplain : c ≠ '"' := by
      rintro rfl
      exact hmark rfl
    repeat' split
    all_goals first | exact ⟨_, _, rfl, by decide⟩ | exact ⟨_, _, rfl, hplain⟩

theorem isBody_written (text : List Char) : IsBody (text.flatMap Text.writeChar) := by
  have hholds := Holds.flatMap fun c (_ : c ∈ text) => holds_writeChar c
  refine ⟨?_, fun rest => ?_, ?_, hholds.unbroken⟩
  · cases text with
    | nil => simp
    | cons c others =>
        obtain ⟨first, rest, hwritten, hfirst⟩ := head?_writeChar c
        rw [List.flatMap_cons, hwritten]
        simpa using hfirst
  · rw [hholds.scanned]
    simp [scanLine]
  · have hend := hholds.decodes [] rfl
    rw [List.append_nil] at hend
    exact hend

/-- A name needs no escape. -/
theorem isBody_of_isIdentifier {word : List Char} (h : Text.isIdentifier word = true) :
    IsBody word := by
  obtain ⟨first, rest, rfl, -, hchars⟩ := exists_of_isIdentifier h
  have hplain : ∀ c ∈ first :: rest, c ∉ ['"', '\\', '\n', '\r'] := by
    intro c hc hmem
    have hall : ['"', '\\', '\n', '\r'].all (!isWordChar ·) = true := by decide
    have hword := List.all_eq_true.mp hall c hmem
    rw [hchars c hc] at hword
    cases hword
  have hholds : Holds (first :: rest) := by
    have hflat := Holds.flatMap fun c (hc : c ∈ first :: rest) => Holds.plain (hplain c hc)
    rwa [List.flatMap_singleton'] at hflat
  refine ⟨?_, fun rest => ?_, ?_, hholds.unbroken⟩
  · have hfirst := hplain first List.mem_cons_self
    simp only [List.mem_cons, not_or] at hfirst
    simpa using hfirst.1
  · rw [hholds.scanned]
    simp [scanLine]
  · have hend := hholds.decodes [] rfl
    rw [List.append_nil] at hend
    exact hend

/-! ## Lines of documentation -/

/-- A line that a text in triple quotes holds. -/
structure HoldsLine (line : List Char) : Prop where
  scanned : ∀ rest, scanBlock '"' (line ++ '\n' :: rest) =
    (scanBlock '"' rest).map fun (body, rest) => (line ++ '\n' :: body, rest)
  decodes : Decodes line
  unbroken : '\r' ∉ line

theorem scanBlock_plain {c : Char} (h : c ≠ '\\') {rest : List Char}
    (hquotes : c = '"' → ∀ tail, rest ≠ '"' :: '"' :: tail) :
    scanBlock '"' (c :: rest) = (scanBlock '"' rest).map fun (body, rest) => (c :: body, rest) := by
  have hnot : (c == '"' && ['"', '"'].isPrefixOf rest) = false := by
    rw [Bool.and_eq_false_iff]
    by_cases hc : c = '"'
    · refine .inr ?_
      rw [Bool.eq_false_iff]
      intro hprefix
      obtain ⟨tail, htail⟩ := List.isPrefixOf_iff_prefix.mp hprefix
      exact hquotes hc tail htail.symm
    · exact .inl (by simpa using hc)
  rw [ scanBlock.eq_def '"' (c :: rest)]
  split
  next heq => cases heq
  next heq => exact absurd (List.cons.inj heq).1 h
  next heq =>
    cases heq
    rw [hnot]
    rfl

namespace HoldsLine

variable {line : List Char} {c : Char}

theorem nil : HoldsLine [] where
  scanned rest := scanBlock_plain (by decide) fun h => by cases h
  decodes := decodes_nil
  unbroken := by simp

theorem cons (hescape : c ≠ '\\') (hreturn : c ≠ '\r')
    (hquotes : c = '"' → ∀ tail, line ≠ '"' :: '"' :: tail) (h : HoldsLine line) :
    HoldsLine (c :: line) where
  scanned rest := by
    have hbehind : c = '"' → ∀ tail, line ++ '\n' :: rest ≠ '"' :: '"' :: tail := by
      intro hc tail heq
      match line, heq, hquotes hc with
      | [], heq, _ => cases heq
      | [_], heq, _ => cases heq
      | _ :: _ :: others, heq, hline =>
          cases heq
          exact hline others rfl
    rw [List.cons_append, scanBlock_plain hescape hbehind, h.scanned]
    cases scanBlock '"' rest <;> rfl
  decodes := (decodes_plain hescape).cons h.decodes
  unbroken := by
    rw [List.mem_cons, not_or]
    exact ⟨Ne.symm hreturn, h.unbroken⟩

theorem escape (hc : c ∈ escapeLetters) (h : HoldsLine line) : HoldsLine ('\\' :: c :: line) where
  scanned rest := by
    rw [List.cons_append, List.cons_append, scanBlock, h.scanned]
    cases scanBlock '"' rest <;> rfl
  decodes := (decodes_escape hc).append h.decodes
  unbroken := by
    have hreturn : c ≠ '\r' := by
      rintro rfl
      exact absurd hc (by decide)
    simpa [Ne.symm hreturn] using h.unbroken

theorem plain (h : ∀ c ∈ line, c ∉ ['"', '\\', '\r']) : HoldsLine line := by
  induction line with
  | nil => exact nil
  | cons c rest ih =>
      obtain ⟨hc, hrest⟩ := List.forall_mem_cons.mp h
      simp only [List.mem_cons, List.not_mem_nil, or_false, not_or] at hc
      exact (ih hrest).cons hc.2.1 hc.2.2 fun hquote => absurd hquote hc.1

end HoldsLine

/-! ### Escaped lines -/

open Emit (escapeBackslashes escapeQuotes)

/-- The two escapes of a line in one pass. -/
def escapeChars : List Char → List Char
  | [] => []
  | '"' :: '"' :: '"' :: rest => '\\' :: '"' :: '\\' :: '"' :: '\\' :: '"' :: escapeChars rest
  | c :: rest => if c = '\\' then '\\' :: '\\' :: escapeChars rest else c :: escapeChars rest

theorem escapeBackslashes_cons (c : Char) (rest : List Char) : escapeBackslashes (c :: rest) =
    if c = '\\' then '\\' :: '\\' :: escapeBackslashes rest else c :: escapeBackslashes rest := by
  by_cases h : c = '\\' <;> simp [escapeBackslashes, h]

/-- A quote in front is the one of the line. -/
theorem exists_of_escapeBackslashes {line tail : List Char}
    (h : escapeBackslashes line = '"' :: tail) :
    ∃ rest, line = '"' :: rest ∧ tail = escapeBackslashes rest := by
  cases line with
  | nil => cases h
  | cons c rest =>
      rw [escapeBackslashes_cons] at h
      split at h
      · cases h
      · obtain ⟨rfl, rfl⟩ := List.cons.inj h
        exact ⟨rest, rfl, rfl⟩

theorem escapeQuotes_escapeBackslashes (line : List Char) :
    escapeQuotes (escapeBackslashes line) = escapeChars line := by
  fun_induction escapeChars line with
  | case1 => rfl
  | case2 rest ih =>
      simp only [escapeBackslashes_cons, if_neg (show '"' ≠ '\\' by decide), escapeQuotes, ih]
  | case3 rest hquotes ih =>
      rw [escapeBackslashes_cons, if_pos rfl]
      simp [escapeQuotes, ih]
  | case4 c rest hquotes hescape ih =>
      rw [escapeBackslashes_cons, if_neg hescape, escapeQuotes.eq_def]
      split
      next heq =>
        obtain ⟨rfl, hrest⟩ := List.cons.inj heq
        obtain ⟨others, rfl, hothers⟩ := exists_of_escapeBackslashes hrest
        obtain ⟨last, rfl, -⟩ := exists_of_escapeBackslashes hothers.symm
        exact absurd rfl (hquotes last rfl)
      next heq =>
        cases heq
        rw [ih]
      next heq => cases heq

theorem exists_of_escapeChars {line tail : List Char} (h : escapeChars line = '"' :: tail) :
    ∃ rest, line = '"' :: rest ∧ tail = escapeChars rest := by
  rw [escapeChars.eq_def] at h
  split at h
  · cases h
  · cases h
  next c rest _ =>
    split at h
    · cases h
    · obtain ⟨rfl, rfl⟩ := List.cons.inj h
      exact ⟨rest, rfl, rfl⟩

theorem holdsLine_escapeChars {line : List Char} (h : '\r' ∉ line) :
    HoldsLine (escapeChars line) := by
  fun_induction escapeChars line with
  | case1 => exact .nil
  | case2 rest ih =>
      have hrest : HoldsLine (escapeChars rest) := ih (by simpa using h)
      exact .escape (by decide) (.escape (by decide) (.escape (by decide) hrest))
  | case3 rest hquotes ih => exact .escape (by decide) (ih (by simpa using h))
  | case4 c rest hquotes hescape ih =>
      rw [List.mem_cons, not_or] at h
      refine .cons hescape (Ne.symm h.1) ?_ (ih h.2)
      rintro rfl tail hline
      obtain ⟨others, rfl, hothers⟩ := exists_of_escapeChars hline
      obtain ⟨last, rfl, -⟩ := exists_of_escapeChars hothers.symm
      exact hquotes last rfl rfl

theorem holdsLine_escapeLine {line : String} (h : '\r' ∉ line.toList) :
    HoldsLine (Emit.escapeLine line).toList := by
  rw [Emit.escapeLine, String.toList_ofList, escapeQuotes_escapeBackslashes]
  exact holdsLine_escapeChars h

/-! ### The documentation of a class -/

/-- Indented lines, with the quotes on lines of their own. -/
def documentationBody (lines : List String) : List Char :=
  '\n' :: (lines.flatMap (fun line =>
    (if line.isEmpty then "" else Emit.indent line).toList ++ ['\n']) ++ [' ', ' ', ' ', ' '])

theorem HoldsLine.indent {line : String} (h : HoldsLine line.toList) :
    HoldsLine (if line.isEmpty then "" else Emit.indent line).toList := by
  have hblank : ∀ {text}, HoldsLine text → HoldsLine (' ' :: text) :=
    fun htext => .cons (by decide) (by decide) (fun hquote => absurd hquote (by decide)) htext
  split
  · exact .nil
  · rw [Emit.indent, String.toList_append]
    exact hblank (hblank (hblank (hblank h)))

theorem scanBlock_lines {lines : List (List Char)} (h : ∀ line ∈ lines, HoldsLine line)
    (rest : List Char) : scanBlock '"' (lines.flatMap (· ++ ['\n']) ++ rest) =
      (scanBlock '"' rest).map fun (body, rest) => (lines.flatMap (· ++ ['\n']) ++ body, rest) := by
  induction lines with
  | nil => cases hrest : scanBlock '"' rest <;> simp [hrest]
  | cons line others ih =>
      obtain ⟨hline, hothers⟩ := List.forall_mem_cons.mp h
      rw [List.flatMap_cons, List.append_assoc, List.append_assoc, List.singleton_append,
        hline.scanned, ih hothers]
      cases scanBlock '"' rest <;> simp

theorem decodes_lines {lines : List (List Char)} (h : ∀ line ∈ lines, HoldsLine line) :
    Decodes (lines.flatMap (· ++ ['\n'])) := by
  induction lines with
  | nil => exact decodes_nil
  | cons line others ih =>
      obtain ⟨hline, hothers⟩ := List.forall_mem_cons.mp h
      rw [List.flatMap_cons]
      exact (hline.decodes.append (decodes_plain (by decide))).append (ih hothers)

theorem isBlock_documentationBody {lines : List String} (h : ∀ line ∈ lines, HoldsLine line.toList) :
    IsBlock (documentationBody lines) := by
  have hlines : ∀ line ∈ lines.map fun line =>
      (if line.isEmpty then "" else Emit.indent line).toList, HoldsLine line := by
    intro line hline
    obtain ⟨original, horiginal, rfl⟩ := List.mem_map.mp hline
    exact (h original horiginal).indent
  have hbody : documentationBody lines = '\n' :: ((lines.map fun line =>
      (if line.isEmpty then "" else Emit.indent line).toList).flatMap (· ++ ['\n']) ++
        [' ', ' ', ' ', ' ']) := by
    rw [documentationBody, List.flatMap_map]
  rw [hbody]
  refine ⟨fun rest => ?_, ?_, ?_⟩
  · have hend : scanBlock '"' (' ' :: ' ' :: ' ' :: ' ' :: '"' :: '"' :: '"' :: rest) =
        some ([' ', ' ', ' ', ' '], rest) := rfl
    rw [List.cons_append, scanBlock_plain (by decide) (fun hquote => absurd hquote (by decide)),
      List.append_assoc, scanBlock_lines hlines]
    simp only [List.cons_append, List.nil_append, hend]
    simp
  · have hend := ((decodes_plain (show '\n' ≠ '\\' by decide)).append
      (decodes_lines hlines)) [' ', ' ', ' ', ' '] rfl
    exact hend
  · intro hmem
    simp only [List.mem_cons, List.mem_append, List.mem_flatMap, List.not_mem_nil, or_false] at hmem
    rcases hmem with hbreak | ⟨line, hline, hchar | hbreak⟩ | hblank
    · cases hbreak
    · exact (hlines line hline).unbroken hchar
    · cases hbreak
    · revert hblank
      decide

end ModelMint.Source
