import ModelMint.Proofs.Source.Pieces

/-!
# Rows of a text

A text is a list of rows: rows of code, indented by steps of four, and rows that hold no
token.  A row of code may end in a later line than it begins in, as long as a bracket is
open.  A text of sound rows is scanned to the tokens of its rows, with a token for every
change of the indentation, unless a row does not fit the bounds for brackets and digits.
-/

namespace ModelMint.Source

open Piece (charsOf tokensOf nestAll linked kindOf FoldsInside)

inductive Row where
  /-- An empty line, or a comment. -/
  | silent (text : List Char)
  | code (depth : Nat) (pieces : List Piece)

/-- The text of a line that has no token. -/
structure IsSilent (text : List Char) : Prop where
  blank : text = [] ∨ ∃ width rest, text = List.replicate width ' ' ++ '#' :: rest
  unbroken : '\n' ∉ text ∧ '\r' ∉ text

structure IsCode (pieces : List Piece) : Prop where
  sound : ∀ piece ∈ pieces, piece.Sound
  linked : linked .fold pieces = true
  folds : FoldsInside [] pieces
  /-- The first piece may begin a line. -/
  opens : (Piece.fold 0).admits (kindOf pieces .fold) = true
  closed : ∀ after, nestAll [] pieces = some after → after = []

namespace Row

def chars : Row → List Char
  | silent text => text
  | code depth pieces => List.replicate (4 * depth) ' ' ++ charsOf pieces

def text (rows : List Row) : List Char := rows.flatMap fun row => row.chars ++ ['\n']

def Sound : Row → Prop
  | silent text => IsSilent text
  | code depth pieces => depth ≤ indentLimit ∧ IsCode pieces

def fits : Row → Bool
  | silent _ => true
  | code _ pieces => (nestAll [] pieces).isSome

/-- No row is indented by more than one step against the row of code before it. -/
def Steps (depth : Nat) : List Row → Prop
  | [] => True
  | silent _ :: rest => Steps depth rest
  | code next _ :: rest => next ≤ depth + 1 ∧ Steps next rest

def changeTokens (depth next : Nat) : List Token :=
  if depth < next then [.indent] else List.replicate (depth - next) .dedent

/-- The tokens of rows behind a row of code at the depth. -/
def tokensFrom (depth : Nat) : List Row → List Token
  | [] => List.replicate depth .dedent
  | silent _ :: rest => tokensFrom depth rest
  | code next pieces :: rest =>
    changeTokens depth next ++ (tokensOf pieces ++ .newline :: tokensFrom next rest)

/-! ## Indentation -/

/-- The indentations that are open at a depth. -/
def indentsOf : Nat → List Indentation
  | 0 => []
  | depth + 1 => ⟨4 * (depth + 1), 4 * (depth + 1)⟩ :: indentsOf depth

theorem headD_indentsOf (depth : Nat) : (indentsOf depth).headD {} = ⟨4 * depth, 4 * depth⟩ := by
  cases depth <;> rfl

theorem length_indentsOf (depth : Nat) : (indentsOf depth).length = depth := by
  induction depth with
  | zero => rfl
  | succ depth ih => rw [indentsOf, List.length_cons, ih]

theorem closeIndents_indentsOf (next closed : Nat) :
    closeIndents (4 * next) (indentsOf (next + closed)) = (indentsOf next, closed) := by
  induction closed with
  | zero =>
      cases next with
      | zero => rfl
      | succ next => simp [indentsOf, closeIndents]
  | succ closed ih =>
      have hless : 4 * next < 4 * (next + closed + 1) := by omega
      rw [← Nat.add_assoc, indentsOf, closeIndents, if_pos hless, ih]

theorem changeIndent_indentsOf {depth next : Nat} (hstep : next ≤ depth + 1)
    (hlimit : next ≤ indentLimit) : changeIndent (indentsOf depth) ⟨4 * next, 4 * next⟩ =
      some (indentsOf next, changeTokens depth next) := by
  unfold changeIndent changeTokens
  rw [headD_indentsOf, length_indentsOf]
  rcases Nat.lt_trichotomy next depth with hless | rfl | hgreater
  · obtain ⟨closed, rfl⟩ : ∃ closed, depth = next + closed := ⟨depth - next, by omega⟩
    have hwide : ¬ 4 * next = 4 * (next + closed) := by omega
    have hnarrow : ¬ 4 * (next + closed) < 4 * next := by omega
    have hdeep : ¬ next + closed < next := by omega
    simp only [hwide, hnarrow, hdeep, if_false, closeIndents_indentsOf, headD_indentsOf,
      beq_self_eq_true, if_true, Nat.add_sub_cancel_left]
  · simp
  · obtain rfl : next = depth + 1 := by omega
    have hwide : ¬ 4 * (depth + 1) = 4 * depth := by omega
    have hnarrow : 4 * depth < 4 * (depth + 1) := by omega
    have hdeep : depth < indentLimit := by omega
    simp [hwide, hnarrow, hdeep, indentsOf]

/-! ## Scanning rows -/

variable {rows : List Row} {pieces : List Piece} {depth next : Nat} {rest text : List Char}

theorem lex_silent {layout : Layout} (h : IsSilent text) :
    lex layout true (text ++ '\n' :: rest) = lex layout true rest := by
  have hbreak : ∀ c ∈ text, (c != '\n') = true := by
    intro c hc
    rw [bne_iff_ne]
    rintro rfl
    exact h.unbroken.1 hc
  rcases h.blank with rfl | ⟨width, tail, rfl⟩
  · have hmeasure : measureIndent 0 {} ('\n' :: rest) = some ({}, '\n' :: rest) := rfl
    exact lex_empty_line hmeasure rfl
  · have hopens : Opens ('#' :: (tail ++ '\n' :: rest)) := ⟨'#', _, rfl, by decide, by decide⟩
    have htail : ∀ c ∈ '#' :: tail, (c != '\n') = true :=
      fun c hc => hbreak c (List.mem_append_right _ hc)
    have hcomment : skipComment ('#' :: (tail ++ '\n' :: rest)) = '\n' :: rest := by
      rw [skipComment, ← List.cons_append, List.dropWhile_append_of_pos htail]
      rfl
    rw [List.append_assoc, List.cons_append,
      lex_empty_line (measureIndent_spaces hopens width) rfl, hcomment]
    rfl

theorem lex_code (h : IsCode pieces) (hstep : next ≤ depth + 1) (hlimit : next ≤ indentLimit) :
    lex ⟨indentsOf depth, []⟩ true
      (List.replicate (4 * next) ' ' ++ (charsOf pieces ++ '\n' :: rest)) =
        if (nestAll [] pieces).isSome then
          (lex ⟨indentsOf next, []⟩ true rest).map fun others =>
            changeTokens depth next ++ (tokensOf pieces ++ .newline :: others)
        else none := by
  have hend : Kind.fold.Holds ('\n' :: rest) := ⟨rest, rfl⟩
  obtain ⟨hopens, hempty⟩ := Piece.opens_of_holds h.opens (Piece.kindOf_holds h.sound hend)
  have hne : List.replicate (4 * next) ' ' ++ (charsOf pieces ++ '\n' :: rest) ≠ [] := by simp
  rw [lex_line hne (measureIndent_spaces hopens _) hempty rfl,
    changeIndent_indentsOf hstep hlimit, Option.bind_some]
  simp only
  rw [Piece.lex_pieces h.sound h.linked h.folds hend]
  cases hnest : nestAll [] pieces with
  | none => rfl
  | some after =>
      obtain rfl := h.closed after hnest
      simp only [Option.bind_some, Option.isSome_some, if_true, lex_break, List.isEmpty_nil,
        Option.map_map]
      rfl

theorem lex_text (hsound : ∀ row ∈ rows, row.Sound) (hsteps : Steps depth rows) :
    lex ⟨indentsOf depth, []⟩ true (Row.text rows) =
      if rows.all fits then some (tokensFrom depth rows) else none := by
  induction rows generalizing depth with
  | nil =>
      have hdedents : ∀ depth, (indentsOf depth).map (fun _ => Token.dedent) =
          List.replicate depth .dedent := by
        intro depth
        rw [List.map_const', length_indentsOf]
      rw [Row.text, List.flatMap_nil, lex_nil, hdedents]
      rfl
  | cons row rest ih =>
      obtain ⟨hrow, hrest⟩ := List.forall_mem_cons.mp hsound
      rw [Row.text, List.flatMap_cons, List.append_assoc, List.singleton_append, ← Row.text]
      cases row with
      | silent line =>
          rw [chars, lex_silent hrow, ih hrest hsteps]
          rfl
      | code next pieces =>
          rw [chars, List.append_assoc, lex_code hrow.2 hsteps.1 hrow.1, ih hrest hsteps.2,
            List.all_cons, fits]
          cases (nestAll [] pieces).isSome with
          | false => rfl
          | true => cases rest.all fits <;> rfl

/-! ## Line ends -/

theorem unifyEnds_of_not_mem (h : '\r' ∉ text) : unifyEnds text = text := by
  fun_induction unifyEnds text with
  | case1 => rfl
  | case2 => exact absurd List.mem_cons_self h
  | case3 => exact absurd List.mem_cons_self h
  | case4 c tail _ _ ih => rw [ih fun hmem => h (List.mem_cons_of_mem _ hmem)]

theorem unbroken_piece {piece : Piece} (h : piece.Sound) : '\r' ∉ piece.chars := by
  cases piece with
  | word word =>
      obtain ⟨-, -, -, -, hchars⟩ := exists_of_isIdentifier h
      intro hmem
      exact absurd (hchars _ hmem) (by decide)
  | mark mark =>
      have hall : Piece.writtenMarks.all (fun mark => !mark.toList.contains '\r') = true := by decide
      have hmark := List.all_eq_true.mp hall mark h
      simpa [Piece.chars] using hmark
  | number number => exact h.unbroken
  | quoted body => simpa [Piece.chars] using h.unbroken
  | block body => simpa [Piece.chars] using h.unbroken
  | blank => simp [Piece.chars]
  | fold width => simp [Piece.chars]

theorem unbroken_charsOf (h : ∀ piece ∈ pieces, piece.Sound) : '\r' ∉ charsOf pieces := by
  intro hmem
  obtain ⟨piece, hpiece, hchar⟩ := List.mem_flatMap.mp hmem
  exact unbroken_piece (h piece hpiece) hchar

theorem unbroken_text (h : ∀ row ∈ rows, row.Sound) : '\r' ∉ Row.text rows := by
  intro hmem
  obtain ⟨row, hrow, hchar⟩ := List.mem_flatMap.mp hmem
  have hsound := h row hrow
  cases row with
  | silent line =>
      have hline := hsound.unbroken.2
      simp [chars, hline] at hchar
  | code depth pieces =>
      have hpieces := unbroken_charsOf hsound.2.sound
      simp [chars, hpieces] at hchar

theorem closeLine_text (h : rows ≠ []) : closeLine (Row.text rows) = Row.text rows := by
  obtain ⟨front, last, rfl⟩ := List.eq_nil_or_concat' rows |>.resolve_left h
  have hlast : (Row.text (front ++ [last])).getLast? = some '\n' := by
    simp [Row.text, List.flatMap_append, ← List.append_assoc]
  rw [closeLine, hlast]
  rfl

theorem scan_text (h : ∀ row ∈ rows, row.Sound) (hsteps : Steps 0 rows) (hrows : rows ≠ []) :
    scan (Row.text rows) = if rows.all fits then some (tokensFrom 0 rows) else none := by
  rw [scan, unifyEnds_of_not_mem (unbroken_text h), closeLine_text hrows]
  exact lex_text h hsteps

/-! ## Counting -/

theorem length_tokens_piece {piece : Piece} (h : piece.Sound) :
    piece.tokens.length ≤ piece.chars.length := by
  cases piece with
  | word word =>
      obtain ⟨c, tail, rfl, -⟩ := exists_of_isIdentifier h
      cases htoken : wordToken (c :: tail) <;> simp [Piece.tokens, Piece.chars, htoken]
  | mark mark =>
      have hall : Piece.writtenMarks.all (fun mark => decide (1 ≤ mark.toList.length)) = true := by
        decide
      exact of_decide_eq_true (List.all_eq_true.mp hall mark h)
  | number number =>
      obtain ⟨c, tail, rfl, -⟩ := IsNumber.head h
      simp [Piece.tokens, Piece.chars]
  | _ => simp [Piece.tokens, Piece.chars]

theorem length_tokensOf (h : ∀ piece ∈ pieces, piece.Sound) :
    (tokensOf pieces).length ≤ (charsOf pieces).length := by
  induction pieces with
  | nil => simp [tokensOf]
  | cons piece others ih =>
      obtain ⟨hfirst, hothers⟩ := List.forall_mem_cons.mp h
      have hlength := length_tokens_piece hfirst
      have htail := ih hothers
      simp only [tokensOf, charsOf, List.flatMap_cons, List.length_append] at htail ⊢
      omega

/-- Every token but the ones that close an indentation has a character of its own, and these were
opened before. -/
theorem length_tokensFrom (h : ∀ row ∈ rows, row.Sound) (hsteps : Steps depth rows) :
    (tokensFrom depth rows).length ≤ depth + (Row.text rows).length := by
  induction rows generalizing depth with
  | nil => simp [tokensFrom]
  | cons row rest ih =>
      obtain ⟨hrow, hrest⟩ := List.forall_mem_cons.mp h
      rw [Row.text, List.flatMap_cons, List.length_append, ← Row.text]
      cases row with
      | silent line =>
          have hlength := ih hrest hsteps
          rw [tokensFrom]
          omega
      | code next pieces =>
          have hlength := ih hrest hsteps.2
          have hpieces := length_tokensOf hrow.2.sound
          have hnext := hsteps.1
          have hchange : (changeTokens depth next).length + next ≤ depth + 4 * next := by
            unfold changeTokens
            split <;> simp <;> omega
          simp only [tokensFrom, chars, List.length_append, List.length_cons,
            List.length_replicate, List.length_nil]
          omega

end Row

end ModelMint.Source
