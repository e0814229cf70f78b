import ModelMint.Proofs.Source.Pieces

/-!
# Written expressions

The expressions that are written in modules: names and constants, numbers and texts,
attributes, calls and items, lists and maps on one line or with a line for each member,
and unions.  As pieces they begin and end so that they can stand between marks, and they
leave the brackets as they were.
-/

namespace ModelMint.Source

inductive Expr where
  | name (word : List Char)
  | constant (word : List Char)
  | number (text : List Char)
  | negative (operand : Expr)
  | quoted (body : List Char)
  | block (body : List Char)
  | attr (owner : Expr) (word : List Char)
  | call (callee : Expr) (arguments : List Expr)
  /-- A call with everything that a map holds. -/
  | spread (callee : Expr) (word : List Char)
  | item (owner : Expr) (indices : List Expr)
  /-- With a line for each item where the indentation of the end is given. -/
  | list (layout : Option Nat) (items : List Expr)
  | dict (layout : Option Nat) (members : List Expr)
  /-- A member of a map. -/
  | member (key : List Char) (value : Expr)
  | union (left right : Expr)

namespace Expr

/-! ## Pieces -/

mutual

def pieces : Expr → List Piece
  | name word => [.word word]
  | constant word => [.word word]
  | number text => [.number text]
  | negative operand => .mark "-" :: operand.pieces
  | quoted body => [.quoted body]
  | block body => [.block body]
  | attr owner word => owner.pieces ++ [.mark ".", .word word]
  | call callee arguments => callee.pieces ++ .mark "(" :: (row arguments ++ [.mark ")"])
  | spread callee word => callee.pieces ++ [.mark "(", .mark "**", .word word, .mark ")"]
  | item owner indices => owner.pieces ++ .mark "[" :: (row indices ++ [.mark "]"])
  | list none items => .mark "[" :: (row items ++ [.mark "]"])
  | list (some width) items =>
    .mark "[" :: ((rows (width + 4) items ++ [.fold width]) ++ [.mark "]"])
  | dict none members => .mark "\x7b" :: (row members ++ [.mark "\x7d"])
  | dict (some width) members =>
    .mark "\x7b" :: ((rows (width + 4) members ++ [.fold width]) ++ [.mark "\x7d"])
  | member key value => .quoted key :: .mark ":" :: .blank :: value.pieces
  | union left right => left.pieces ++ .blank :: .mark "|" :: .blank :: right.pieces

/-- Items on one line. -/
def row : List Expr → List Piece
  | [] => []
  | first :: rest => first.pieces ++ rowRest rest

def rowRest : List Expr → List Piece
  | [] => []
  | first :: rest => .mark "," :: .blank :: (first.pieces ++ rowRest rest)

/-- Items on a line each. -/
def rows (width : Nat) : List Expr → List Piece
  | [] => []
  | first :: rest => .fold width :: (first.pieces ++ .mark "," :: rows width rest)

end

def chars (expr : Expr) : List Char := Piece.charsOf expr.pieces

def tokens (expr : Expr) : List Token := Piece.tokensOf expr.pieces

/-! ## Form -/

/-- What a name may be taken from, or arguments be given to. -/
def isPrimary : Expr → Bool
  | name _ | attr .. | call .. | spread .. | item .. => true
  | _ => false

def isMember : Expr → Bool
  | member .. => true
  | _ => false

def isUnion : Expr → Bool
  | union .. => true
  | _ => false

/-- What a sign stands before. -/
def isSigned : Expr → Bool
  | name _ | number _ => true
  | _ => false

def constants : List (List Char) := [
  ['T', 'r', 'u', 'e'], ['F', 'a', 'l', 's', 'e'], ['N', 'o', 'n', 'e']]

mutual

def Sound : Expr → Prop
  | name word => Text.isPlainName word = true
  | constant word => word ∈ constants
  | number text => IsNumber text
  | negative operand => operand.Sound ∧ operand.isSigned = true
  | quoted body => IsBody body
  | block body => IsBlock body
  | attr owner word => owner.Sound ∧ owner.isPrimary = true ∧ Text.isPlainName word = true
  | call callee arguments => callee.Sound ∧ callee.isPrimary = true ∧
      AreSound arguments ∧ arguments.all (!·.isMember) = true
  | spread callee word =>
    callee.Sound ∧ callee.isPrimary = true ∧ Text.isPlainName word = true
  | item owner indices => owner.Sound ∧ owner.isPrimary = true ∧
      AreSound indices ∧ indices.all (!·.isMember) = true ∧ indices ≠ []
  | list _ items => AreSound items ∧ items.all (!·.isMember) = true
  | dict _ members => AreSound members ∧ members.all isMember = true
  | member key value => IsBody key ∧ value.Sound ∧ value.isMember = false
  | union left right => left.Sound ∧ left.isMember = false ∧ right.Sound ∧
      right.isMember = false ∧ right.isUnion = false

def AreSound : List Expr → Prop
  | [] => True
  | first :: rest => first.Sound ∧ AreSound rest

end

mutual

/-- Whether the expression can be read behind so many open brackets. -/
def fits (depth : Nat) : Expr → Bool
  | number text => (numberEnd text).isSome
  | negative operand => operand.fits depth
  | attr owner _ => owner.fits depth
  | call callee arguments =>
    callee.fits depth && (decide (depth < bracketLimit) && allFit (depth + 1) arguments)
  | spread callee _ => callee.fits depth && decide (depth < bracketLimit)
  | item owner indices =>
    owner.fits depth && (decide (depth < bracketLimit) && allFit (depth + 1) indices)
  | list _ items => decide (depth < bracketLimit) && allFit (depth + 1) items
  | dict _ members => decide (depth < bracketLimit) && allFit (depth + 1) members
  | member _ value => value.fits depth
  | union left right => left.fits depth && right.fits depth
  | _ => true

def allFit (depth : Nat) : List Expr → Bool
  | [] => true
  | first :: rest => first.fits depth && allFit depth rest

end

theorem areSound_iff {items : List Expr} : AreSound items ↔ ∀ item ∈ items, item.Sound := by
  induction items with
  | nil => simp [AreSound]
  | cons first rest ih => rw [AreSound, ih, List.forall_mem_cons]

theorem allFit_eq_all (depth : Nat) (items : List Expr) :
    allFit depth items = items.all (·.fits depth) := by
  induction items with
  | nil => rfl
  | cons first rest ih => rw [allFit, ih, List.all_cons]

mutual

/-- What can be read behind many open brackets can be read behind fewer. -/
theorem fits_of_le : ∀ {expr : Expr} {depth deeper : Nat}, depth ≤ deeper →
    expr.fits deeper = true → expr.fits depth = true
  | name _, _, _, _, _ | constant _, _, _, _, _ | quoted _, _, _, _, _ | block _, _, _, _, _ => rfl
  | number _, _, _, _, h => h
  | negative _, _, _, hle, h | attr _ _, _, _, hle, h | member _ _, _, _, hle, h => by
      rw [fits] at h ⊢
      exact fits_of_le hle h
  | call _ _, _, _, hle, h | item _ _, _, _, hle, h => by
      simp only [fits, Bool.and_eq_true, decide_eq_true_eq] at h ⊢
      exact ⟨fits_of_le hle h.1, by omega, allFit_of_le (by omega) h.2.2⟩
  | spread _ _, _, _, hle, h => by
      simp only [fits, Bool.and_eq_true, decide_eq_true_eq] at h ⊢
      exact ⟨fits_of_le hle h.1, by omega⟩
  | list _ _, _, _, hle, h | dict _ _, _, _, hle, h => by
      simp only [fits, Bool.and_eq_true, decide_eq_true_eq] at h ⊢
      exact ⟨by omega, allFit_of_le (by omega) h.2⟩
  | union _ _, _, _, hle, h => by
      simp only [fits, Bool.and_eq_true] at h ⊢
      exact ⟨fits_of_le hle h.1, fits_of_le hle h.2⟩

theorem allFit_of_le : ∀ {items : List Expr} {depth deeper : Nat}, depth ≤ deeper →
    allFit deeper items = true → allFit depth items = true
  | [], _, _, _, _ => rfl
  | _ :: _, _, _, hle, h => by
      simp only [allFit, Bool.and_eq_true] at h ⊢
      exact ⟨fits_of_le hle h.1, allFit_of_le hle h.2⟩

end

end Expr

/-! ## Joining pieces -/

namespace Piece

variable {first second : List Piece} {last : Kind} {brackets : List Char}

@[simp] theorem charsOf_append : charsOf (first ++ second) = charsOf first ++ charsOf second := by
  simp [charsOf]

@[simp] theorem charsOf_cons (piece : Piece) :
    charsOf (piece :: second) = piece.chars ++ charsOf second := by
  simp [charsOf]

@[simp] theorem charsOf_nil : charsOf [] = [] := rfl

@[simp] theorem tokensOf_append :
    tokensOf (first ++ second) = tokensOf first ++ tokensOf second := by
  simp [tokensOf]

@[simp] theorem tokensOf_cons (piece : Piece) :
    tokensOf (piece :: second) = piece.tokens ++ tokensOf second := by
  simp [tokensOf]

@[simp] theorem tokensOf_nil : tokensOf [] = [] := rfl

theorem kindOf_append : kindOf (first ++ second) last = kindOf first (kindOf second last) := by
  cases first <;> rfl

theorem linked_append : linked last (first ++ second) =
    (linked (kindOf second last) first && linked last second) := by
  induction first with
  | nil => simp [linked]
  | cons piece rest ih =>
      rw [List.cons_append, linked, linked, ih, kindOf_append, Bool.and_assoc]

theorem nestAll_append : nestAll brackets (first ++ second) =
    (nestAll brackets first).bind fun after => nestAll after second := by
  induction first generalizing brackets with
  | nil => rfl
  | cons piece rest ih =>
      simp only [List.cons_append, nestAll]
      cases piece.nest brackets with
      | none => rfl
      | some after => exact ih

theorem foldsInside_append : FoldsInside brackets (first ++ second) ↔
    FoldsInside brackets first ∧
      ∀ after, nestAll brackets first = some after → FoldsInside after second := by
  induction first generalizing brackets with
  | nil => simp [FoldsInside, nestAll]
  | cons piece rest ih =>
      simp only [List.cons_append, FoldsInside, nestAll, Option.bind_eq_some_iff]
      constructor
      · rintro ⟨hfold, hrest⟩
        refine ⟨⟨hfold, fun after hafter => (ih.mp (hrest after hafter)).1⟩, ?_⟩
        rintro after ⟨middle, hmiddle, hafter⟩
        exact (ih.mp (hrest middle hmiddle)).2 after hafter
      · rintro ⟨⟨hfold, hfirst⟩, hsecond⟩
        exact ⟨hfold, fun middle hmiddle => ih.mpr ⟨hfirst middle hmiddle,
          fun after hafter => hsecond after ⟨middle, hmiddle, hafter⟩⟩⟩

theorem admits_of_standsAlone {mark : String} (h : standsAlone mark = true) (kind : Kind) :
    (Piece.mark mark).admits kind = true := by
  cases kind with
  | digit =>
      have hne : mark ≠ "." := by
        rintro rfl
        cases h
      simpa [admits] using hne
  | mark first => simp [admits, h]
  | _ => rfl

end Piece

/-! ## Ends -/

/-- How an expression begins. -/
def Kind.begins : Kind → Bool
  | letter | digit | quote => true
  | mark first => first == '[' || first == '\x7b' || first == '-'
  | _ => false

/-- What may stand behind an expression. -/
def Kind.closes : Kind → Bool
  | blank | fold => true
  | mark first => [',', ')', ']', '\x7d', ':', '(', '['].contains first
  | _ => false

namespace Expr

open Piece (kindOf kindOf_append linked linked_append)

theorem kindOf_begins : ∀ {expr : Expr} (last : Kind), expr.Sound →
    (kindOf expr.pieces last).begins = true
  | name _, _, _ | constant _, _, _ | number _, _, _ | quoted _, _, _ | block _, _, _
  | member .., _, _ => rfl
  | negative _, _, _ | list none _, _, _ | list (some _) _, _, _ | dict none _, _, _
  | dict (some _) _, _, _ => rfl
  | attr owner _, _, h | spread owner _, _, h | call owner _, _, h | item owner _, _, h
  | union owner _, _, h => by
      rw [pieces, kindOf_append]
      exact kindOf_begins _ h.1

theorem kindOf_rowRest {items : List Expr} {last : Kind} (hclose : last.closes = true) :
    (kindOf (rowRest items) last).closes = true := by
  cases items with
  | nil => exact hclose
  | cons => rfl

/-- Whether something of the kind may stand behind an expression; a point stands behind what a name
may be taken from. -/
def Ends (expr : Expr) (last : Kind) : Prop :=
  last.closes = true ∨ (last = .mark '.' ∧ expr.isPrimary = true)

theorem Ends.word {expr : Expr} {last : Kind} (h : expr.Ends last) (word : List Char) :
    (Piece.word word).admits last = true := by
  rcases h with hclose | ⟨rfl, -⟩
  · cases last <;> first | rfl | cases hclose
  · rfl

theorem Ends.closes {expr : Expr} {last : Kind} (h : expr.Ends last)
    (hprimary : expr.isPrimary = false) : last.closes = true := by
  refine h.resolve_right ?_
  rintro ⟨-, htrue⟩
  rw [hprimary] at htrue
  cases htrue

theorem number_admits {last : Kind} (h : last.closes = true) (text : List Char) :
    (Piece.number text).admits last = true := by
  cases last with
  | mark first =>
      have hpoint : first ≠ '.' := by
        rintro rfl
        cases h
      unfold Piece.admits
      split <;> simp_all
  | _ => first | rfl | cases h

theorem quoted_admits {last : Kind} (h : last.closes = true) (body : List Char) :
    (Piece.quoted body).admits last = true := by
  cases last <;> first | rfl | cases h

theorem block_admits (last : Kind) (body : List Char) : (Piece.block body).admits last = true := by
  cases last <;> rfl

theorem fold_admits {first : Kind} (h : first.begins = true) (width : Nat) :
    (Piece.fold width).admits first = true := by
  cases first <;> first | rfl | cases h

/-- Brackets may stand next to anything. -/
theorem linked_bracketed {before after : String} {middle : List Piece} {last : Kind}
    (hbefore : Piece.standsAlone before = true) (hafter : Piece.standsAlone after = true)
    (hmiddle : linked (Piece.mark after).kind middle = true) :
    linked last (.mark before :: (middle ++ [.mark after])) = true := by
  rw [linked, linked_append, Piece.admits_of_standsAlone hbefore]
  simp [linked, kindOf, hmiddle, Piece.admits_of_standsAlone hafter]

mutual

theorem linked_pieces : ∀ {expr : Expr} {last : Kind}, expr.Sound → expr.Ends last →
    linked last expr.pieces = true
  | name word, last, _, hlast => by simp [pieces, linked, kindOf, hlast.word word]
  | constant word, last, _, hlast => by simp [pieces, linked, kindOf, hlast.word word]
  | number text, last, _, hlast => by
      simp [pieces, linked, kindOf, number_admits (hlast.closes rfl) text]
  | quoted body, last, _, hlast => by
      simp [pieces, linked, kindOf, quoted_admits (hlast.closes rfl) body]
  | block body, last, _, _ => by simp [pieces, linked, kindOf, block_admits]
  | negative operand, last, h, hlast => by
      have hsign : (Piece.mark "-").admits (kindOf operand.pieces last) = true := by
        have hsigned := h.2
        cases operand <;> first | rfl | cases hsigned
      rw [pieces, linked, linked_pieces h.1 (.inl (hlast.closes rfl)), hsign]
      rfl
  | attr owner word, last, h, hlast => by
      have hword : linked last [.mark ".", .word word] = true := by
        simp only [linked, kindOf, List.head?_nil, Option.map_none, Option.getD_none,
          hlast.word word]
        rfl
      rw [pieces, linked_append, hword, Bool.and_true]
      exact linked_pieces h.1 (.inr ⟨rfl, h.2.1⟩)
  | call callee arguments, last, h, _ => by
      rw [pieces, linked_append, linked_bracketed rfl rfl (linked_row h.2.2.1 rfl), Bool.and_true]
      exact linked_pieces h.1 (.inl rfl)
  | spread callee word, last, h, _ => by
      have hword : linked last [.mark "(", .mark "**", .word word, .mark ")"] = true := by
        simp only [linked, kindOf, List.head?_nil, Option.map_none, Option.getD_none,
          Piece.admits_of_standsAlone (show Piece.standsAlone ")" = true from rfl)]
        rfl
      rw [pieces, linked_append, hword, Bool.and_true]
      exact linked_pieces h.1 (.inl rfl)
  | item owner indices, last, h, _ => by
      rw [pieces, linked_append, linked_bracketed rfl rfl (linked_row h.2.2.1 rfl), Bool.and_true]
      exact linked_pieces h.1 (.inl rfl)
  | list none items, last, h, _ => by
      rw [pieces]
      exact linked_bracketed rfl rfl (linked_row h.1 rfl)
  | list (some width) items, last, h, _ => by
      rw [pieces]
      refine linked_bracketed rfl rfl ?_
      rw [linked_append]
      exact Bool.and_eq_true_iff.mpr ⟨linked_rows h.1, rfl⟩
  | dict none members, last, h, _ => by
      rw [pieces]
      exact linked_bracketed rfl rfl (linked_row h.1 rfl)
  | dict (some width) members, last, h, _ => by
      rw [pieces]
      refine linked_bracketed rfl rfl ?_
      rw [linked_append]
      exact Bool.and_eq_true_iff.mpr ⟨linked_rows h.1, rfl⟩
  | member key value, last, h, hlast => by
      rw [pieces, linked, linked, linked, linked_pieces h.2.1 (.inl (hlast.closes rfl))]
      rfl
  | union left right, last, h, hlast => by
      rw [pieces, linked_append, linked, linked, linked,
        linked_pieces h.2.2.1 (.inl (hlast.closes rfl)), linked_pieces h.1 (.inl rfl)]
      rfl

theorem linked_row : ∀ {items : List Expr} {last : Kind}, AreSound items → last.closes = true →
    linked last (row items) = true
  | [], _, _, _ => rfl
  | first :: rest, last, h, hclose => by
      rw [row, linked_append, linked_pieces h.1 (.inl (kindOf_rowRest hclose)),
        linked_rowRest h.2 hclose]
      rfl

theorem linked_rowRest : ∀ {items : List Expr} {last : Kind}, AreSound items →
    last.closes = true → linked last (rowRest items) = true
  | [], _, _, _ => rfl
  | first :: rest, last, h, hclose => by
      rw [rowRest, linked, linked, linked_append,
        linked_pieces h.1 (.inl (kindOf_rowRest hclose)), linked_rowRest h.2 hclose]
      rfl

theorem linked_rows : ∀ {items : List Expr} {width : Nat} {last : Kind}, AreSound items →
    linked last (rows width items) = true
  | [], _, _, _ => rfl
  | first :: rest, width, last, h => by
      have hfirst : linked (.mark ',') first.pieces = true := linked_pieces h.1 (.inl rfl)
      rw [rows, linked, linked_append, linked, linked_rows h.2, kindOf_append,
        fold_admits (kindOf_begins _ h.1), Piece.admits_of_standsAlone rfl, Bool.true_and,
        Bool.and_true, Bool.and_true]
      exact hfirst

end

/-! ## Soundness of the pieces -/

theorem sound_mark {text : String} (h : Piece.writtenMarks.contains text = true) :
    (Piece.mark text).Sound := List.contains_iff_mem.mp h

theorem isIdentifier_of_isPlainName {word : List Char} (h : Text.isPlainName word = true) :
    Text.isIdentifier word = true := (Bool.and_eq_true_iff.mp h).1

theorem isIdentifier_of_constant {word : List Char} (h : word ∈ constants) :
    Text.isIdentifier word = true := by
  have hall : constants.all Text.isIdentifier = true := by decide
  exact List.all_eq_true.mp hall word h

theorem sound_bracketed {before after : String} {middle : List Piece}
    (hbefore : Piece.writtenMarks.contains before = true)
    (hafter : Piece.writtenMarks.contains after = true) (hmiddle : ∀ piece ∈ middle, piece.Sound) :
    ∀ piece ∈ Piece.mark before :: (middle ++ [.mark after]), piece.Sound := by
  rw [List.forall_mem_cons, List.forall_mem_append, List.forall_mem_singleton]
  exact ⟨sound_mark hbefore, hmiddle, sound_mark hafter⟩

mutual

theorem sound_pieces : ∀ {expr : Expr}, expr.Sound → ∀ piece ∈ expr.pieces, piece.Sound
  | name word, h => by
      rw [pieces, List.forall_mem_singleton]
      exact isIdentifier_of_isPlainName h
  | constant word, h => by
      rw [pieces, List.forall_mem_singleton]
      exact isIdentifier_of_constant h
  | number text, h => by
      rw [pieces, List.forall_mem_singleton]
      exact h
  | quoted body, h => by
      rw [pieces, List.forall_mem_singleton]
      exact h
  | block body, h => by
      rw [pieces, List.forall_mem_singleton]
      exact h
  | negative operand, h => by
      rw [pieces, List.forall_mem_cons]
      exact ⟨sound_mark rfl, sound_pieces h.1⟩
  | attr owner word, h => by
      rw [pieces, List.forall_mem_append, List.forall_mem_cons, List.forall_mem_singleton]
      exact ⟨sound_pieces h.1, sound_mark rfl, isIdentifier_of_isPlainName h.2.2⟩
  | call callee arguments, h => by
      rw [pieces, List.forall_mem_append]
      exact ⟨sound_pieces h.1, sound_bracketed rfl rfl (sound_row h.2.2.1)⟩
  | spread callee word, h => by
      rw [pieces, List.forall_mem_append, List.forall_mem_cons, List.forall_mem_cons,
        List.forall_mem_cons, List.forall_mem_singleton]
      exact ⟨sound_pieces h.1, sound_mark rfl, sound_mark rfl,
        isIdentifier_of_isPlainName h.2.2, sound_mark rfl⟩
  | item owner indices, h => by
      rw [pieces, List.forall_mem_append]
      exact ⟨sound_pieces h.1, sound_bracketed rfl rfl (sound_row h.2.2.1)⟩
  | list none items, h => by
      rw [pieces]
      exact sound_bracketed rfl rfl (sound_row h.1)
  | list (some width) items, h => by
      rw [pieces]
      exact sound_bracketed rfl rfl (sound_rows h.1)
  | dict none members, h => by
      rw [pieces]
      exact sound_bracketed rfl rfl (sound_row h.1)
  | dict (some width) members, h => by
      rw [pieces]
      exact sound_bracketed rfl rfl (sound_rows h.1)
  | member key value, h => by
      rw [pieces, List.forall_mem_cons, List.forall_mem_cons, List.forall_mem_cons]
      exact ⟨h.1, sound_mark rfl, trivial, sound_pieces h.2.1⟩
  | union left right, h => by
      rw [pieces, List.forall_mem_append, List.forall_mem_cons, List.forall_mem_cons,
        List.forall_mem_cons]
      exact ⟨sound_pieces h.1, trivial, sound_mark rfl, trivial, sound_pieces h.2.2.1⟩

theorem sound_row : ∀ {items : List Expr}, AreSound items → ∀ piece ∈ row items, piece.Sound
  | [], _ => by simp [row]
  | first :: rest, h => by
      rw [row, List.forall_mem_append]
      exact ⟨sound_pieces h.1, sound_rowRest h.2⟩

theorem sound_rowRest : ∀ {items : List Expr}, AreSound items →
    ∀ piece ∈ rowRest items, piece.Sound
  | [], _ => by simp [rowRest]
  | first :: rest, h => by
      rw [rowRest, List.forall_mem_cons, List.forall_mem_cons, List.forall_mem_append]
      exact ⟨sound_mark rfl, trivial, sound_pieces h.1, sound_rowRest h.2⟩

/-- With the end of the line behind them. -/
theorem sound_rows : ∀ {items : List Expr} {width last : Nat}, AreSound items →
    ∀ piece ∈ rows width items ++ [.fold last], piece.Sound
  | [], _, _, _ => by
      rw [rows, List.nil_append, List.forall_mem_singleton]
      trivial
  | first :: rest, width, last, h => by
      rw [rows, List.cons_append, List.append_assoc, List.cons_append, List.forall_mem_cons,
        List.forall_mem_append, List.forall_mem_cons]
      exact ⟨trivial, sound_pieces h.1, sound_mark rfl, sound_rows h.2⟩

end

/-! ## Brackets -/

section Nesting

open Piece (nestAll nestAll_append FoldsInside foldsInside_append)

variable {brackets : List Char}

/-- Brackets around something that leaves them as they are, as far as one more may be open. -/
theorem nestAll_bracketed {before after : String} {opened closed : Char} {middle : List Piece}
    {fits : Bool} (hopened : before.toList = [opened]) (hclosed : after.toList = [closed])
    (hpair : closing? opened = some closed) (hself : closing? closed = none)
    (hclosing : isClosing closed = true)
    (hmiddle : nestAll (closed :: brackets) middle =
      if fits then some (closed :: brackets) else none) :
    nestAll brackets (.mark before :: (middle ++ [.mark after])) =
      if decide (brackets.length < bracketLimit) && fits then some brackets else none := by
  have hopen : nestBrackets brackets before.toList =
      if brackets.length < bracketLimit then some (closed :: brackets) else none := by
    simp only [hopened, nestBrackets, hpair]
  have hclose : nestBrackets (closed :: brackets) after.toList = some brackets := by
    simp [hclosed, nestBrackets, hself, hclosing]
  simp only [nestAll, Piece.nest, hopen]
  by_cases hlimit : brackets.length < bracketLimit
  · simp only [hlimit, if_true, Option.bind_some, decide_true, Bool.true_and, nestAll_append,
      hmiddle]
    cases fits with
    | true => simp [nestAll, Piece.nest, hclose]
    | false => rfl
  · simp [hlimit]

mutual

theorem nestAll_pieces : ∀ (expr : Expr) (brackets : List Char),
    nestAll brackets expr.pieces = if expr.fits brackets.length then some brackets else none
  | name word, brackets => by simp [pieces, nestAll, Piece.nest, fits]
  | constant word, brackets => by simp [pieces, nestAll, Piece.nest, fits]
  | number text, brackets => by
      by_cases hnumber : (numberEnd text).isSome = true <;>
        simp [pieces, nestAll, Piece.nest, fits, hnumber]
  | quoted body, brackets => by simp [pieces, nestAll, Piece.nest, fits]
  | block body, brackets => by simp [pieces, nestAll, Piece.nest, fits]
  | negative operand, brackets => by
      rw [pieces, nestAll, fits]
      exact nestAll_pieces operand brackets
  | attr owner word, brackets => by
      rw [pieces, nestAll_append, nestAll_pieces owner, fits]
      cases owner.fits brackets.length <;> rfl
  | call callee arguments, brackets => by
      rw [pieces, nestAll_append, nestAll_pieces callee, fits]
      cases callee.fits brackets.length with
      | false => rfl
      | true => exact nestAll_bracketed rfl rfl rfl rfl rfl (nestAll_row arguments _)
  | spread callee word, brackets => by
      have hword : nestAll brackets
          (.mark "(" :: ([.mark "**", .word word] ++ [.mark ")"])) =
            if decide (brackets.length < bracketLimit) && true then some brackets else none :=
        nestAll_bracketed rfl rfl rfl rfl rfl rfl
      rw [Bool.and_true] at hword
      rw [pieces, nestAll_append, nestAll_pieces callee, fits]
      cases callee.fits brackets.length with
      | false => rfl
      | true => exact hword
  | item owner indices, brackets => by
      rw [pieces, nestAll_append, nestAll_pieces owner, fits]
      cases owner.fits brackets.length with
      | false => rfl
      | true => exact nestAll_bracketed rfl rfl rfl rfl rfl (nestAll_row indices _)
  | list none items, brackets => by
      rw [pieces, fits]
      exact nestAll_bracketed rfl rfl rfl rfl rfl (nestAll_row items _)
  | list (some width) items, brackets => by
      rw [pieces, fits]
      exact nestAll_bracketed rfl rfl rfl rfl rfl (nestAll_rows items _ _ _)
  | dict none members, brackets => by
      rw [pieces, fits]
      exact nestAll_bracketed rfl rfl rfl rfl rfl (nestAll_row members _)
  | dict (some width) members, brackets => by
      rw [pieces, fits]
      exact nestAll_bracketed rfl rfl rfl rfl rfl (nestAll_rows members _ _ _)
  | member key value, brackets => by
      rw [pieces, fits]
      exact nestAll_pieces value brackets
  | union left right, brackets => by
      rw [pieces, nestAll_append, nestAll_pieces left, fits]
      cases left.fits brackets.length with
      | false => rfl
      | true => exact nestAll_pieces right brackets

theorem nestAll_row : ∀ (items : List Expr) (brackets : List Char),
    nestAll brackets (row items) =
      if allFit brackets.length items then some brackets else none
  | [], _ => rfl
  | first :: rest, brackets => by
      rw [row, nestAll_append, nestAll_pieces first, allFit]
      cases first.fits brackets.length with
      | false => rfl
      | true => exact nestAll_rowRest rest brackets

theorem nestAll_rowRest : ∀ (items : List Expr) (brackets : List Char),
    nestAll brackets (rowRest items) =
      if allFit brackets.length items then some brackets else none
  | [], _ => rfl
  | first :: rest, brackets => by
      have hitem : nestAll brackets (first.pieces ++ rowRest rest) =
          if allFit brackets.length (first :: rest) then some brackets else none := by
        rw [nestAll_append, nestAll_pieces first, allFit]
        cases first.fits brackets.length with
        | false => rfl
        | true => exact nestAll_rowRest rest brackets
      rw [rowRest]
      exact hitem

theorem nestAll_rows : ∀ (items : List Expr) (width last : Nat) (brackets : List Char),
    nestAll brackets (rows width items ++ [.fold last]) =
      if allFit brackets.length items then some brackets else none
  | [], _, _, _ => rfl
  | first :: rest, width, last, brackets => by
      have hitem : nestAll brackets (first.pieces ++ .mark "," ::
          (rows width rest ++ [.fold last])) =
            if allFit brackets.length (first :: rest) then some brackets else none := by
        rw [nestAll_append, nestAll_pieces first, allFit]
        cases first.fits brackets.length with
        | false => rfl
        | true => exact nestAll_rows rest width last brackets
      rw [rows, List.cons_append, List.append_assoc]
      exact hitem

end

/-- Lines end inside brackets only, also if they end in the middle. -/
theorem foldsInside_bracketed {before after : String} {opened closed : Char} {middle : List Piece}
    (hopened : before.toList = [opened]) (hpair : closing? opened = some closed)
    (hmiddle : FoldsInside (closed :: brackets) middle) :
    FoldsInside brackets (.mark before :: (middle ++ [.mark after])) := by
  refine ⟨fun h => Bool.noConfusion h, fun next hnext => ?_⟩
  have hopen : nestBrackets brackets before.toList =
      if brackets.length < bracketLimit then some (closed :: brackets) else none := by
    simp only [hopened, nestBrackets, hpair]
  rw [Piece.nest, hopen] at hnext
  split at hnext
  · cases hnext
    rw [foldsInside_append]
    exact ⟨hmiddle, fun last _ => ⟨fun h => Bool.noConfusion h, fun _ _ => trivial⟩⟩
  · cases hnext

/-- A piece that does not end a line and leaves the brackets as they are. -/
theorem foldsInside_cons {piece : Piece} {rest : List Piece} (hfold : piece.isFold = false)
    (hnest : piece.nest brackets = some brackets) :
    FoldsInside brackets (piece :: rest) ↔ FoldsInside brackets rest := by
  simp only [FoldsInside, hfold, hnest, Bool.false_eq_true, false_imp_iff, true_and,
    Option.some.injEq, forall_eq']

theorem foldsInside_single {piece : Piece} (hfold : piece.isFold = false) :
    FoldsInside brackets [piece] := by
  refine ⟨fun h => ?_, fun _ _ => trivial⟩
  rw [hfold] at h
  cases h

mutual

theorem foldsInside_pieces : ∀ (expr : Expr) (brackets : List Char),
    FoldsInside brackets expr.pieces
  | name word, brackets => by
      rw [pieces]
      exact foldsInside_single rfl
  | constant word, brackets => by
      rw [pieces]
      exact foldsInside_single rfl
  | number text, brackets => by
      rw [pieces]
      exact foldsInside_single rfl
  | quoted body, brackets => by
      rw [pieces]
      exact foldsInside_single rfl
  | block body, brackets => by
      rw [pieces]
      exact foldsInside_single rfl
  | negative operand, brackets => by
      rw [pieces, foldsInside_cons rfl rfl]
      exact foldsInside_pieces operand brackets
  | attr owner word, brackets => by
      rw [pieces, foldsInside_append]
      refine ⟨foldsInside_pieces owner brackets, fun after _ => ?_⟩
      rw [foldsInside_cons rfl rfl]
      exact foldsInside_single rfl
  | call callee arguments, brackets => by
      rw [pieces, foldsInside_append]
      exact ⟨foldsInside_pieces callee brackets,
        fun after _ => foldsInside_bracketed rfl rfl (foldsInside_row arguments _)⟩
  | spread callee word, brackets => by
      rw [pieces, foldsInside_append]
      have hword : ∀ brackets, FoldsInside brackets [.mark "**", .word word] := by
        intro brackets
        rw [foldsInside_cons rfl rfl]
        exact foldsInside_single rfl
      exact ⟨foldsInside_pieces callee brackets,
        fun after _ => foldsInside_bracketed rfl rfl (hword _)⟩
  | item owner indices, brackets => by
      rw [pieces, foldsInside_append]
      exact ⟨foldsInside_pieces owner brackets,
        fun after _ => foldsInside_bracketed rfl rfl (foldsInside_row indices _)⟩
  | list none items, brackets => by
      rw [pieces]
      exact foldsInside_bracketed rfl rfl (foldsInside_row items _)
  | list (some width) items, brackets => by
      rw [pieces]
      exact foldsInside_bracketed rfl rfl (foldsInside_rows items _ _ (by simp))
  | dict none members, brackets => by
      rw [pieces]
      exact foldsInside_bracketed rfl rfl (foldsInside_row members _)
  | dict (some width) members, brackets => by
      rw [pieces]
      exact foldsInside_bracketed rfl rfl (foldsInside_rows members _ _ (by simp))
  | member key value, brackets => by
      rw [pieces, foldsInside_cons rfl rfl, foldsInside_cons rfl rfl, foldsInside_cons rfl rfl]
      exact foldsInside_pieces value brackets
  | union left right, brackets => by
      rw [pieces, foldsInside_append]
      refine ⟨foldsInside_pieces left brackets, fun after _ => ?_⟩
      rw [foldsInside_cons rfl rfl, foldsInside_cons rfl rfl, foldsInside_cons rfl rfl]
      exact foldsInside_pieces right after

theorem foldsInside_row : ∀ (items : List Expr) (brackets : List Char),
    FoldsInside brackets (row items)
  | [], _ => trivial
  | first :: rest, brackets => by
      rw [row, foldsInside_append]
      exact ⟨foldsInside_pieces first brackets, fun after _ => foldsInside_rowRest rest after⟩

theorem foldsInside_rowRest : ∀ (items : List Expr) (brackets : List Char),
    FoldsInside brackets (rowRest items)
  | [], _ => trivial
  | first :: rest, brackets => by
      rw [rowRest, foldsInside_cons rfl rfl, foldsInside_cons rfl rfl, foldsInside_append]
      exact ⟨foldsInside_pieces first brackets, fun after _ => foldsInside_rowRest rest after⟩

theorem foldsInside_rows : ∀ (items : List Expr) (width last : Nat) {brackets : List Char},
    brackets ≠ [] → FoldsInside brackets (rows width items ++ [.fold last])
  | [], _, _, _, hbrackets => ⟨fun _ => hbrackets, fun _ _ => trivial⟩
  | first :: rest, width, last, brackets, hbrackets => by
      have hitem : FoldsInside brackets (first.pieces ++ .mark "," ::
          (rows width rest ++ [.fold last])) := by
        rw [foldsInside_append]
        refine ⟨foldsInside_pieces first brackets, fun after hafter => ?_⟩
        rw [nestAll_pieces] at hafter
        split at hafter <;> cases hafter
        rw [foldsInside_cons rfl rfl]
        exact foldsInside_rows rest width last hbrackets
      rw [rows, List.cons_append, List.append_assoc]
      refine ⟨fun _ => hbrackets, fun after hafter => ?_⟩
      cases hafter
      exact hitem

end

end Nesting

end Expr

end ModelMint.Source
