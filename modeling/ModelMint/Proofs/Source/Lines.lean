import ModelMint.Proofs.Source.Reading
import ModelMint.Proofs.Source.Rows
import ModelMint.Source.Statement

/-!
# Lines of code

The simple statements of a module, each on a line of its own, and the heads of its
compound statements.  Each is a line of code that fits the bounds if its expressions do,
and is read as the statement that it was written for.
-/

namespace ModelMint.Source

open Piece (tokensOf nestAll linked kindOf FoldsInside)

/-! ## Balanced pieces -/

/-- Pieces that leave the brackets as they were, and that are scanned as far as they fit behind so
many open ones. -/
structure Balanced (last : Kind) (pieces : List Piece) (fits : Nat → Bool) : Prop where
  sound : ∀ piece ∈ pieces, piece.Sound
  linked : linked last pieces = true
  nests : ∀ brackets, nestAll brackets pieces =
    if fits brackets.length then some brackets else none
  folds : ∀ brackets, FoldsInside brackets pieces

namespace Balanced

variable {last : Kind} {pieces first second : List Piece} {fits others : Nat → Bool}

theorem nil (last : Kind) : Balanced last [] fun _ => true where
  sound := by simp
  linked := rfl
  nests _ := rfl
  folds _ := trivial

theorem expr {expr : Expr} (h : expr.Sound) (hends : expr.Ends last) :
    Balanced last expr.pieces fun depth => expr.fits depth where
  sound := Expr.sound_pieces h
  linked := Expr.linked_pieces h hends
  nests := Expr.nestAll_pieces expr
  folds := Expr.foldsInside_pieces expr

theorem row {items : List Expr} (h : Expr.AreSound items) (hclose : last.closes = true) :
    Balanced last (Expr.row items) fun depth => Expr.allFit depth items where
  sound := Expr.sound_row h
  linked := Expr.linked_row h hclose
  nests := Expr.nestAll_row items
  folds := Expr.foldsInside_row items

theorem append (hfirst : Balanced (kindOf second last) first fits)
    (hsecond : Balanced last second others) :
    Balanced last (first ++ second) fun depth => fits depth && others depth where
  sound := List.forall_mem_append.mpr ⟨hfirst.sound, hsecond.sound⟩
  linked := by rw [Piece.linked_append, hfirst.linked, hsecond.linked]; rfl
  nests brackets := by
    rw [Piece.nestAll_append, hfirst.nests]
    cases fits brackets.length with
    | false => rfl
    | true => exact hsecond.nests brackets
  folds brackets := Piece.foldsInside_append.mpr
    ⟨hfirst.folds brackets, fun after _ => hsecond.folds after⟩

theorem cons {piece : Piece} (hsound : piece.Sound) (hfold : piece.isFold = false)
    (hadmits : piece.admits (kindOf pieces last) = true)
    (hnest : ∀ brackets, piece.nest brackets = some brackets) (h : Balanced last pieces fits) :
    Balanced last (piece :: pieces) fits where
  sound := List.forall_mem_cons.mpr ⟨hsound, h.sound⟩
  linked := by rw [Piece.linked, hadmits, h.linked]; rfl
  nests brackets := by
    rw [nestAll, hnest]
    exact h.nests brackets
  folds brackets := (Expr.foldsInside_cons hfold (hnest brackets)).mpr (h.folds brackets)

theorem blank (h : Balanced last pieces fits) : Balanced last (.blank :: pieces) fits :=
  cons trivial rfl rfl (fun _ => rfl) h

theorem word {text : List Char} (htext : Text.isIdentifier text = true)
    (hadmits : (Piece.word text).admits (kindOf pieces last) = true)
    (h : Balanced last pieces fits) : Balanced last (.word text :: pieces) fits :=
  cons htext rfl hadmits (fun _ => rfl) h

theorem mark {text : String} (hmark : Piece.writtenMarks.contains text = true)
    (hadmits : (Piece.mark text).admits (kindOf pieces last) = true)
    (hnest : ∀ brackets, (Piece.mark text).nest brackets = some brackets)
    (h : Balanced last pieces fits) : Balanced last (.mark text :: pieces) fits :=
  cons (Expr.sound_mark hmark) rfl hadmits hnest h

theorem parenthesized (h : Balanced (.mark ')') pieces fits) (last : Kind) :
    Balanced last (.mark "(" :: (pieces ++ [.mark ")"])) fun depth =>
      decide (depth < bracketLimit) && fits (depth + 1) where
  sound := Expr.sound_bracketed rfl rfl h.sound
  linked := Expr.linked_bracketed rfl rfl h.linked
  nests brackets := Expr.nestAll_bracketed rfl rfl rfl rfl rfl (h.nests (')' :: brackets))
  folds _ := Expr.foldsInside_bracketed rfl rfl (h.folds _)

theorem isCode (h : Balanced .fold pieces fits)
    (hopens : (Piece.fold 0).admits (kindOf pieces .fold) = true) : IsCode pieces where
  sound := h.sound
  linked := h.linked
  folds := h.folds []
  opens := hopens
  closed after hafter := by
    rw [h.nests] at hafter
    split at hafter <;> simp_all

theorem isSome_nestAll (h : Balanced .fold pieces fits) :
    (nestAll [] pieces).isSome = fits 0 := by
  rw [h.nests, List.length_nil]
  cases fits 0 <;> rfl

end Balanced

/-! ## Lines -/

/-- Statements that take a line. -/
inductive Line where
  /-- Names from a module, the last perhaps under another name. -/
  | imports (relative : Bool) (path : Expr) (names : List (List Char)) (renamed : Option (List Char))
  /-- An expression for what it does, or a text that documents. -/
  | evaluate (expr : Expr)
  | assign (name : List Char) (value : Expr)
  /-- An attribute of the receiver gets a value. -/
  | store (attr : List Char) (value : Expr)
  | declare (name : List Char) (type : Expr) (value : Option Expr)
  | returns (value : Expr)

namespace Expr

/-- Names with points between them. -/
def isPath : Expr → Bool
  | name _ => true
  | attr owner _ => owner.isPath
  | _ => false

theorem isPrimary_of_isPath {expr : Expr} (h : expr.isPath = true) : expr.isPrimary = true := by
  cases expr <;> first | rfl | cases h

theorem fits_of_isPath (depth : Nat) : ∀ {expr : Expr}, expr.isPath = true →
    expr.fits depth = true
  | name _, _ => rfl
  | attr _ _, h => by
      rw [fits]
      exact fits_of_isPath depth h

theorem kindOf_path {last : Kind} : ∀ {expr : Expr}, expr.isPath = true →
    kindOf expr.pieces last = .letter
  | name _, _ => rfl
  | attr _ _, h => by
      rw [pieces, Piece.kindOf_append]
      exact kindOf_path h

def receiver : Expr := name ['s', 'e', 'l', 'f']

theorem sound_receiver : receiver.Sound := by
  change Text.isPlainName ['s', 'e', 'l', 'f'] = true
  decide

/-- An attribute of the receiver. -/
def stored (word : List Char) : Expr := attr receiver word

theorem sound_stored {word : List Char} (h : Text.isPlainName word = true) : (stored word).Sound :=
  ⟨sound_receiver, rfl, h⟩

theorem areSound_names {words : List (List Char)}
    (h : ∀ word ∈ words, Text.isPlainName word = true) : AreSound (words.map name) := by
  induction words with
  | nil => trivial
  | cons word rest ih =>
      obtain ⟨hword, hrest⟩ := List.forall_mem_cons.mp h
      exact ⟨hword, ih hrest⟩

theorem allFit_names (depth : Nat) (words : List (List Char)) :
    allFit depth (words.map name) = true := by
  induction words with
  | nil => rfl
  | cons word rest ih => simp [allFit, fits, ih]

end Expr

/-- A name that the line begins with is not taken for a choice between cases. -/
def opensLine : Tokens → Bool
  | .name word :: _ => word != "match"
  | .text .. :: _ => true
  | _ => false

namespace Line

def renamedPieces : Option (List Char) → List Piece
  | none => []
  | some word => [.blank, .word ['a', 's'], .blank, .word word]

def pieces : Line → List Piece
  | imports relative path names renamed =>
    .word ['f', 'r', 'o', 'm'] :: .blank :: ((if relative then [.mark "."] else []) ++
      (path.pieces ++ .blank :: .word ['i', 'm', 'p', 'o', 'r', 't'] :: .blank ::
        (Expr.row (names.map .name) ++ renamedPieces renamed)))
  | evaluate expr => expr.pieces
  | assign name value => .word name :: .blank :: .mark "=" :: .blank :: value.pieces
  | store attr value => (Expr.stored attr).pieces ++ .blank :: .mark "=" :: .blank :: value.pieces
  | declare name type none => .word name :: .mark ":" :: .blank :: type.pieces
  | declare name type (some value) => .word name :: .mark ":" :: .blank ::
      (type.pieces ++ .blank :: .mark "=" :: .blank :: value.pieces)
  | returns value => .word ['r', 'e', 't', 'u', 'r', 'n'] :: .blank :: value.pieces

def tokens (line : Line) : Tokens := tokensOf line.pieces

def statement : Line → Statement
  | declare name type value =>
    .annotated [.name (String.ofList name)] type.tokens (value.map Expr.tokens)
  | line => .simple line.tokens

def Sound : Line → Prop
  | imports _ path names renamed => path.Sound ∧ path.isPath = true ∧ names ≠ [] ∧
      (∀ name ∈ names, Text.isPlainName name = true) ∧
      ∀ name ∈ renamed, Text.isPlainName name = true
  | evaluate expr => expr.Sound ∧ expr.isMember = false ∧ opensLine expr.tokens = true
  | assign name value | store name value =>
    Text.isPlainName name = true ∧ value.Sound ∧ value.isMember = false
  | declare name type value => Text.isPlainName name = true ∧
      (type.Sound ∧ type.isMember = false) ∧
      ∀ expr ∈ value, expr.Sound ∧ expr.isMember = false
  | returns value => value.Sound ∧ value.isMember = false

def fits (depth : Nat) : Line → Bool
  | imports .. => true
  | evaluate expr | assign _ expr | store _ expr | returns expr => expr.fits depth
  | declare _ type value => type.fits depth && value.all (·.fits depth)

section Balanced

variable {text : List Char} {rest : List Piece} {fits : Nat → Bool} {expr : Expr}

theorem balanced_keyword (htext : Text.isIdentifier text = true) (hrest : Balanced .fold rest fits) :
    Balanced .fold (.word text :: .blank :: rest) fits :=
  .word htext rfl (.blank hrest)

theorem balanced_value (h : expr.Sound) :
    Balanced .fold expr.pieces fun depth => expr.fits depth := .expr h (.inl rfl)

theorem balanced_assigned (h : expr.Sound) :
    Balanced .fold (.blank :: .mark "=" :: .blank :: expr.pieces) fun depth => expr.fits depth :=
  .blank (.mark rfl rfl (fun _ => rfl) (.blank (balanced_value h)))

theorem balanced_renamed {renamed : Option (List Char)}
    (h : ∀ word ∈ renamed, Text.isPlainName word = true) :
    Balanced .fold (renamedPieces renamed) fun _ => true := by
  cases renamed with
  | none => exact .nil .fold
  | some word =>
      have hword := Expr.isIdentifier_of_isPlainName (h word rfl)
      refine .blank (balanced_keyword ?_ (.word hword rfl (.nil .fold)))
      decide

theorem balanced_declare {name : List Char} {type : Expr} {value : Option Expr}
    (h : (declare name type value).Sound) :
    Balanced .fold (declare name type value).pieces fun depth =>
      (declare name type value).fits depth := by
  have hname := Expr.isIdentifier_of_isPlainName h.1
  have hcolon : ∀ {rest : List Piece} {fits : Nat → Bool}, Balanced .fold rest fits →
      Balanced .fold (.word name :: .mark ":" :: .blank :: rest) fits :=
    fun hrest => .word hname rfl (.mark rfl rfl (fun _ => rfl) (.blank hrest))
  cases value with
  | none => simpa [Line.fits, pieces] using hcolon (balanced_value h.2.1.1)
  | some value =>
      exact hcolon ((Balanced.expr h.2.1.1 (.inl rfl)).append
        (balanced_assigned (h.2.2 value rfl).1))

theorem balanced_imports {relative : Bool} {path : Expr} {names : List (List Char)}
    {renamed : Option (List Char)} (h : (imports relative path names renamed).Sound) :
    Balanced .fold (imports relative path names renamed).pieces fun _ => true := by
  obtain ⟨hpath, hdotted, -, hnames, hrenamed⟩ := h
  have hcloses : (kindOf (renamedPieces renamed) .fold).closes = true := by
    cases renamed <;> rfl
  have hrow : Balanced .fold (Expr.row (names.map .name) ++ renamedPieces renamed)
      fun _ => true := by
    simpa [Expr.allFit_names] using
      (Balanced.row (Expr.areSound_names hnames) hcloses).append (balanced_renamed hrenamed)
  have himport : Balanced .fold (.blank :: .word ['i', 'm', 'p', 'o', 'r', 't'] :: .blank ::
      (Expr.row (names.map .name) ++ renamedPieces renamed)) fun _ => true := by
    refine .blank (balanced_keyword ?_ hrow)
    decide
  have hfrom : Balanced .fold (path.pieces ++ .blank ::
      .word ['i', 'm', 'p', 'o', 'r', 't'] :: .blank ::
        (Expr.row (names.map .name) ++ renamedPieces renamed)) fun _ => true := by
    simpa [Expr.fits_of_isPath _ hdotted] using (Balanced.expr hpath (.inl rfl)).append himport
  refine balanced_keyword (by decide) ?_
  cases relative with
  | false => exact hfrom
  | true =>
      have hpoint : ∀ rest, (Piece.mark ".").admits (kindOf (path.pieces ++ rest) .fold) = true := by
        intro rest
        rw [Piece.kindOf_append, Expr.kindOf_path hdotted]
        rfl
      exact .mark rfl (hpoint _) (fun _ => rfl) hfrom

end Balanced

theorem balanced {line : Line} (h : line.Sound) :
    Balanced .fold line.pieces fun depth => line.fits depth := by
  cases line with
  | evaluate expr => exact balanced_value h.1
  | returns value => exact balanced_keyword (by decide) (balanced_value h.1)
  | assign name value =>
      exact .word (Expr.isIdentifier_of_isPlainName h.1) rfl (balanced_assigned h.2.1)
  | store attr value =>
      exact (Balanced.expr (Expr.sound_stored h.1) (.inl rfl)).append (balanced_assigned h.2.1)
  | declare name type value => exact balanced_declare h
  | imports relative path names renamed => exact balanced_imports h

theorem isCode {line : Line} (h : line.Sound) : IsCode line.pieces := by
  refine (balanced h).isCode ?_
  cases line with
  | evaluate expr => exact Expr.fold_admits (Expr.kindOf_begins _ h.1) 0
  | declare name type value => cases value <;> rfl
  | _ => rfl

end Line

/-! ## Reading simple statements -/

section Simple

variable {expr : Expr} {fuel : Nat} {tokens rest : Tokens}

theorem between_append (tokens rest : Tokens) : between (tokens ++ rest) rest = tokens := by
  simp [between]

theorem yielded_of_begins (h : begins tokens = true) : yielded fuel tokens = none := by
  cases fuel with
  | zero => rfl
  | succ fuel =>
      unfold yielded
      split
      · cases h
      · cases h
      · rfl

theorem starExpressions_readable (h : expr.Readable) (hfuel : 20 * expr.tokens.length + 2 ≤ fuel)
    (hstops : stops rest = true) (hcomma : mark? "," rest = none) :
    starExpressions fuel (expr.tokens ++ rest) = some (expr.form, rest) := by
  obtain ⟨less, rfl⟩ : ∃ less, fuel = less + 2 := ⟨fuel - 2, by omega⟩
  have hread : expression less (expr.tokens ++ rest) = some (expr.form, rest) :=
    h.reads (by omega) hstops
  simp only [starExpressions, starExpression, mark?_of_begins (h.begins rest)
    (show ["[", "\x7b", "-"].contains "*" = false from rfl), hread, Option.bind_eq_bind,
    Option.bind_some, hcomma]

theorem valueOf_readable (rest : Tokens) (h : expr.Readable) (hfuel : 20 * expr.tokens.length + 2 ≤ fuel) :
    valueOf fuel (expr.tokens ++ .newline :: rest) = some (.newline :: rest) := by
  rw [valueOf, yielded_of_begins (h.begins _), starExpressions_readable h hfuel rfl rfl]
  rfl

theorem expressionStatement_evaluate (h : expr.Readable)
    (hfuel : 20 * expr.tokens.length + 2 ≤ fuel) :
    expressionStatement fuel (expr.tokens ++ .newline :: rest) =
      some (.simple expr.tokens, .newline :: rest) := by
  simp only [expressionStatement, yielded_of_begins (h.begins _),
    starExpressions_readable h hfuel (show stops (.newline :: rest) = true from rfl) rfl,
    Option.bind_eq_bind, Option.bind_some, between_append]

theorem expressionStatement_assign {target : Expr} (rest : Tokens) (htarget : target.Readable)
    (hplace : target.form.isTarget = true) (h : expr.Readable)
    (hfuel : 20 * (target.tokens.length + expr.tokens.length) + 3 ≤ fuel) :
    expressionStatement fuel (target.tokens ++ .mark "=" :: (expr.tokens ++ .newline :: rest)) =
      some (.simple (target.tokens ++ .mark "=" :: expr.tokens), .newline :: rest) := by
  obtain ⟨less, rfl⟩ : ∃ less, fuel = less + 1 := ⟨fuel - 1, by omega⟩
  have hvalue : assignmentRest (less + 1) (expr.tokens ++ .newline :: rest) =
      some (.newline :: rest) := by
    simp only [assignmentRest, yielded_of_begins (h.begins _),
      starExpressions_readable h (show _ ≤ less by omega)
        (show stops (.newline :: rest) = true from rfl) rfl, Option.bind_eq_bind, Option.bind_some]
    rfl
  have htokens : target.tokens ++ .mark "=" :: (expr.tokens ++ .newline :: rest) =
      (target.tokens ++ .mark "=" :: expr.tokens) ++ .newline :: rest := by simp
  have hstart := starExpressions_readable htarget (show _ ≤ less + 1 by omega)
    (show stops (.mark "=" :: (expr.tokens ++ .newline :: rest)) = true from rfl) rfl
  simp only [expressionStatement, yielded_of_begins (htarget.begins _), hstart,
    Option.bind_eq_bind, Option.bind_some, hplace, if_true, hvalue]
  rw [htokens, between_append]

theorem between_cons (token : Token) (rest : Tokens) : between (token :: rest) rest = [token] :=
  between_append [token] rest

theorem not_opensWithPlace (word : String) (after : Tokens) :
    opensWithPlace fuel (.name word :: tokens) after = false := by
  cases fuel with
  | zero => rfl
  | succ fuel => simp [opensWithPlace, atom]

/-- A name with a colon behind it is declared. -/
theorem expressionStatement_declare {word : List Char} {type : Expr} {value : Option Expr}
    (rest : Tokens) (hword : Text.isPlainName word = true) (htype : type.Readable)
    (hvalue : ∀ expr ∈ value, expr.Readable) (hlong : 22 ≤ fuel)
    (hfuel : 20 * type.tokens.length + 3 ≤ fuel)
    (hafter : ∀ expr ∈ value, 20 * expr.tokens.length + 3 ≤ fuel) :
    expressionStatement fuel (.name (String.ofList word) :: .mark ":" :: (type.tokens ++
      ((value.map fun expr => .mark "=" :: expr.tokens).getD [] ++ .newline :: rest))) =
        some (.annotated [.name (String.ofList word)] type.tokens (value.map Expr.tokens),
          .newline :: rest) := by
  have hname : (Expr.name word).Readable := Expr.readable hword rfl
  have hstart : ∀ tail, starExpressions fuel (.name (String.ofList word) :: .mark ":" :: tail) =
      some (.name, .mark ":" :: tail) := by
    intro tail
    have hread := starExpressions_readable hname (show _ ≤ fuel by
      rw [Expr.tokens_name hword, List.length_singleton]
      exact hlong) (show stops (.mark ":" :: tail) = true from rfl) rfl
    rwa [Expr.tokens_name hword] at hread
  have hyield : ∀ tail, yielded fuel (.name (String.ofList word) :: tail) = none :=
    fun tail => yielded_of_begins rfl
  cases value with
  | none =>
      have hread : expression fuel (type.tokens ++ .newline :: rest) =
          some (type.form, .newline :: rest) := htype.reads (by omega) rfl
      simp [expressionStatement, hstart, hyield, Form.isPlace, not_opensWithPlace, hread,
        between_append, between_cons, mark?]
  | some expr =>
      have hread : expression fuel (type.tokens ++ .mark "=" :: (expr.tokens ++ .newline :: rest)) =
          some (type.form, .mark "=" :: (expr.tokens ++ .newline :: rest)) :=
        htype.reads (by omega) rfl
      have hend := valueOf_readable rest (hvalue expr rfl) (show _ ≤ fuel from
        Nat.le_trans (Nat.le_succ _) (hafter expr rfl))
      simp [expressionStatement, hstart, hyield, Form.isPlace, not_opensWithPlace, hread,
        between_append, between_cons, mark?, hend]

/-! ### Imports -/

theorem dottedName?_path : ∀ {path : Expr} (rest : Tokens), path.Sound → path.isPath = true →
    dottedName? (path.tokens ++ rest) = some (dottedRest rest)
  | .name word, rest, h, _ => by
      rw [Expr.tokens_name h]
      rfl
  | .attr owner word, rest, h, hpath => by
      rw [Expr.tokens_attr h.2.2, List.append_assoc, dottedName?_path _ h.1 hpath]
      rfl

theorem leadingPoints_path : ∀ {path : Expr} (rest : Tokens), path.Sound → path.isPath = true →
    leadingPoints (path.tokens ++ rest) = (false, path.tokens ++ rest)
  | .name word, rest, h, _ => by
      rw [Expr.tokens_name h]
      rfl
  | .attr owner word, rest, h, hpath => by
      rw [Expr.tokens_attr h.2.2, List.append_assoc]
      exact leadingPoints_path _ h.1 hpath

def renamedTokens : Option (List Char) → Tokens
  | none => []
  | some word => [.keyword "as", .name (String.ofList word)]

theorem tokensOf_renamedPieces {renamed : Option (List Char)}
    (h : ∀ word ∈ renamed, Text.isPlainName word = true) :
    tokensOf (Line.renamedPieces renamed) = renamedTokens renamed := by
  have has : wordToken ['a', 's'] = some (.keyword "as") := by decide
  cases renamed with
  | none => rfl
  | some word =>
      simp [Line.renamedPieces, Piece.tokens, has, wordToken_of_isPlainName (h word rfl),
        renamedTokens]

theorem fromNames_listed {names : List (List Char)} {renamed : Option (List Char)}
    (hnames : names ≠ []) (h : ∀ word ∈ names, Text.isPlainName word = true)
    (hfuel : (Expr.listed false (names.map .name)).length ≤ fuel) :
    fromNames fuel false (Expr.listed false (names.map .name) ++
      (renamedTokens renamed ++ .newline :: rest)) = some (.newline :: rest) := by
  induction names generalizing fuel with
  | nil => exact absurd rfl hnames
  | cons word others ih =>
      obtain ⟨hword, hothers⟩ := List.forall_mem_cons.mp h
      -- a comma asks for one more name, so the last name is the case that ends the line
      cases others with
      | nil =>
          simp only [List.map_cons, List.map_nil, Expr.listed, Expr.tokens_name hword,
            Bool.false_eq_true, if_false, List.append_nil, List.length_singleton,
            List.singleton_append] at hfuel ⊢
          obtain ⟨less, rfl⟩ : ∃ less, fuel = less + 1 := ⟨fuel - 1, by omega⟩
          cases renamed <;>
            simp [fromNames, anyName?, renamed?, renamedTokens, keyword?, mark?]
      | cons second rest' =>
          simp only [List.map_cons, Expr.listed, Expr.tokens_name hword, List.nil_append,
            List.cons_append, List.length_cons] at hfuel ih ⊢
          obtain ⟨less, rfl⟩ : ∃ less, fuel = less + 1 := ⟨fuel - 1, by omega⟩
          have hend := ih (by simp) hothers (show _ ≤ less by omega)
          simp only [fromNames, anyName?, Option.bind_eq_bind, Option.bind_some]
          simpa [renamed?, keyword?, mark?] using hend

theorem fromImport_line {path : Expr} {names : List (List Char)} (relative : Bool)
    (renamed : Option (List Char)) (rest : Tokens) (hpath : path.Sound)
    (hdotted : path.isPath = true) (hsome : names ≠ [])
    (hnames : ∀ word ∈ names, Text.isPlainName word = true)
    (hfuel : (Expr.listed false (names.map .name)).length ≤ fuel) :
    fromImport fuel ((if relative then [.mark "."] else []) ++ (path.tokens ++
      .keyword "import" :: (Expr.listed false (names.map .name) ++
        (renamedTokens renamed ++ .newline :: rest)))) = some (.newline :: rest) := by
  have hlist : fromNames fuel false (Expr.listed false (names.map .name) ++
      (renamedTokens renamed ++ .newline :: rest)) = some (.newline :: rest) :=
    fromNames_listed hsome hnames hfuel
  have hbegins : ∀ after, begins (Expr.listed false (names.map .name) ++ after) = true := by
    intro after
    obtain ⟨first, others, rfl⟩ := List.exists_cons_of_ne_nil hsome
    have hfirst : (Expr.name first).Readable := Expr.readable (hnames first List.mem_cons_self) rfl
    exact Expr.begins_listed hfirst false _ after
  have hstart := hbegins (renamedTokens renamed ++ .newline :: rest)
  generalize Expr.listed false (names.map .name) ++
    (renamedTokens renamed ++ .newline :: rest) = behind at hlist hstart ⊢
  have hpoints : leadingPoints ((if relative then [.mark "."] else []) ++
      (path.tokens ++ .keyword "import" :: behind)) =
        (relative, path.tokens ++ .keyword "import" :: behind) := by
    cases relative with
    | false => exact leadingPoints_path _ hpath hdotted
    | true =>
        change (true, (leadingPoints (path.tokens ++ .keyword "import" :: behind)).2) = _
        rw [leadingPoints_path _ hpath hdotted]
  simp only [fromImport, hpoints, dottedName?_path _ hpath hdotted, dottedRest, keyword?,
    beq_self_eq_true, if_true, Option.bind_eq_bind, Option.bind_some]
  split
  · cases hstart
  · cases hstart
  · exact hlist

end Simple

namespace Line

theorem tokens_imports {relative : Bool} {path : Expr} {names : List (List Char)}
    {renamed : Option (List Char)} (hrenamed : ∀ word ∈ renamed, Text.isPlainName word = true) :
    (imports relative path names renamed).tokens =
      .keyword "from" :: ((if relative then [.mark "."] else []) ++ (path.tokens ++
        .keyword "import" :: (Expr.listed false (names.map .name) ++ renamedTokens renamed))) := by
  have hfrom : wordToken ['f', 'r', 'o', 'm'] = some (.keyword "from") := by decide
  have himport : wordToken ['i', 'm', 'p', 'o', 'r', 't'] = some (.keyword "import") := by decide
  cases relative <;>
    simp [tokens, pieces, Piece.tokens, hfrom, himport, Expr.tokensOf_row,
      tokensOf_renamedPieces hrenamed, Expr.tokens]

theorem tokens_store {word : List Char} {value : Expr} :
    (store word value).tokens = (Expr.stored word).tokens ++ .mark "=" :: value.tokens := by
  simp [tokens, pieces, Piece.tokens, Expr.tokens]

theorem tokens_assign {word : List Char} {value : Expr} (h : Text.isPlainName word = true) :
    (assign word value).tokens = .name (String.ofList word) :: .mark "=" :: value.tokens := by
  simp [tokens, pieces, Piece.tokens, Expr.tokens, wordToken_of_isPlainName h]

theorem tokens_returns (value : Expr) :
    (returns value).tokens = .keyword "return" :: value.tokens := by
  have hreturn : wordToken ['r', 'e', 't', 'u', 'r', 'n'] = some (.keyword "return") := by decide
  simp [tokens, pieces, Piece.tokens, Expr.tokens, hreturn]

theorem tokens_declare {word : List Char} {type : Expr} {value : Option Expr}
    (h : Text.isPlainName word = true) : (declare word type value).tokens =
      .name (String.ofList word) :: .mark ":" :: (type.tokens ++
        (value.map fun expr => .mark "=" :: expr.tokens).getD []) := by
  cases value <;>
    simp [tokens, pieces, Piece.tokens, Expr.tokens, wordToken_of_isPlainName h]

variable {line : Line} {fuel : Nat} {rest : Tokens}

theorem opensLine_append {tokens : Tokens} (rest : Tokens) (h : opensLine tokens = true) :
    opensLine (tokens ++ rest) = true := by
  unfold opensLine at h
  split at h
  · exact h
  · rfl
  · cases h

theorem opensLine_stored {word : List Char} (h : Text.isPlainName word = true) :
    opensLine (Expr.stored word).tokens = true := by
  have hreceiver : opensLine (Expr.receiver).tokens = true := by
    rw [Expr.receiver, Expr.tokens_name (by decide)]
    decide
  rw [Expr.stored, Expr.tokens_attr h]
  exact opensLine_append _ hreceiver

theorem simpleStatement_of_opensLine {tokens : Tokens} (h : opensLine tokens = true) :
    simpleStatement fuel tokens = expressionStatement fuel tokens := by
  unfold simpleStatement
  split
  · cases h
  · rfl

section Statements

variable {expr value type : Expr} {word : List Char}

theorem simpleStatement_evaluate (h : (evaluate expr).Sound)
    (hfuel : 20 * expr.tokens.length + 3 ≤ fuel) :
    simpleStatement fuel (expr.tokens ++ .newline :: rest) =
      some ((evaluate expr).statement, .newline :: rest) := by
  obtain ⟨hexpr, hmember, hopens⟩ := h
  have hstart := opensLine_append (.newline :: rest) hopens
  rw [simpleStatement_of_opensLine hstart,
    expressionStatement_evaluate (Expr.readable hexpr hmember) (by omega)]
  rfl

theorem simpleStatement_assign (h : (assign word value).Sound)
    (hfuel : 20 * (assign word value).tokens.length + 4 ≤ fuel) :
    simpleStatement fuel ((assign word value).tokens ++ .newline :: rest) =
      some ((assign word value).statement, .newline :: rest) := by
  obtain ⟨hword, hvalue, hmember⟩ := h
  have hname : (Expr.name word).Readable := Expr.readable hword rfl
  have hread := expressionStatement_assign rest hname rfl (Expr.readable hvalue hmember)
    (show _ ≤ fuel by
      rw [tokens_assign hword, List.length_cons, List.length_cons] at hfuel
      rw [Expr.tokens_name hword, List.length_singleton]
      omega)
  rw [Expr.tokens_name hword] at hread
  change _ = some (Statement.simple _, _)
  rw [tokens_assign hword]
  exact hread

theorem simpleStatement_store (h : (store word value).Sound)
    (hfuel : 20 * (store word value).tokens.length + 4 ≤ fuel) :
    simpleStatement fuel ((store word value).tokens ++ .newline :: rest) =
      some ((store word value).statement, .newline :: rest) := by
  obtain ⟨hword, hvalue, hmember⟩ := h
  have hstored : (Expr.stored word).Readable := Expr.readable (Expr.sound_stored hword) rfl
  have hread := expressionStatement_assign rest hstored rfl (Expr.readable hvalue hmember)
    (show _ ≤ fuel by
      rw [tokens_store, List.length_append, List.length_cons] at hfuel
      omega)
  change _ = some (Statement.simple _, _)
  rw [tokens_store, List.append_assoc,
    simpleStatement_of_opensLine (opensLine_append _ (opensLine_stored hword))]
  exact hread

theorem simpleStatement_declare {value : Option Expr} (h : (declare word type value).Sound)
    (hfuel : 20 * (declare word type value).tokens.length + 4 ≤ fuel) :
    simpleStatement fuel ((declare word type value).tokens ++ .newline :: rest) =
      some ((declare word type value).statement, .newline :: rest) := by
  obtain ⟨hword, ⟨htype, hmember⟩, hvalue⟩ := h
  rw [tokens_declare hword, List.length_cons, List.length_cons, List.length_append] at hfuel
  have hpositive := Expr.length_tokens_pos htype
  have hread := expressionStatement_declare rest hword (Expr.readable htype hmember)
    (fun expr hexpr => Expr.readable (hvalue expr hexpr).1 (hvalue expr hexpr).2)
    (show 22 ≤ fuel by omega) (by omega) (fun expr hexpr => by
      obtain rfl := Option.mem_def.mp hexpr
      simp only [Option.map_some, Option.getD_some, List.length_cons] at hfuel
      omega)
  rw [tokens_declare hword]
  simpa [simpleStatement, statement] using hread

theorem simpleStatement_returns (h : (returns value).Sound)
    (hfuel : 20 * (returns value).tokens.length + 4 ≤ fuel) :
    simpleStatement fuel ((returns value).tokens ++ .newline :: rest) =
      some ((returns value).statement, .newline :: rest) := by
  have hread : starExpressions fuel (value.tokens ++ .newline :: rest) =
      some (value.form, .newline :: rest) := by
    rw [tokens_returns, List.length_cons] at hfuel
    exact starExpressions_readable (Expr.readable h.1 h.2) (by omega) rfl rfl
  have hends : endsStatement (value.tokens ++ .newline :: rest) = false := by
    have hbegins := Expr.begins_tokens (.newline :: rest) h.1
    unfold endsStatement
    split
    next heq => rw [heq] at hbegins; cases hbegins
    next heq => rw [heq] at hbegins; cases hbegins
    · rfl
  change _ = some (Statement.simple _, _)
  rw [tokens_returns, List.cons_append]
  have hbetween := between_append (.keyword "return" :: value.tokens) (.newline :: rest)
  rw [List.cons_append] at hbetween
  simp [simpleStatement, ownKeywords, keywordStatement, hends, hread, hbetween]

theorem simpleStatement_imports {relative : Bool} {path : Expr} {names : List (List Char)}
    {renamed : Option (List Char)} (h : (imports relative path names renamed).Sound)
    (hfuel : 20 * (imports relative path names renamed).tokens.length + 4 ≤ fuel) :
    simpleStatement fuel ((imports relative path names renamed).tokens ++ .newline :: rest) =
      some ((imports relative path names renamed).statement, .newline :: rest) := by
  obtain ⟨hpath, hdotted, hsome, hnames, hrenamed⟩ := h
  rw [tokens_imports hrenamed, List.length_cons, List.length_append, List.length_append,
    List.length_cons, List.length_append] at hfuel
  have hread := fromImport_line relative renamed rest hpath hdotted hsome hnames
    (show _ ≤ fuel by omega)
  have hbetween := between_append (imports relative path names renamed).tokens (.newline :: rest)
  change _ = some (Statement.simple _, _)
  rw [tokens_imports hrenamed] at hbetween ⊢
  simp only [List.cons_append, List.append_assoc] at hbetween ⊢
  simp [simpleStatement, ownKeywords, keywordStatement, hread, hbetween]

end Statements

theorem simpleStatement_line (h : line.Sound) (hfuel : 20 * line.tokens.length + 4 ≤ fuel) :
    simpleStatement fuel (line.tokens ++ .newline :: rest) =
      some (line.statement, .newline :: rest) := by
  cases line with
  | evaluate expr => exact simpleStatement_evaluate h (Nat.le_of_succ_le hfuel)
  | assign word value => exact simpleStatement_assign h hfuel
  | store word value => exact simpleStatement_store h hfuel
  | declare word type value => exact simpleStatement_declare h hfuel
  | returns value => exact simpleStatement_returns h hfuel
  | imports relative path names renamed => exact simpleStatement_imports h hfuel

theorem simpleLine_line (h : line.Sound) (hfuel : 20 * line.tokens.length + 5 ≤ fuel) :
    simpleLine fuel (line.tokens ++ .newline :: rest) = some ([line.statement], rest) := by
  obtain ⟨less, rfl⟩ : ∃ less, fuel = less + 1 := ⟨fuel - 1, by omega⟩
  have hread : simpleStatement less (line.tokens ++ .newline :: rest) =
      some (line.statement, .newline :: rest) := simpleStatement_line h (by omega)
  simp only [simpleLine, hread, Option.bind_eq_bind, Option.bind_some]

end Line

/-! ## Names that are no choice -/

/-- A colon or a sign of equality begins no expression, at no level of the grammar. -/
theorem starNamed_of_mark {text : String} (h : text = ":" ∨ text = "=") (fuel : Nat)
    (rest : Tokens) : starNamed fuel (.mark text :: rest) = none := by
  have hatom : ∀ fuel, atom fuel (.mark text :: rest) = none := by
    intro fuel
    rcases h with rfl | rfl <;> cases fuel <;> simp [atom]
  have hprimary : ∀ fuel, primary fuel (.mark text :: rest) = none := by
    intro fuel
    cases fuel <;> simp [primary, hatom]
  have hawaited : ∀ fuel, awaited fuel (.mark text :: rest) = none := by
    intro fuel
    cases fuel <;> simp [awaited, keyword?, hprimary]
  have hsigned : ∀ fuel, signed fuel (.mark text :: rest) = none := by
    intro fuel
    rcases h with rfl | rfl <;> cases fuel <;> simp [signed, signMarks, mark?, hawaited]
  -- each level asks the next one for its first operand, and the last one asks for a sign
  have hoperation : ∀ fuel level, operation fuel level (.mark text :: rest) = none := by
    intro fuel
    induction fuel with
    | zero => simp [operation]
    | succ fuel ih =>
        intro level
        simp only [operation, keyword?, ih, hsigned, Option.bind_eq_bind, Option.bind_none,
          ite_self]
  have hexpression : ∀ fuel, expression fuel (.mark text :: rest) = none := by
    intro fuel
    cases fuel <;> simp [expression, keyword?, hoperation]
  have hnamed : ∀ fuel, namedExpression fuel (.mark text :: rest) = none := by
    intro fuel
    cases fuel <;> simp [namedExpression, hexpression]
  rcases h with rfl | rfl <;> cases fuel <;> simp [starNamed, mark?, hnamed]

theorem choice_of_mark {text : String} (h : text = ":" ∨ text = "=") (fuel : Nat)
    (start rest : Tokens) : choice fuel start (.mark text :: rest) = none := by
  cases fuel <;> simp [choice, subjectHead, starNamed_of_mark h]

namespace Line

variable {line : Line} {fuel : Nat} {rest : Tokens}

theorem statement_of_opensLine {tokens : Tokens} (h : opensLine tokens = true) :
    Source.statement (fuel + 1) tokens = simpleLine fuel tokens := by
  unfold Source.statement
  split
  · cases h
  · cases h
  · cases h
  · cases h
  · rfl

/-- A name that a value or a type is given to begins no compound statement. -/
theorem statement_of_mark {word text : String} (htext : text = ":" ∨ text = "=") (tail : Tokens) :
    Source.statement (fuel + 1) (.name word :: .mark text :: tail) =
      simpleLine fuel (.name word :: .mark text :: tail) := by
  unfold Source.statement
  split
  next heq => cases heq
  next heq => cases heq
  next heq => cases heq
  next heq =>
    cases heq
    rw [choice_of_mark htext]
    rfl
  · rfl

theorem statement_line (h : line.Sound) (hfuel : 20 * line.tokens.length + 6 ≤ fuel) :
    Source.statement fuel (line.tokens ++ .newline :: rest) = some ([line.statement], rest) := by
  obtain ⟨less, rfl⟩ : ∃ less, fuel = less + 1 := ⟨fuel - 1, by omega⟩
  have hread : simpleLine less (line.tokens ++ .newline :: rest) = some ([line.statement], rest) :=
    simpleLine_line h (by omega)
  rw [← hread]
  cases line with
  | evaluate expr => exact statement_of_opensLine (opensLine_append _ h.2.2)
  | assign word value =>
      rw [tokens_assign h.1]
      exact statement_of_mark (.inr rfl) _
  | store word value =>
      rw [tokens_store, List.append_assoc]
      exact statement_of_opensLine (opensLine_append _ (opensLine_stored h.1))
  | declare word type value =>
      rw [tokens_declare h.1]
      exact statement_of_mark (.inl rfl) _
  | returns value =>
      rw [tokens_returns]
      simp [Source.statement]
  | imports relative path names renamed =>
      rw [tokens_imports h.2.2.2.2]
      simp [Source.statement]

end Line

end ModelMint.Source
