import ModelMint.Proofs.Source.Lines

/-!
# Modules as trees

A module is written as a tree: lines, silent or of code, and blocks with a head and a
body of their own.  The rows of the tree are those of the text, the tokens of the text
are grouped as the tree is, and the reader finds the statements of the tree, unless a
line does not fit the bounds for brackets and digits.
-/

namespace ModelMint.Source

open Piece (tokensOf nestAll linked kindOf FoldsInside)

/-! ## Heads -/

/-- A parameter beside the receiver; one may take every named argument. -/
structure Parameter where
  every : Bool
  name : List Char
  annotation : Expr

inductive Head where
  | condition (test : Expr)
  | subclass (name base : List Char)
  /-- A function of a receiver. -/
  | method (name : List Char) (parameter : Option Parameter) (result : Expr)

namespace Parameter

def pieces (parameter : Parameter) : List Piece :=
  (if parameter.every then [.mark "**"] else []) ++
    .word parameter.name :: .mark ":" :: .blank :: parameter.annotation.pieces

def tokens (parameter : Parameter) : Tokens :=
  (if parameter.every then [.mark "**"] else []) ++
    .name (String.ofList parameter.name) :: .mark ":" :: parameter.annotation.tokens

structure Sound (parameter : Parameter) : Prop where
  name : Text.isPlainName parameter.name = true
  annotation : parameter.annotation.Sound
  plain : parameter.annotation.isMember = false

end Parameter

namespace Head

def receiverPieces : Option Parameter → List Piece
  | none => Expr.receiver.pieces
  | some parameter => Expr.receiver.pieces ++ .mark "," :: .blank :: parameter.pieces

def receiverTokens : Option Parameter → Tokens
  | none => Expr.receiver.tokens
  | some parameter => Expr.receiver.tokens ++ .mark "," :: parameter.tokens

def pieces : Head → List Piece
  | condition test => .word ['i', 'f'] :: .blank :: (test.pieces ++ [.mark ":"])
  | subclass name base => .word ['c', 'l', 'a', 's', 's'] :: .blank :: .word name ::
      ((.mark "(" :: ([.word base] ++ [.mark ")"])) ++ [.mark ":"])
  | method name parameter result => .word ['d', 'e', 'f'] :: .blank :: .word name ::
      ((.mark "(" :: (receiverPieces parameter ++ [.mark ")"])) ++
        .blank :: .mark "->" :: .blank :: (result.pieces ++ [.mark ":"]))

def word : Head → String
  | condition _ => "if"
  | subclass .. => "class"
  | method .. => "def"

/-- The tokens behind the word. -/
def behind : Head → Tokens
  | condition test => test.tokens ++ [.mark ":"]
  | subclass name base => [.name (String.ofList name), .mark "(", .name (String.ofList base),
      .mark ")", .mark ":"]
  | method name parameter result => .name (String.ofList name) :: .mark "(" ::
      (receiverTokens parameter ++ .mark ")" :: .mark "->" :: (result.tokens ++ [.mark ":"]))

def tokens (head : Head) : Tokens := .keyword head.word :: head.behind

def Sound : Head → Prop
  | condition test => test.Sound ∧ test.isMember = false
  | subclass name base => Text.isPlainName name = true ∧ Text.isPlainName base = true
  | method name parameter result => Text.isPlainName name = true ∧
      (∀ other ∈ parameter, other.Sound) ∧ result.Sound ∧ result.isMember = false

def fits (depth : Nat) : Head → Bool
  | condition test => test.fits depth
  | subclass .. => decide (depth < bracketLimit)
  | method _ parameter result => decide (depth < bracketLimit) &&
      parameter.all (fun other => other.annotation.fits (depth + 1)) && result.fits depth

theorem balanced_parameter {parameter : Parameter} (h : parameter.Sound) :
    Balanced (.mark ')') parameter.pieces fun depth => parameter.annotation.fits depth := by
  have hname := Expr.isIdentifier_of_isPlainName h.name
  have hdeclared : Balanced (.mark ')')
      (.word parameter.name :: .mark ":" :: .blank :: parameter.annotation.pieces)
        fun depth => parameter.annotation.fits depth :=
    .word hname rfl (.mark rfl rfl (fun _ => rfl)
      (.blank (.expr h.annotation (.inl rfl))))
  cases hevery : parameter.every with
  | false => simpa [Parameter.pieces, hevery] using hdeclared
  | true =>
      simpa [Parameter.pieces, hevery] using
        Balanced.mark rfl rfl (fun _ => rfl) hdeclared

theorem balanced_receiver {parameter : Option Parameter} (h : ∀ other ∈ parameter, other.Sound) :
    Balanced (.mark ')') (receiverPieces parameter)
      fun depth => parameter.all (fun other => other.annotation.fits depth) := by
  have hreceiver : ∀ {last}, last.closes = true →
      Balanced last Expr.receiver.pieces fun _ => true :=
    fun hlast => .expr Expr.sound_receiver (.inl hlast)
  cases parameter with
  | none => exact hreceiver rfl
  | some other =>
      exact (hreceiver rfl).append (.mark rfl rfl (fun _ => rfl)
        (.blank (balanced_parameter (h other rfl))))

theorem balanced_colon {pieces : List Piece} {fits : Nat → Bool}
    (h : Balanced (.mark ':') pieces fits) :
    Balanced .fold (pieces ++ [.mark ":"]) fits := by
  have hcolon : Balanced .fold [.mark ":"] fun _ => true :=
    .mark rfl rfl (fun _ => rfl) (.nil .fold)
  have hjoined : Balanced .fold (pieces ++ [.mark ":"]) fun depth => fits depth && true :=
    .append h hcolon
  simpa using hjoined

theorem balanced {head : Head} (h : head.Sound) :
    Balanced .fold head.pieces fun depth => head.fits depth := by
  cases head with
  | condition test =>
      exact Line.balanced_keyword (by decide) (balanced_colon (.expr h.1 (.inl rfl)))
  | subclass name base =>
      have hname := Expr.isIdentifier_of_isPlainName h.1
      have hbase := Expr.isIdentifier_of_isPlainName h.2
      have hbases := (Balanced.word hbase rfl (.nil (.mark ')'))).parenthesized (.mark ':')
      refine Line.balanced_keyword (by decide) (.word hname rfl ?_)
      simpa [fits] using balanced_colon hbases
  | method name parameter result =>
      obtain ⟨hname, hparameter, hresult, -⟩ := h
      have hname := Expr.isIdentifier_of_isPlainName hname
      have hbehind : Balanced .fold (.blank :: .mark "->" :: .blank :: (result.pieces ++ [.mark ":"]))
          fun depth => result.fits depth :=
        .blank (.mark rfl rfl (fun _ => rfl)
          (.blank (balanced_colon (.expr hresult (.inl rfl)))))
      refine Line.balanced_keyword (by decide) (.word hname rfl ?_)
      simpa [fits] using ((balanced_receiver hparameter).parenthesized _).append hbehind

theorem isCode {head : Head} (h : head.Sound) : IsCode head.pieces := by
  refine (balanced h).isCode ?_
  cases head <;> rfl

theorem tokensOf_receiverPieces {parameter : Option Parameter}
    (h : ∀ other ∈ parameter, other.Sound) :
    tokensOf (receiverPieces parameter) = receiverTokens parameter := by
  cases parameter with
  | none => rfl
  | some other =>
      have hname := wordToken_of_isPlainName (h other rfl).name
      cases hevery : other.every <;>
        simp [receiverPieces, receiverTokens, Parameter.pieces, Parameter.tokens, hevery,
          Piece.tokens, hname, Expr.tokens]

theorem tokensOf_pieces {head : Head} (h : head.Sound) : tokensOf head.pieces = head.tokens := by
  cases head with
  | condition test =>
      have hword : wordToken ['i', 'f'] = some (.keyword "if") := by decide
      simp [pieces, tokens, word, behind, Piece.tokens, hword, Expr.tokens]
  | subclass name base =>
      have hword : wordToken ['c', 'l', 'a', 's', 's'] = some (.keyword "class") := by decide
      simp [pieces, tokens, word, behind, Piece.tokens, hword, wordToken_of_isPlainName h.1,
        wordToken_of_isPlainName h.2]
  | method name parameter result =>
      have hword : wordToken ['d', 'e', 'f'] = some (.keyword "def") := by decide
      simp [pieces, tokens, word, behind, Piece.tokens, hword, wordToken_of_isPlainName h.1,
        tokensOf_receiverPieces h.2.1, Expr.tokens]

/-! ## Reading heads -/

variable {fuel : Nat} {rest : Tokens}

theorem conditionHead_condition {test : Expr} (h : (condition test).Sound)
    (hfuel : 20 * test.tokens.length + 1 ≤ fuel) :
    conditionHead fuel (test.tokens ++ .mark ":" :: rest) = some rest := by
  obtain ⟨less, rfl⟩ : ∃ less, fuel = less + 1 := ⟨fuel - 1, by omega⟩
  have hreadable := Expr.readable h.1 h.2
  have hread : expression less (test.tokens ++ .mark ":" :: rest) =
      some (test.form, .mark ":" :: rest) := hreadable.reads (by omega) rfl
  rw [conditionHead, namedExpression_of_unbound (hreadable.unbound _ rfl), hread]
  rfl

theorem classHead_subclass {name base : List Char} (h : (subclass name base).Sound)
    (hfuel : 24 ≤ fuel) :
    classHead fuel ((subclass name base).behind ++ rest) = some rest := by
  obtain ⟨less, rfl⟩ : ∃ less, fuel = less + 2 := ⟨fuel - 2, by omega⟩
  have hbase : (Expr.name base).Readable := Expr.readable h.2 rfl
  have hread := hbase.arguments (show 20 * (Expr.name base).tokens.length + 1 ≤ less + 1 by
    rw [Expr.tokens_name h.2, List.length_singleton]
    omega) (show Expr.isClose ")" = true from rfl) (.mark ":" :: rest) false true
  rw [Expr.tokens_name h.2, List.singleton_append] at hread
  simp [classHead, behind, anyName?, mark?, hread, argumentsRest]

theorem parameters_name {state : ParameterState} {name : String} {tokens : Tokens}
    (htype : annotation fuel true tokens = some rest) (hvalue : mark? "=" rest = none)
    (hstate : state.defaulted = false) :
    parameters (fuel + 1) true ")" state (.name name :: tokens) =
      parametersRest fuel true ")" { state with first := false, owed := false } rest := by
  rw [parameters]
  simp [htype, hvalue, hstate]

theorem annotation_none (h : mark? ":" rest = none) :
    annotation (fuel + 1) true rest = some rest := by
  simp [ annotation, h]

theorem annotation_some {expr : Expr} (h : expr.Readable) (hfuel : 20 * expr.tokens.length ≤ fuel)
    (hstops : stops rest = true) :
    annotation (fuel + 1) true (.mark ":" :: (expr.tokens ++ rest)) = some rest := by
  simp [ annotation, mark?, h.reads hfuel hstops]

theorem parameters_receiver {parameter : Option Parameter} (h : ∀ other ∈ parameter, other.Sound)
    (hfuel : 20 * (receiverTokens parameter).length + 5 ≤ fuel) :
    parameters fuel true ")" {} (receiverTokens parameter ++ .mark ")" :: rest) = some rest := by
  have hreceiver : Expr.receiver.tokens = [.name "self"] := by
    rw [Expr.receiver, Expr.tokens_name (by decide)]
  obtain ⟨less, rfl⟩ : ∃ less, fuel = less + 5 := ⟨fuel - 5, by omega⟩
  have hself : ∀ {mark tail}, mark ≠ "=" → mark ≠ ":" → parameters (less + 5) true ")" {}
      (.name "self" :: .mark mark :: tail) =
        parametersRest (less + 4) true ")" { first := false } (.mark mark :: tail) :=
    fun hvalue hcolon => parameters_name (annotation_none (Expr.mark?_other hcolon))
      (Expr.mark?_other hvalue) rfl
  cases parameter with
  | none =>
      rw [receiverTokens, hreceiver, List.singleton_append, hself (by decide) (by decide)]
      simp [parametersRest, mark?]
  | some other =>
      obtain ⟨-, hsound, hplain⟩ := h other rfl
      have hreadable := Expr.readable hsound hplain
      rw [receiverTokens, hreceiver] at hfuel ⊢
      simp only [List.length_append, List.length_cons, Parameter.tokens] at hfuel
      have htype : annotation (less + 2) true (.mark ":" :: ( other.annotation.tokens ++
          .mark ")" :: rest)) = some (.mark ")" :: rest) :=
        annotation_some hreadable (by omega) rfl
      rw [List.append_assoc, List.singleton_append, List.cons_append,
        hself (by decide) (by decide), parametersRest, Expr.mark?_self]
      simp only [Parameter.tokens]
      cases other.every with
      | false =>
          rw [if_neg (by decide), List.nil_append, List.cons_append, List.cons_append,
            parameters_name htype rfl rfl]
          simp [parametersRest, mark?]
      | true =>
          rw [if_pos rfl, List.singleton_append, List.cons_append, List.cons_append,
            List.cons_append, parameters]
          simp [htype, mark?]

theorem functionHead_method {name : List Char} {parameter : Option Parameter} {result : Expr}
    (h : (method name parameter result).Sound)
    (hfuel : 20 * (method name parameter result).behind.length ≤ fuel) :
    functionHead fuel ((method name parameter result).behind ++ rest) = some rest := by
  obtain ⟨-, hparameter, hresult, hplain⟩ := h
  simp only [behind, List.length_cons, List.length_append] at hfuel
  have hparameters : parameters fuel true ")" {} (receiverTokens parameter ++ .mark ")" ::
      .mark "->" :: (result.tokens ++ .mark ":" :: rest)) =
        some (.mark "->" :: (result.tokens ++ .mark ":" :: rest)) :=
    parameters_receiver hparameter (by omega)
  have hread : expression fuel (result.tokens ++ .mark ":" :: rest) =
      some (result.form, .mark ":" :: rest) := (Expr.readable hresult hplain).reads (by omega) rfl
  simp [functionHead, behind, anyName?, mark?, hparameters, hread]

end Head

/-! ## Trees -/

inductive Tree where
  | silent (text : List Char)
  | code (line : Line)
  | block (decorator : Option (List Char)) (head : Head) (body : List Tree)

namespace Tree

def decoratorRows (depth : Nat) : Option (List Char) → List Row
  | none => []
  | some name => [.code depth [.mark "@", .word name]]

def decoratorTokens : Option (List Char) → Tokens
  | none => []
  | some name => [.mark "@", .name (String.ofList name), .newline]

mutual

def rows (depth : Nat) : Tree → List Row
  | silent text => [.silent text]
  | code line => [.code depth line.pieces]
  | block decorator head body =>
    decoratorRows depth decorator ++ .code depth head.pieces :: rowsOf (depth + 1) body

def rowsOf (depth : Nat) : List Tree → List Row
  | [] => []
  | first :: rest => first.rows depth ++ rowsOf depth rest

end

mutual

def tokens : Tree → Tokens
  | silent _ => []
  | code line => line.tokens ++ [.newline]
  | block decorator head body => decoratorTokens decorator ++
      (head.tokens ++ .newline :: .indent :: (tokensOf body ++ [.dedent]))

def tokensOf : List Tree → Tokens
  | [] => []
  | first :: rest => first.tokens ++ tokensOf rest

end

mutual

def statements : Tree → List Statement
  | silent _ => []
  | code line => [line.statement]
  | block decorator head body =>
    [.compound [(decoratorTokens decorator ++ head.tokens, statementsOf body)]]

def statementsOf : List Tree → List Statement
  | [] => []
  | first :: rest => first.statements ++ statementsOf rest

end

mutual

/-- Whether all lines can be read within the bounds. -/
def fits : Tree → Bool
  | silent _ => true
  | code line => line.fits 0
  | block _ head body => head.fits 0 && fitAll body

def fitAll : List Tree → Bool
  | [] => true
  | first :: rest => first.fits && fitAll rest

end

mutual

def height : Tree → Nat
  | silent _ | code _ => 0
  | block _ _ body => heightOf body + 1

def heightOf : List Tree → Nat
  | [] => 0
  | first :: rest => max first.height (heightOf rest)

end

def isSilent : Tree → Bool
  | silent _ => true
  | _ => false

/-- A condition has no decorator. -/
def mayDecorate : Head → Bool
  | .condition _ => false
  | _ => true

mutual

def Sound : Tree → Prop
  | silent text => IsSilent text
  | code line => line.Sound
  | block decorator head body => head.Sound ∧
      (∀ name ∈ decorator, Text.isPlainName name = true ∧ mayDecorate head = true) ∧
      AreSound body ∧ body.all isSilent = false

def AreSound : List Tree → Prop
  | [] => True
  | first :: rest => first.Sound ∧ AreSound rest

end

def text (trees : List Tree) : List Char := Row.text (rowsOf 0 trees)

/-! ## Lists of trees -/

theorem areSound_iff {trees : List Tree} : AreSound trees ↔ ∀ tree ∈ trees, tree.Sound := by
  induction trees with
  | nil => simp [AreSound]
  | cons first rest ih => rw [AreSound, ih, List.forall_mem_cons]

theorem fitAll_eq_all (trees : List Tree) : fitAll trees = trees.all fits := by
  induction trees with
  | nil => rfl
  | cons first rest ih => rw [fitAll, ih, List.all_cons]

theorem heightOf_le_iff {trees : List Tree} {bound : Nat} :
    heightOf trees ≤ bound ↔ ∀ tree ∈ trees, tree.height ≤ bound := by
  induction trees with
  | nil => simp [heightOf]
  | cons first rest ih => rw [heightOf, Nat.max_le, ih, List.forall_mem_cons]

theorem statementsOf_eq_flatMap (trees : List Tree) :
    statementsOf trees = trees.flatMap statements := by
  induction trees with
  | nil => rfl
  | cons first rest ih => rw [statementsOf, ih, List.flatMap_cons]

/-! ## Rows -/

variable {depth : Nat}

theorem sound_decoratorRows {decorator : Option (List Char)} (hdepth : depth ≤ indentLimit)
    (h : ∀ name ∈ decorator, Text.isPlainName name = true) :
    ∀ row ∈ decoratorRows depth decorator, row.Sound := by
  cases decorator with
  | none => simp [decoratorRows]
  | some name =>
      have hname := Expr.isIdentifier_of_isPlainName (h name rfl)
      have hpieces : Balanced .fold [.mark "@", .word name] fun _ => true :=
        .mark rfl rfl (fun _ => rfl) (.word hname rfl (.nil .fold))
      rw [decoratorRows, List.forall_mem_singleton]
      exact ⟨hdepth, hpieces.isCode rfl⟩

mutual

theorem sound_rows : ∀ {tree : Tree} {depth : Nat}, tree.Sound → tree.height + depth ≤ indentLimit →
    ∀ row ∈ tree.rows depth, row.Sound
  | silent text, depth, h, _ => by
      rw [rows, List.forall_mem_singleton]
      exact h
  | code line, depth, h, hheight => by
      rw [height, Nat.zero_add] at hheight
      rw [rows, List.forall_mem_singleton]
      exact ⟨hheight, Line.isCode h⟩
  | block decorator head body, depth, h, hheight => by
      rw [height] at hheight
      rw [rows, List.forall_mem_append, List.forall_mem_cons]
      exact ⟨sound_decoratorRows (by omega) fun name hname => (h.2.1 name hname).1,
        ⟨by omega, Head.isCode h.1⟩, sound_rowsOf h.2.2.1 (by omega)⟩

theorem sound_rowsOf : ∀ {trees : List Tree} {depth : Nat}, AreSound trees →
    heightOf trees + depth ≤ indentLimit → ∀ row ∈ rowsOf depth trees, row.Sound
  | [], _, _, _ => by simp [rowsOf]
  | first :: rest, depth, h, hheight => by
      rw [heightOf] at hheight
      rw [rowsOf, List.forall_mem_append]
      exact ⟨sound_rows h.1 (by omega), sound_rowsOf h.2 (by omega)⟩

end

mutual

/-- A row of a tree is indented against the row before by at most one step, whatever that was, as
long as it stands no more than one step further out. -/
theorem steps_rows : ∀ {tree : Tree} {depth : Nat} {rest : List Row},
    (∀ before, depth ≤ before + 1 → Row.Steps before rest) →
      ∀ before, depth ≤ before + 1 → Row.Steps before (tree.rows depth ++ rest)
  | silent text, depth, rest, h, before, hbefore => h before hbefore
  | code line, depth, rest, h, before, hbefore => ⟨hbefore, h depth (Nat.le_succ depth)⟩
  | block decorator head body, depth, rest, h, before, hbefore => by
      have hbody : Row.Steps depth (rowsOf (depth + 1) body ++ rest) :=
        steps_rowsOf (fun after hafter => h after (by omega)) depth (Nat.le_refl _)
      rw [rows, List.append_assoc]
      cases decorator with
      | none => exact ⟨hbefore, hbody⟩
      | some name => exact ⟨hbefore, Nat.le_succ depth, hbody⟩

theorem steps_rowsOf : ∀ {trees : List Tree} {depth : Nat} {rest : List Row},
    (∀ before, depth ≤ before + 1 → Row.Steps before rest) →
      ∀ before, depth ≤ before + 1 → Row.Steps before (rowsOf depth trees ++ rest)
  | [], _, _, h, before, hbefore => h before hbefore
  | first :: others, depth, rest, h, before, hbefore => by
      rw [rowsOf, List.append_assoc]
      exact steps_rows (steps_rowsOf h) before hbefore

end

mutual

theorem all_fits_rows : ∀ {tree : Tree} (depth : Nat), tree.Sound →
    (tree.rows depth).all Row.fits = tree.fits
  | silent _, _, _ => rfl
  | code line, depth, h => by
      rw [rows, List.all_cons, List.all_nil, Bool.and_true, Row.fits, fits,
        (Line.balanced h).isSome_nestAll]
  | block decorator head body, depth, h => by
      have hdecorator : (decoratorRows depth decorator).all Row.fits = true := by
        cases decorator <;> rfl
      rw [rows, List.all_append, hdecorator, Bool.true_and, List.all_cons, Row.fits,
        (Head.balanced h.1).isSome_nestAll, all_fits_rowsOf _ h.2.2.1, fits]

theorem all_fits_rowsOf : ∀ {trees : List Tree} (depth : Nat), AreSound trees →
    (rowsOf depth trees).all Row.fits = fitAll trees
  | [], _, _ => rfl
  | first :: rest, depth, h => by
      rw [rowsOf, List.all_append, all_fits_rows depth h.1, all_fits_rowsOf depth h.2, fitAll]

end

/-! ## Tokens -/

/-- The depth of the first row of code. -/
def firstDepth : List Row → Option Nat
  | [] => none
  | .silent _ :: rest => firstDepth rest
  | .code depth _ :: _ => some depth

/-- A row further in opens an indentation. -/
theorem tokensFrom_enter {rows : List Row} (h : firstDepth rows = some (depth + 1)) :
    Row.tokensFrom depth rows = .indent :: Row.tokensFrom (depth + 1) rows := by
  induction rows with
  | nil => cases h
  | cons row rest ih =>
      cases row with
      | silent text => exact ih h
      | code next pieces =>
          obtain rfl : next = depth + 1 := Option.some.inj h
          simp [Row.tokensFrom, Row.changeTokens]

/-- A row further out, or the end of the text, closes it. -/
theorem tokensFrom_leave {rows : List Row} (h : ∀ next ∈ firstDepth rows, next ≤ depth) :
    Row.tokensFrom (depth + 1) rows = .dedent :: Row.tokensFrom depth rows := by
  induction rows with
  | nil => rfl
  | cons row rest ih =>
      cases row with
      | silent text => exact ih h
      | code next pieces =>
          have hnext : next ≤ depth := h next rfl
          have hclosed : depth + 1 - next = depth - next + 1 := by omega
          simp only [Row.tokensFrom, Row.changeTokens, if_neg (show ¬ depth + 1 < next by omega),
            if_neg (show ¬ depth < next by omega), hclosed, List.replicate_succ, List.cons_append]

theorem tokensFrom_code (depth : Nat) (pieces : List Piece) (rows : List Row) :
    Row.tokensFrom depth (.code depth pieces :: rows) =
      Piece.tokensOf pieces ++ .newline :: Row.tokensFrom depth rows := by
  simp [Row.tokensFrom, Row.changeTokens]

theorem tokensFrom_decoratorRows {decorator : Option (List Char)} (rows : List Row)
    (h : ∀ name ∈ decorator, Text.isPlainName name = true) :
    Row.tokensFrom depth (decoratorRows depth decorator ++ rows) =
      decoratorTokens decorator ++ Row.tokensFrom depth rows := by
  cases decorator with
  | none => rfl
  | some name =>
      rw [decoratorRows, List.singleton_append, tokensFrom_code]
      simp [Piece.tokens, wordToken_of_isPlainName (h name rfl), decoratorTokens]

theorem firstDepth_rows (tree : Tree) (depth : Nat) (rest : List Row) :
    firstDepth (tree.rows depth ++ rest) = if tree.isSilent then firstDepth rest else some depth := by
  cases tree with
  | silent text => rfl
  | code line => rfl
  | block decorator head body => cases decorator <;> rfl

theorem firstDepth_rowsOf (trees : List Tree) (depth : Nat) (rest : List Row) :
    firstDepth (rowsOf depth trees ++ rest) =
      if trees.all isSilent then firstDepth rest else some depth := by
  induction trees with
  | nil => rfl
  | cons first others ih =>
      rw [rowsOf, List.append_assoc, firstDepth_rows, ih, List.all_cons]
      cases first.isSilent <;> rfl

mutual

theorem tokensFrom_rows : ∀ {tree : Tree} {depth : Nat} {rest : List Row}, tree.Sound →
    (∀ next ∈ firstDepth rest, next ≤ depth) →
      Row.tokensFrom depth (tree.rows depth ++ rest) = tree.tokens ++ Row.tokensFrom depth rest
  | silent _, _, _, _, _ => rfl
  | code line, depth, rest, _, _ => by
      rw [rows, List.singleton_append, tokensFrom_code, tokens, List.append_assoc]
      rfl
  | block decorator head body, depth, rest, h, hrest => by
      obtain ⟨hhead, hdecorator, hbody, hcode⟩ := h
      have hfirst : firstDepth (rowsOf (depth + 1) body ++ rest) = some (depth + 1) := by
        rw [firstDepth_rowsOf, hcode]
        rfl
      rw [rows, List.append_assoc, List.cons_append,
        tokensFrom_decoratorRows _ fun name hname => (hdecorator name hname).1, tokensFrom_code,
        tokensFrom_enter hfirst,
        tokensFrom_rowsOf hbody fun next hnext => Nat.le_succ_of_le (hrest next hnext),
        tokensFrom_leave hrest, Head.tokensOf_pieces hhead, tokens]
      simp only [List.append_assoc, List.cons_append, List.nil_append]

theorem tokensFrom_rowsOf : ∀ {trees : List Tree} {depth : Nat} {rest : List Row},
    AreSound trees → (∀ next ∈ firstDepth rest, next ≤ depth) →
      Row.tokensFrom depth (rowsOf depth trees ++ rest) =
        tokensOf trees ++ Row.tokensFrom depth rest
  | [], _, _, _, _ => rfl
  | first :: others, depth, rest, h, hrest => by
      have hothers : ∀ next ∈ firstDepth (rowsOf depth others ++ rest), next ≤ depth := by
        intro next hnext
        rw [firstDepth_rowsOf] at hnext
        split at hnext
        · exact hrest next hnext
        · cases hnext
          exact Nat.le_refl depth
      rw [rowsOf, List.append_assoc, tokensFrom_rows h.1 hothers, tokensFrom_rowsOf h.2 hrest,
        tokensOf, List.append_assoc]

end

/-! ## Reading trees -/

/-- Tokens that begin a statement, and no other branch of the one before. -/
def starts : Tokens → Bool
  | .name _ :: _ | .number _ :: _ | .text .. :: _ | .mark _ :: _ => true
  | .keyword word :: _ => word != "elif" && word != "else"
  | _ => false

/-- The end of a block, or of the text. -/
def ends : Tokens → Bool
  | [] | .dedent :: _ => true
  | _ => false

theorem starts_of_begins {tokens : Tokens} (h : begins tokens = true) : starts tokens = true := by
  unfold begins at h
  split at h
  · rfl
  · rfl
  · rfl
  next word rest =>
    have hall : ∀ word ∈ ["True", "False", "None"], (word != "elif" && word != "else") = true := by
      decide
    exact hall word (List.contains_iff_mem.mp h)
  · rfl
  · cases h

theorem starts_line {line : Line} (h : line.Sound) (more : Tokens) :
    starts (line.tokens ++ more) = true := by
  cases line with
  | evaluate expr => exact starts_of_begins (Expr.begins_tokens more h.1)
  | assign word value =>
      rw [Line.tokens_assign h.1]
      rfl
  | store word value =>
      rw [Line.tokens_store, List.append_assoc]
      exact starts_of_begins (Expr.begins_tokens _ (Expr.sound_stored h.1))
  | declare word type value =>
      rw [Line.tokens_declare h.1]
      rfl
  | returns value =>
      rw [Line.tokens_returns]
      rfl
  | imports relative path names renamed =>
      rw [Line.tokens_imports h.2.2.2.2]
      rfl

theorem starts_tokens {tree : Tree} (h : tree.Sound) (hsilent : tree.isSilent = false)
    (more : Tokens) : starts (tree.tokens ++ more) = true := by
  cases tree with
  | silent text => cases hsilent
  | code line =>
      rw [tokens, List.append_assoc]
      exact starts_line h _
  | block decorator head body =>
      cases decorator with
      | none => cases head <;> rfl
      | some name => rfl

theorem length_tokens_pos {tree : Tree} (h : tree.Sound) (hsilent : tree.isSilent = false) :
    0 < tree.tokens.length := by
  have hstarts := starts_tokens h hsilent []
  rw [List.append_nil] at hstarts
  rw [List.length_pos_iff]
  intro hnil
  rw [hnil] at hstarts
  cases hstarts

theorem follows_tokensOf : ∀ {trees : List Tree} {rest : Tokens}, AreSound trees →
    ends rest = true → ends (tokensOf trees ++ rest) = true ∨ starts (tokensOf trees ++ rest) = true
  | [], _, _, hrest => .inl hrest
  | silent _ :: _, _, h, hrest => by
      have hothers := follows_tokensOf h.2 hrest
      exact hothers
  | code _ :: _, _, h, _ | block .. :: _, _, h, _ => by
      rw [tokensOf, List.append_assoc]
      exact .inr (starts_tokens h.1 rfl _)

theorem keyword?_of_follows {word : String} {tokens : Tokens} (hword : word = "elif" ∨ word = "else")
    (h : ends tokens = true ∨ starts tokens = true) : keyword? word tokens = none := by
  refine keyword?_eq_none ?_
  rintro tail rfl
  rcases hword with rfl | rfl <;> rcases h with h | h <;> cases h

section Reading

variable {fuel : Nat} {more : Tokens} {inner : List Statement} {head : Head}

theorem compound_head {start body : Tokens} (h : head.Sound)
    (hfuel : 20 * head.behind.length + 24 ≤ fuel)
    (hbody : Source.block fuel body = some (inner, more))
    (hmore : ends more = true ∨ starts more = true) :
    compound (fuel + 1) start head.word (head.behind ++ body) =
      some ([.compound [(between start body, inner)]], more) := by
  cases head with
  | condition test =>
      have hlength : (Head.condition test).behind.length = test.tokens.length + 1 := by
        simp [Head.behind]
      obtain ⟨less, rfl⟩ : ∃ less, fuel = less + 2 := ⟨fuel - 2, by omega⟩
      have hread : conditionHead (less + 2) (test.tokens ++ .mark ":" :: body) = some body :=
        Head.conditionHead_condition h (by omega)
      simp [compound, Head.word, Head.behind, hread, hbody, branches, finally?,
        keyword?_of_follows (.inl rfl) hmore, keyword?_of_follows (.inr rfl) hmore]
  | subclass name base =>
      have hread : classHead fuel ((Head.subclass name base).behind ++ body) = some body :=
        Head.classHead_subclass h (by omega)
      simp [compound, Head.word, hread, hbody]
  | method name parameter result =>
      have hread : functionHead fuel ((Head.method name parameter result).behind ++ body) =
          some body := Head.functionHead_method h (by omega)
      simp [compound, Head.word, hread, hbody]

theorem decorators_name {name : List Char} (hname : Text.isPlainName name = true)
    (hfuel : 24 ≤ fuel) (word : String) (rest : Tokens) :
    decorators fuel (decoratorTokens (some name) ++ .keyword word :: rest) =
      some (.keyword word :: rest) := by
  obtain ⟨less, rfl⟩ : ∃ less, fuel = less + 2 := ⟨fuel - 2, by omega⟩
  have hreadable : (Expr.name name).Readable := Expr.readable hname rfl
  have hread : expression less ((Expr.name name).tokens ++ .newline :: .keyword word :: rest) =
      some (.name, .newline :: .keyword word :: rest) := hreadable.reads (by
    rw [Expr.tokens_name hname, List.length_singleton]
    omega) rfl
  rw [Expr.tokens_name hname] at hread
  simp only [decoratorTokens, List.cons_append, List.nil_append] at hread ⊢
  simp [decorators, mark?, namedExpression, hread]

/-- A decorator and a head lead to the head's word. -/
theorem statement_block {decorator : Option (List Char)} {body : Tokens} (h : head.Sound)
    (hdecorator : ∀ name ∈ decorator, Text.isPlainName name = true ∧ mayDecorate head = true)
    (hfuel : 24 ≤ fuel) : statement (fuel + 1) (decoratorTokens decorator ++ (head.tokens ++ body)) =
      compound fuel (decoratorTokens decorator ++ (head.tokens ++ body)) head.word
        (head.behind ++ body) := by
  cases decorator with
  | none => cases head <;> simp [statement, decoratorTokens, Head.tokens, Head.word]
  | some name =>
      obtain ⟨hname, hmay⟩ := hdecorator name rfl
      have hread := decorators_name hname hfuel head.word (head.behind ++ body)
      rw [Head.tokens, List.cons_append]
      generalize hall : decoratorTokens (some name) ++ .keyword head.word :: (head.behind ++ body) =
        tokens at hread ⊢
      have hmark : ∃ tail, tokens = .mark "@" :: tail := ⟨_, hall.symm⟩
      obtain ⟨tail, rfl⟩ := hmark
      cases head with
      | condition test => cases hmay
      | subclass name base => simp [statement, hread, Head.word]
      | method name parameter result => simp [statement, hread, Head.word]

end Reading

mutual

theorem statement_tree : ∀ {tree : Tree} {fuel : Nat} {more : Tokens}, tree.Sound →
    tree.isSilent = false → (ends more = true ∨ starts more = true) →
      20 * tree.tokens.length ≤ fuel →
        statement fuel (tree.tokens ++ more) = some (tree.statements, more)
  | silent text, _, _, _, hsilent, _, _ => by cases hsilent
  | code line, fuel, more, h, _, _, hfuel => by
      rw [tokens, List.length_append, List.length_singleton] at hfuel
      rw [tokens, List.append_assoc]
      exact Line.statement_line h (by omega)
  | block decorator head body, fuel, more, h, _, hmore, hfuel => by
      obtain ⟨hhead, hdecorator, hbody, -⟩ := h
      rw [tokens, Head.tokens] at hfuel
      simp only [List.length_append, List.length_cons, List.length_nil] at hfuel
      obtain ⟨less, rfl⟩ : ∃ less, fuel = less + 3 := ⟨fuel - 3, by omega⟩
      have hread : Source.statements less (tokensOf body ++ .dedent :: more) =
          some (statementsOf body, .dedent :: more) := statements_trees hbody rfl (by omega)
      have hblock : Source.block (less + 1) (.newline :: .indent :: (tokensOf body ++
          .dedent :: more)) = some (statementsOf body, more) := by
        simp [Source.block, hread]
      have hcompound : ∀ start, compound (less + 2) start head.word (head.behind ++
          .newline :: .indent :: (tokensOf body ++ .dedent :: more)) =
            some ([.compound [(between start (.newline :: .indent :: (tokensOf body ++
              .dedent :: more)), statementsOf body)]], more) :=
        fun start => compound_head hhead (by omega) hblock hmore
      have htokens : (block decorator head body).tokens ++ more = decoratorTokens decorator ++
          (head.tokens ++ .newline :: .indent :: (tokensOf body ++ .dedent :: more)) := by
        simp [tokens]
      rw [htokens, statement_block hhead hdecorator (by omega), hcompound, ← List.append_assoc,
        between_append]
      rfl

theorem statements_trees : ∀ {trees : List Tree} {fuel : Nat} {rest : Tokens}, AreSound trees →
    ends rest = true → 20 * (tokensOf trees).length + 1 ≤ fuel →
      Source.statements fuel (tokensOf trees ++ rest) = some (statementsOf trees, rest)
  | [], fuel, rest, _, hrest, hfuel => by
      obtain ⟨less, rfl⟩ : ∃ less, fuel = less + 1 := ⟨fuel - 1, by omega⟩
      rw [tokensOf, List.nil_append, Source.statements.eq_def]
      unfold ends at hrest
      split at hrest
      · rfl
      · rfl
      · cases hrest
  | first :: others, fuel, rest, h, hrest, hfuel => by
      rw [tokensOf, List.length_append] at hfuel
      cases hsilent : first.isSilent with
      | true =>
          have hothers := statements_trees h.2 hrest (show _ ≤ fuel by omega)
          cases first with
          | silent text => exact hothers
          | _ => cases hsilent
      | false =>
          obtain ⟨less, rfl⟩ : ∃ less, fuel = less + 1 := ⟨fuel - 1, by omega⟩
          have hstarts := starts_tokens h.1 hsilent (tokensOf others ++ rest)
          have hfirst := statement_tree h.1 hsilent (follows_tokensOf h.2 hrest)
            (show _ ≤ less by omega)
          have hpositive := length_tokens_pos h.1 hsilent
          have hothers := statements_trees h.2 hrest (show _ ≤ less by omega)
          rw [tokensOf, List.append_assoc]
          generalize first.tokens ++ (tokensOf others ++ rest) = behind at hstarts hfirst ⊢
          unfold Source.statements
          split
          · cases hstarts
          · cases hstarts
          · simp only [hfirst, hothers, Option.bind_eq_bind, Option.bind_some, statementsOf]

end

/-! ## Modules -/

theorem readModule_text {trees : List Tree} (h : AreSound trees)
    (hheight : heightOf trees ≤ indentLimit) (hrows : rowsOf 0 trees ≠ []) :
    readModule (text trees) = if fitAll trees then some (statementsOf trees) else none := by
  have hsound := sound_rowsOf h (show heightOf trees + 0 ≤ indentLimit from hheight)
  have hsteps : Row.Steps 0 (rowsOf 0 trees) := by
    have hnil : Row.Steps 0 (rowsOf 0 trees ++ []) :=
      steps_rowsOf (show ∀ before, 0 ≤ before + 1 → Row.Steps before [] from fun _ _ => trivial) 0
        (Nat.zero_le 1)
    rwa [List.append_nil] at hnil
  have htokens : Row.tokensFrom 0 (rowsOf 0 trees) = tokensOf trees := by
    have hnil : Row.tokensFrom 0 (rowsOf 0 trees ++ []) = tokensOf trees ++ Row.tokensFrom 0 [] :=
      tokensFrom_rowsOf h fun next hnext => by cases hnext
    rwa [List.append_nil, Row.tokensFrom, List.replicate_zero, List.append_nil] at hnil
  have hcount := Row.length_tokensFrom hsound hsteps
  rw [htokens, Nat.zero_add] at hcount
  have hread : Source.statements (descent * ((text trees).length + 2)) (tokensOf trees ++ []) =
      some (statementsOf trees, []) :=
    statements_trees h rfl (by
      rw [descent, text]
      omega)
  rw [List.append_nil] at hread
  have hscan := Row.scan_text hsound hsteps hrows
  rw [all_fits_rowsOf 0 h, htokens] at hscan
  rw [readModule, text, hscan]
  cases fitAll trees with
  | false => rfl
  | true =>
      change (Source.statements (descent * ((text trees).length + 2)) (tokensOf trees)).bind _ = _
      rw [hread]
      rfl

end Tree

end ModelMint.Source
