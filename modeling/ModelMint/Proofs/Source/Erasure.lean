import ModelMint.Proofs.Source.Trees

/-!
# Code without types

What is left of statements when the types of declarations and parameters are taken away,
and texts that only document.  Types are not evaluated and texts do nothing, so this is
what a module does when it is run.
-/

namespace ModelMint.Source

/-! ## Erasing -/

/-- A text that nothing is put into. -/
def Token.isPlainText : Token → Bool
  | .text kind _ => !kind.formatted
  | _ => false

/-- The tokens behind a type. -/
def behindType (tokens : Tokens) : Tokens :=
  match expression (20 * tokens.length) tokens with
  | some (_, rest) => rest
  | none => tokens

/-- Parameters without their types; the type of the result stays. -/
def untypedParameters : Nat → Tokens → Tokens
  | fuel + 1, .name word :: .mark ":" :: rest =>
    .name word :: untypedParameters fuel (behindType rest)
  | _, .mark "->" :: rest => .mark "->" :: rest
  | fuel + 1, token :: rest => token :: untypedParameters fuel rest
  | _, tokens => tokens

def untypedHead (head : Tokens) : Tokens :=
  match head with
  | .keyword "def" :: rest => .keyword "def" :: untypedParameters rest.length rest
  | other => other

mutual

def Statement.erased : Statement → List Statement
  | .simple tokens => if tokens.all Token.isPlainText then [] else [.simple tokens]
  | .annotated target _ value => [.annotated target [] value]
  | .compound clauses => [.compound (erasedClauses clauses)]

def erasedAll : List Statement → List Statement
  | [] => []
  | first :: rest => first.erased ++ erasedAll rest

def erasedClauses : List (Tokens × List Statement) → List (Tokens × List Statement)
  | [] => []
  | clause :: rest => erasedClause clause :: erasedClauses rest

def erasedClause : Tokens × List Statement → Tokens × List Statement
  | (head, body) => (untypedHead head, erasedAll body)

end

theorem erasedAll_append (first second : List Statement) :
    erasedAll (first ++ second) = erasedAll first ++ erasedAll second := by
  induction first with
  | nil => rfl
  | cons statement rest ih => simp [erasedAll, ih]

/-! ## Heads -/

theorem behindType_tokens {type : Expr} (h : type.Sound) (hsingle : type.isMember = false)
    {rest : Tokens} (hstops : stops rest = true) : behindType (type.tokens ++ rest) = rest := by
  unfold behindType
  rw [(Expr.readable h hsingle).reads (by simp) hstops]

/-- A function of a receiver and one parameter, without the type of the parameter. -/
theorem untypedHead_method {name word : List Char} {type result : Expr}
    (htype : type.Sound) (hsingle : type.isMember = false) :
    untypedHead (Head.method name (some ⟨false, word, type⟩) result).tokens =
      .keyword "def" :: .name (String.ofList name) :: .mark "(" :: (Expr.receiver.tokens ++
        .mark "," :: .name (String.ofList word) :: .mark ")" :: .mark "->" ::
          (result.tokens ++ [.mark ":"])) := by
  have hreceiver : Expr.receiver.tokens = [.name "self"] := by
    rw [Expr.receiver, Expr.tokens_name (by decide)]
  have hlength : ∃ fuel, (Head.method name (some ⟨false, word, type⟩) result).behind.length =
      fuel + 8 := by
    refine ⟨_, Nat.eq_add_of_sub_eq ?_ rfl⟩
    simp [Head.behind, Head.receiverTokens, Parameter.tokens, hreceiver]
    omega
  obtain ⟨fuel, hfuel⟩ := hlength
  have hbehind := behindType_tokens htype hsingle
    (show stops (.mark ")" :: .mark "->" :: (result.tokens ++ [.mark ":"])) = true from rfl)
  rw [Head.tokens, Head.word, untypedHead, hfuel]
  simp [Head.behind, Head.receiverTokens, Parameter.tokens, hreceiver, untypedParameters, hbehind]

/-! ## Trees -/

namespace Tree

/-- What the trees do. -/
def erasedOf (trees : List Tree) : List Statement := erasedAll (statementsOf trees)

variable {first second : List Tree}

@[simp] theorem erasedOf_nil : erasedOf [] = [] := rfl

@[simp] theorem erasedOf_append : erasedOf (first ++ second) = erasedOf first ++ erasedOf second := by
  rw [erasedOf, statementsOf_eq_flatMap, List.flatMap_append, erasedAll_append,
    ← statementsOf_eq_flatMap, ← statementsOf_eq_flatMap]
  rfl

theorem erasedOf_cons (tree : Tree) (rest : List Tree) :
    erasedOf (tree :: rest) = erasedOf [tree] ++ erasedOf rest :=
  @erasedOf_append [tree] rest

@[simp] theorem erasedOf_silent (text : List Char) : erasedOf [.silent text] = [] := rfl

@[simp] theorem erasedOf_code (line : Line) : erasedOf [.code line] = line.statement.erased := by
  simp [erasedOf, statementsOf, statements, erasedAll]

@[simp] theorem erasedOf_block (decorator : Option (List Char)) (head : Head) (body : List Tree) :
    erasedOf [.block decorator head body] =
      [.compound [(untypedHead (decoratorTokens decorator ++ head.tokens), erasedOf body)]] := by
  simp [erasedOf, statementsOf, statements, erasedAll, Statement.erased, erasedClauses,
    erasedClause]

theorem erasedOf_flatMap {α : Type} (items : List α) (trees : α → List Tree) :
    erasedOf (items.flatMap trees) = items.flatMap fun item => erasedOf (trees item) := by
  induction items with
  | nil => rfl
  | cons first rest ih => rw [List.flatMap_cons, erasedOf_append, ih, List.flatMap_cons]

theorem erasedOf_silents {α : Type} (items : List α) (text : α → List Char) :
    erasedOf (items.map fun item => .silent (text item)) = [] := by
  induction items with
  | nil => rfl
  | cons first rest ih => rw [List.map_cons, erasedOf_cons, ih, erasedOf_silent, List.append_nil]

end Tree

end ModelMint.Source
