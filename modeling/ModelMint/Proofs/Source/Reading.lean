import ModelMint.Proofs.Source.Written
import ModelMint.Source.Expression

/-!
# Reading written expressions

Every written expression is read to its end, where what stands behind it does not go on
with it.  The bound of the reader is twenty for each token: no level of the grammar lies
deeper below the next one.
-/

namespace ModelMint.Source

/-! ## First tokens -/

/-- Tokens that begin an expression. -/
def begins : Tokens → Bool
  | .name _ :: _ | .number _ :: _ | .text .. :: _ => true
  | .keyword word :: _ => ["True", "False", "None"].contains word
  | .mark text :: _ => ["[", "\x7b", "-"].contains text
  | _ => false

/-- Tokens that give a value to the name before them. -/
def binds : Tokens → Bool
  | .mark "=" :: _ | .mark ":=" :: _ => true
  | _ => false

def unbound : Tokens → Bool
  | .name _ :: rest => !binds rest
  | _ => true

/-- What may stand behind an expression. -/
def stops : Tokens → Bool
  | [] | .newline :: _ => true
  | .mark text :: _ => [",", ")", "]", "\x7d", ":", "="].contains text
  | _ => false

/-- The same, or another member of a union. -/
def parts : Tokens → Bool
  | .mark "|" :: _ => true
  | rest => stops rest

section First

variable {tokens rest : Tokens} {fuel : Nat}

theorem keyword?_eq_none {word : String} (h : ∀ tail, tokens ≠ .keyword word :: tail) :
    keyword? word tokens = none := by
  unfold keyword?
  split
  next other tail =>
    have hother : other ≠ word := fun hsame => h tail (by rw [hsame])
    simp [hother]
  · rfl

theorem mark?_eq_none {text : String} (h : ∀ tail, tokens ≠ .mark text :: tail) :
    mark? text tokens = none := by
  unfold mark?
  split
  next other tail =>
    have hother : other ≠ text := fun hsame => h tail (by rw [hsame])
    simp [hother]
  · rfl

theorem keyword?_of_begins {word : String} (h : begins tokens = true)
    (hword : ["True", "False", "None"].contains word = false) : keyword? word tokens = none := by
  refine keyword?_eq_none ?_
  rintro tail rfl
  rw [begins, hword] at h
  cases h

theorem mark?_of_begins {text : String} (h : begins tokens = true)
    (htext : ["[", "\x7b", "-"].contains text = false) : mark? text tokens = none := by
  refine mark?_eq_none ?_
  rintro tail rfl
  rw [begins, htext] at h
  cases h

theorem mark?_of_stops {text : String} (h : stops rest = true)
    (htext : [",", ")", "]", "\x7d", ":", "="].contains text = false) : mark? text rest = none := by
  refine mark?_eq_none ?_
  rintro tail rfl
  rw [stops, htext] at h
  cases h

theorem keyword?_of_stops {word : String} (h : stops rest = true) : keyword? word rest = none := by
  refine keyword?_eq_none ?_
  rintro tail rfl
  cases h

theorem stops_cases (h : parts rest = true) :
    (∃ tail, rest = .mark "|" :: tail) ∨ stops rest = true := by
  unfold parts at h
  split at h
  next tail => exact .inl ⟨tail, rfl⟩
  · exact .inr h

theorem parts_of_stops (h : stops rest = true) : parts rest = true := by
  unfold parts
  split
  · rfl
  · exact h

/-! ## Operators -/

theorem levelMarks_differ (level : Nat) : ∀ mark ∈ levelMarks level,
    [",", ")", "]", "\x7d", ":", "="].contains mark = false := by
  unfold levelMarks
  split <;> decide

theorem operator?_mark (level : Nat) (text : String) : operator? level (.mark text :: rest) =
    if (levelMarks level).contains text then some rest else none := by
  unfold operator?
  split <;> simp_all

theorem operator?_of_stops {level : Nat} (h : stops rest = true) : operator? level rest = none := by
  unfold stops at h
  split at h
  · unfold operator?
    split <;> simp_all
  · unfold operator?
    split <;> simp_all
  next text tail =>
    rw [operator?_mark, if_neg]
    intro hmem
    have hdiffers := levelMarks_differ level text (List.contains_iff_mem.mp hmem)
    rw [hdiffers] at h
    cases h
  · cases h

theorem operator?_of_parts {level : Nat} (h : parts rest = true) (hlevel : 5 ≤ level) :
    operator? level rest = none := by
  rcases stops_cases h with ⟨tail, rfl⟩ | hstops
  · have hmarks : (levelMarks level).contains "|" = false := by
      unfold levelMarks
      split <;> first | rfl | omega
    rw [operator?_mark, hmarks]
    rfl
  · exact operator?_of_stops hstops

/-- Behind an expression no point and no bracket goes on with it. -/
theorem primaryRest_of_parts {form : Form} (h : parts rest = true) :
    primaryRest (fuel + 1) form rest = some (form, rest) := by
  unfold primaryRest
  split
  · cases h
  · cases h
  · cases h
  · rfl

theorem textRun_of_parts (h : parts rest = true) : textRun rest = ([], rest) := by
  unfold textRun
  split
  · cases h
  · rfl

theorem namedExpression_of_unbound (h : unbound tokens = true) :
    namedExpression (fuel + 1) tokens = expression fuel tokens := by
  unfold namedExpression
  split
  · cases h
  · rfl

theorem starNamed_of_begins (h : begins tokens = true) :
    starNamed (fuel + 1) tokens = namedExpression fuel tokens := by
  rw [starNamed, mark?_of_begins h rfl]

end First

/-! ## Tokens of expressions -/

theorem wordToken_of_isPlainName {word : List Char} (h : Text.isPlainName word = true) :
    wordToken word = some (.name (String.ofList word)) := by
  obtain ⟨hidentifier, hplain⟩ := Bool.and_eq_true_iff.mp h
  rw [Bool.not_eq_true'] at hplain
  simp [wordToken, hidentifier, hplain]

namespace Expr

open Piece (tokensOf)

mutual

def form : Expr → Form
  | name _ => .name
  | attr .. => .attr
  | item .. => .item
  | list _ items => .list (forms items)
  | _ => .other

def forms : List Expr → List Form
  | [] => []
  | first :: rest => first.form :: forms rest

end

/-- Items with commas between them, perhaps with one behind the last. -/
def listed (trailing : Bool) : List Expr → Tokens
  | [] => []
  | [last] => last.tokens ++ if trailing then [.mark ","] else []
  | first :: second :: rest => first.tokens ++ .mark "," :: listed trailing (second :: rest)

theorem tokensOf_rowRest (first : Expr) (rest : List Expr) :
    tokensOf (first.pieces ++ rowRest rest) = listed false (first :: rest) := by
  induction rest generalizing first with
  | nil => simp [rowRest, listed, tokens]
  | cons second rest ih =>
      rw [Piece.tokensOf_append, rowRest, Piece.tokensOf_cons, Piece.tokensOf_cons, ih, listed]
      rfl

theorem tokensOf_row (items : List Expr) : tokensOf (row items) = listed false items := by
  cases items with
  | nil => rfl
  | cons first rest => exact tokensOf_rowRest first rest

theorem tokensOf_rows (width last : Nat) (items : List Expr) :
    tokensOf (rows width items ++ [.fold last]) = listed true items := by
  induction items with
  | nil => rfl
  | cons first rest ih =>
      rw [rows, List.cons_append, List.append_assoc, Piece.tokensOf_cons, Piece.tokensOf_append,
        List.cons_append, Piece.tokensOf_cons, ih]
      cases rest <;> rfl

section Tokens

variable {owner left right value : Expr} {word key : List Char} {items : List Expr}

theorem tokens_name (h : Text.isPlainName word = true) :
    (name word).tokens = [.name (String.ofList word)] := by
  simp [tokens, pieces, Piece.tokens, wordToken_of_isPlainName h]

theorem tokens_attr (h : Text.isPlainName word = true) :
    (attr owner word).tokens = owner.tokens ++ [.mark ".", .name (String.ofList word)] := by
  simp [tokens, pieces, Piece.tokens, wordToken_of_isPlainName h]

theorem tokens_call : (call owner items).tokens =
    owner.tokens ++ .mark "(" :: (listed false items ++ [.mark ")"]) := by
  simp [tokens, pieces, Piece.tokens, tokensOf_row]

theorem tokens_spread (h : Text.isPlainName word = true) : (spread owner word).tokens =
    owner.tokens ++ [.mark "(", .mark "**", .name (String.ofList word), .mark ")"] := by
  simp [tokens, pieces, Piece.tokens, wordToken_of_isPlainName h]

theorem tokens_item : (item owner items).tokens =
    owner.tokens ++ .mark "[" :: (listed false items ++ [.mark "]"]) := by
  simp [tokens, pieces, Piece.tokens, tokensOf_row]

theorem tokens_list (layout : Option Nat) : (list layout items).tokens =
    .mark "[" :: (listed layout.isSome items ++ [.mark "]"]) := by
  cases layout with
  | none => simp [tokens, pieces, Piece.tokens, tokensOf_row]
  | some width =>
      rw [tokens, pieces, Piece.tokensOf_cons, Piece.tokensOf_append, tokensOf_rows]
      rfl

theorem tokens_dict (layout : Option Nat) : (dict layout items).tokens =
    .mark "\x7b" :: (listed layout.isSome items ++ [.mark "\x7d"]) := by
  cases layout with
  | none => simp [tokens, pieces, Piece.tokens, tokensOf_row]
  | some width =>
      rw [tokens, pieces, Piece.tokensOf_cons, Piece.tokensOf_append, tokensOf_rows]
      rfl

theorem tokens_member :
    (member key value).tokens = .text {} key :: .mark ":" :: value.tokens := by
  simp [tokens, pieces, Piece.tokens]

theorem tokens_union :
    (union left right).tokens = left.tokens ++ .mark "|" :: right.tokens := by
  simp [tokens, pieces, Piece.tokens]

end Tokens

/-! ## Lists of readable expressions -/

/-- An expression that is read to its end. -/
structure Readable (expr : Expr) : Prop where
  begins : ∀ rest, begins (expr.tokens ++ rest) = true
  unbound : ∀ rest, binds rest = false → unbound (expr.tokens ++ rest) = true
  reads : ∀ {fuel : Nat} {rest : Tokens}, 20 * expr.tokens.length ≤ fuel → stops rest = true →
    expression fuel (expr.tokens ++ rest) = some (expr.form, rest)

section Lists

variable {expr : Expr} {exprs : List Expr} {fuel : Nat} {rest tokens : Tokens} {close : String}

/-- A comma or a bracket that closes. -/
def isClose (text : String) : Bool := [",", ")", "]", "\x7d"].contains text

theorem stops_of_isClose (h : isClose close = true) : stops (.mark close :: rest) = true := by
  have hall : ∀ text ∈ [",", ")", "]", "\x7d"],
      [",", ")", "]", "\x7d", ":", "="].contains text = true := by decide
  exact hall close (List.contains_iff_mem.mp h)

theorem binds_of_isClose (h : isClose close = true) : binds (.mark close :: rest) = false := by
  unfold binds
  split
  next heq =>
    cases heq
    cases h
  next heq =>
    cases heq
    cases h
  · rfl

theorem mark?_of_isClose (h : isClose close = true) (hbegins : Source.begins tokens = true) :
    mark? close tokens = none := by
  have hall : ∀ text ∈ [",", ")", "]", "\x7d"], ["[", "\x7b", "-"].contains text = false := by
    decide
  exact mark?_of_begins hbegins (hall close (List.contains_iff_mem.mp h))

theorem mark?_self : mark? close (.mark close :: rest) = some rest := by
  simp [mark?]

theorem mark?_other {text : String} (h : text ≠ close) : mark? close (.mark text :: rest) = none := by
  simp [mark?, h]

theorem Readable.named (h : expr.Readable) (hfuel : 20 * expr.tokens.length + 1 ≤ fuel)
    (hclose : isClose close = true) (rest : Tokens) :
    namedExpression fuel (expr.tokens ++ .mark close :: rest) =
      some (expr.form, .mark close :: rest) := by
  obtain ⟨less, rfl⟩ : ∃ less, fuel = less + 1 := ⟨fuel - 1, by omega⟩
  rw [namedExpression_of_unbound (h.unbound _ (binds_of_isClose hclose))]
  exact h.reads (by omega) (stops_of_isClose hclose)

theorem Readable.starNamed (h : expr.Readable) (hfuel : 20 * expr.tokens.length + 2 ≤ fuel)
    (hclose : isClose close = true) (rest : Tokens) :
    Source.starNamed fuel (expr.tokens ++ .mark close :: rest) =
      some (expr.form, .mark close :: rest) := by
  obtain ⟨less, rfl⟩ : ∃ less, fuel = less + 1 := ⟨fuel - 1, by omega⟩
  rw [starNamed_of_begins (h.begins _)]
  exact h.named (by omega) hclose rest

/-- The last item may have nothing behind it; every other has a comma. -/
theorem listed_cons (trailing : Bool) (first : Expr) (others : List Expr) :
    (others = [] ∧ listed trailing (first :: others) = first.tokens) ∨
      ((trailing = true ∨ others ≠ []) ∧
        listed trailing (first :: others) = first.tokens ++ .mark "," :: listed trailing others) := by
  cases others with
  | nil =>
      cases trailing with
      | false => exact .inl ⟨rfl, by simp [listed]⟩
      | true => exact .inr ⟨.inl rfl, by simp [listed]⟩
  | cons second rest => exact .inr ⟨.inr (by simp), rfl⟩

theorem begins_listed {first : Expr} (h : first.Readable) (trailing : Bool) (others : List Expr)
    (rest : Tokens) : begins (listed trailing (first :: others) ++ rest) = true := by
  rcases listed_cons trailing first others with ⟨-, hlisted⟩ | ⟨-, hlisted⟩
  · rw [hlisted]
    exact h.begins _
  · rw [hlisted, List.append_assoc]
    exact h.begins _

theorem items_listed (hclose : isClose close = true) (hcomma : close ≠ ",") {trailing : Bool}
    (h : ∀ expr ∈ exprs, expr.Readable)
    (hfuel : 20 * (listed trailing exprs).length + 3 ≤ fuel) :
    items fuel close (listed trailing exprs ++ .mark close :: rest) = some (forms exprs, rest) := by
  induction exprs generalizing fuel with
  | nil =>
      obtain ⟨less, rfl⟩ : ∃ less, fuel = less + 1 := ⟨fuel - 1, by omega⟩
      simp only [listed, List.nil_append, items, mark?_self, forms]
  | cons first others ih =>
      obtain ⟨less, rfl⟩ : ∃ less, fuel = less + 1 := ⟨fuel - 1, by omega⟩
      have hfirst := h first List.mem_cons_self
      have hnone := mark?_of_isClose hclose (begins_listed hfirst trailing others
        (.mark close :: rest))
      -- the last item stands before the closing mark, any other one before a comma
      rcases listed_cons trailing first others with ⟨rfl, hlisted⟩ | ⟨-, hlisted⟩
      · rw [hlisted] at hfuel hnone ⊢
        have hread := hfirst.starNamed (show _ ≤ less by omega) hclose rest
        simp only [items, hnone, hread, Option.bind_eq_bind, Option.bind_some,
          mark?_other hcomma, mark?_self, Option.map_some, forms]
      · rw [hlisted] at hfuel hnone ⊢
        rw [List.append_assoc, List.cons_append] at hnone ⊢
        rw [List.length_append, List.length_cons] at hfuel
        have hread := hfirst.starNamed (show _ ≤ less by omega) (show isClose "," = true from rfl)
          (listed trailing others ++ .mark close :: rest)
        have hend : items less close (listed trailing others ++ .mark close :: rest) =
            some (forms others, rest) :=
          ih (fun expr hexpr => h expr (List.mem_cons_of_mem _ hexpr)) (by omega)
        simp only [items, hnone, hread, Option.bind_eq_bind, Option.bind_some, mark?_self,
          hend, Option.map_some, forms]

theorem bracketed_listed {trailing : Bool} (h : ∀ expr ∈ exprs, expr.Readable)
    (hfuel : 20 * (listed trailing exprs).length + 4 ≤ fuel) :
    bracketed fuel (listed trailing exprs ++ .mark "]" :: rest) =
      some (.list (forms exprs), rest) := by
  obtain ⟨less, rfl⟩ : ∃ less, fuel = less + 1 := ⟨fuel - 1, by omega⟩
  cases exprs with
  | nil => simp only [listed, List.nil_append, bracketed, forms]
  | cons first others =>
      have hfirst := h first List.mem_cons_self
      have hbegins := begins_listed hfirst trailing others (.mark "]" :: rest)
      rcases listed_cons trailing first others with ⟨rfl, hlisted⟩ | ⟨-, hlisted⟩
      · rw [hlisted] at hfuel hbegins ⊢
        have hread := hfirst.starNamed (show _ ≤ less by omega) (show isClose "]" = true from rfl)
          rest
        unfold bracketed
        split
        next heq =>
          rw [heq] at hbegins
          cases hbegins
        next => simp only [hread, Option.bind_eq_bind, Option.bind_some, forms]
      · rw [hlisted] at hfuel hbegins ⊢
        rw [List.append_assoc, List.cons_append] at hbegins ⊢
        rw [List.length_append, List.length_cons] at hfuel
        have hread := hfirst.starNamed (show _ ≤ less by omega) (show isClose "," = true from rfl)
          (listed trailing others ++ .mark "]" :: rest)
        have hend : items less "]" (listed trailing others ++ .mark "]" :: rest) =
            some (forms others, rest) :=
          items_listed rfl (by decide) (fun expr hexpr => h expr (List.mem_cons_of_mem _ hexpr))
            (by omega)
        unfold bracketed
        split
        next heq =>
          rw [heq] at hbegins
          cases hbegins
        next => simp only [hread, Option.bind_eq_bind, Option.bind_some, hend, forms]

theorem Readable.arguments (h : expr.Readable) (hfuel : 20 * expr.tokens.length + 1 ≤ fuel)
    (hclose : isClose close = true) (rest : Tokens) (comprehension start : Bool) :
    Source.arguments (fuel + 1) comprehension start .positional
      (expr.tokens ++ .mark close :: rest) =
        argumentsRest fuel .positional (.mark close :: rest) := by
  have hbegins := h.begins (.mark close :: rest)
  have hunbound := h.unbound (.mark close :: rest) (binds_of_isClose hclose)
  have hread := h.named hfuel hclose rest
  unfold Source.arguments
  split
  next heq => rw [heq] at hbegins; cases hbegins
  next heq => rw [heq] at hbegins; cases hbegins
  next heq => rw [heq] at hbegins; cases hbegins
  next heq => rw [heq] at hunbound; cases hunbound
  next =>
    simp only [bne_self_eq_false, Bool.false_eq_true, if_false, hread, Option.bind_eq_bind,
      Option.bind_some]

theorem arguments_listed (h : ∀ expr ∈ exprs, expr.Readable) {comprehension start : Bool}
    (hfuel : 20 * (listed false exprs).length + 3 ≤ fuel) :
    arguments fuel comprehension start .positional (listed false exprs ++ .mark ")" :: rest) =
      some rest := by
  induction exprs generalizing fuel comprehension start with
  | nil =>
      obtain ⟨less, rfl⟩ : ∃ less, fuel = less + 1 := ⟨fuel - 1, by omega⟩
      simp only [listed, List.nil_append, arguments]
  | cons first others ih =>
      obtain ⟨less, rfl⟩ : ∃ less, fuel = less + 2 := ⟨fuel - 2, by omega⟩
      have hfirst := h first List.mem_cons_self
      rcases listed_cons false first others with ⟨rfl, hlisted⟩ | ⟨-, hlisted⟩
      · rw [hlisted] at hfuel ⊢
        rw [hfirst.arguments (by omega) rfl]
        simp only [argumentsRest]
      · rw [hlisted] at hfuel ⊢
        rw [List.length_append, List.length_cons] at hfuel
        rw [List.append_assoc, List.cons_append, hfirst.arguments (by omega) rfl]
        simp only [argumentsRest]
        exact ih (fun expr hexpr => h expr (List.mem_cons_of_mem _ hexpr)) (by omega)

/-- An expression is a slice of its own where no colon follows. -/
theorem Readable.slice (h : expr.Readable) (hfuel : 20 * expr.tokens.length + 1 ≤ fuel)
    (hclose : isClose close = true) (rest : Tokens) :
    Source.slice fuel (expr.tokens ++ .mark close :: rest) = some (.mark close :: rest) := by
  obtain ⟨less, rfl⟩ : ∃ less, fuel = less + 1 := ⟨fuel - 1, by omega⟩
  have hbegins := h.begins (.mark close :: rest)
  have hunbound := h.unbound (.mark close :: rest) (binds_of_isClose hclose)
  have hread : expression less (expr.tokens ++ .mark close :: rest) =
      some (expr.form, .mark close :: rest) := h.reads (by omega) (stops_of_isClose hclose)
  unfold Source.slice
  split
  next heq => rw [heq] at hbegins; cases hbegins
  next heq => rw [heq] at hunbound; cases hunbound
  next =>
    simp only [hread, Option.bind_eq_bind, Option.bind_some]
    split
    next heq => cases heq; cases hclose
    · rfl

theorem slices_listed (h : ∀ expr ∈ exprs, expr.Readable) (hnonempty : exprs ≠ [])
    (hfuel : 20 * (listed false exprs).length + 3 ≤ fuel) :
    slices fuel (listed false exprs ++ .mark "]" :: rest) = some rest := by
  induction exprs generalizing fuel with
  | nil => exact absurd rfl hnonempty
  | cons first others ih =>
      obtain ⟨less, rfl⟩ : ∃ less, fuel = less + 1 := ⟨fuel - 1, by omega⟩
      have hfirst := h first List.mem_cons_self
      have hnone : ∀ after, mark? "*" (first.tokens ++ after) = none :=
        fun after => mark?_of_begins (hfirst.begins after) rfl
      rcases listed_cons false first others with ⟨rfl, hlisted⟩ | ⟨hothers, hlisted⟩
      · rw [hlisted] at hfuel ⊢
        have hread := hfirst.slice (show _ ≤ less by omega) (show isClose "]" = true from rfl) rest
        simp only [slices, hnone, hread, Option.bind_eq_bind, Option.bind_some]
      · rw [hlisted] at hfuel ⊢
        rw [List.length_append, List.length_cons] at hfuel
        obtain ⟨second, after, rfl⟩ := List.exists_cons_of_ne_nil (hothers.resolve_left (by simp))
        have hread := hfirst.slice (show _ ≤ less by omega) (show isClose "," = true from rfl)
          (listed false (second :: after) ++ .mark "]" :: rest)
        have hbegins := begins_listed (h second (by simp)) false after (.mark "]" :: rest)
        have hend : slices less (listed false (second :: after) ++ .mark "]" :: rest) = some rest :=
          ih (fun expr hexpr => h expr (List.mem_cons_of_mem _ hexpr)) (by simp) (by omega)
        rw [List.append_assoc, List.cons_append]
        generalize listed false (second :: after) ++ .mark "]" :: rest = tail at *
        simp only [slices, hnone, hread, Option.bind_eq_bind, Option.bind_some]
        split
        next heq => simp at heq
        next heq =>
          cases heq
          cases hbegins
        next heq =>
          cases heq
          exact hend
        next hother => exact absurd rfl (hother _)

/-- A member of a map, with its value. -/
def IsReadableMember (expr : Expr) : Prop :=
  ∃ key value, expr = member key value ∧ (quoted key).Readable ∧ value.Readable

/-- A map goes on behind the value of a member with its end or with a comma. -/
theorem listed_member_cases (trailing : Bool) (key : List Char) (value : Expr)
    (others : List Expr) (rest : Tokens) :
    (listed trailing (member key value :: others) ++ .mark "\x7d" :: rest =
        .text {} key :: .mark ":" :: (value.tokens ++ .mark "\x7d" :: rest) ∧
      value.tokens.length + 2 ≤ (listed trailing (member key value :: others)).length) ∨
    (listed trailing (member key value :: others) ++ .mark "\x7d" :: rest =
        .text {} key :: .mark ":" ::
          (value.tokens ++ .mark "," :: (listed trailing others ++ .mark "\x7d" :: rest)) ∧
      value.tokens.length + (listed trailing others).length + 3 ≤
        (listed trailing (member key value :: others)).length) := by
  rcases listed_cons trailing (member key value) others with ⟨rfl, hlisted⟩ | ⟨-, hlisted⟩
  · left
    simp [hlisted, tokens_member]
  · right
    simp [hlisted, tokens_member]

theorem members_listed (h : ∀ expr ∈ exprs, expr.IsReadableMember) {trailing : Bool}
    (hfuel : 20 * (listed trailing exprs).length + 3 ≤ fuel) :
    members fuel (listed trailing exprs ++ .mark "\x7d" :: rest) = some (.other, rest) := by
  induction exprs generalizing fuel with
  | nil =>
      obtain ⟨less, rfl⟩ : ∃ less, fuel = less + 1 := ⟨fuel - 1, by omega⟩
      simp only [listed, List.nil_append, members]
  | cons first others ih =>
      obtain ⟨less, rfl⟩ : ∃ less, fuel = less + 1 := ⟨fuel - 1, by omega⟩
      obtain ⟨⟨key, value, rfl, hkey, hvalue⟩, hothers⟩ := List.forall_mem_cons.mp h
      have hname : ∀ after, 20 ≤ less → expression less (.text {} key :: .mark ":" :: after) =
          some (.other, .mark ":" :: after) := fun after hless =>
        hkey.reads (by simpa [tokens, pieces, Piece.tokens] using hless) rfl
      rcases listed_member_cases trailing key value others rest with
        ⟨hlisted, hlength⟩ | ⟨hlisted, hlength⟩
      · have hread : expression less (value.tokens ++ .mark "\x7d" :: rest) = _ :=
          hvalue.reads (by omega) rfl
        simp [hlisted, members, mark?, hname _ (by omega), hread, closedBy]
      · have hread : expression less (value.tokens ++
            .mark "," :: (listed trailing others ++ .mark "\x7d" :: rest)) = _ :=
          hvalue.reads (by omega) rfl
        have hend : members less (listed trailing others ++ .mark "\x7d" :: rest) = _ :=
          ih hothers (by omega)
        simp [hlisted, members, mark?, hname _ (by omega), hread, hend]

theorem braced_listed (h : ∀ expr ∈ exprs, expr.IsReadableMember) {trailing : Bool}
    (hfuel : 20 * (listed trailing exprs).length + 4 ≤ fuel) :
    braced fuel (listed trailing exprs ++ .mark "\x7d" :: rest) = some (.other, rest) := by
  obtain ⟨less, rfl⟩ : ∃ less, fuel = less + 1 := ⟨fuel - 1, by omega⟩
  cases exprs with
  | nil => simp only [listed, List.nil_append, braced]
  | cons first others =>
      obtain ⟨⟨key, value, rfl, hkey, hvalue⟩, hothers⟩ := List.forall_mem_cons.mp h
      have hname : ∀ after, 22 ≤ less → Source.starNamed less (.text {} key :: .mark ":" :: after) =
          some (.other, .mark ":" :: after) := by
        intro after hless
        obtain ⟨least, rfl⟩ : ∃ least, less = least + 2 := ⟨less - 2, by omega⟩
        rw [starNamed_of_begins rfl, namedExpression_of_unbound rfl]
        exact hkey.reads (by simpa [tokens, pieces, Piece.tokens] using hless) rfl
      rcases listed_member_cases trailing key value others rest with
        ⟨hlisted, hlength⟩ | ⟨hlisted, hlength⟩
      · have hread : expression less (value.tokens ++ .mark "\x7d" :: rest) = _ :=
          hvalue.reads (by omega) rfl
        simp [hlisted, braced, hname _ (by omega), hread, Form.isStarred]
      · have hread : expression less (value.tokens ++
            .mark "," :: (listed trailing others ++ .mark "\x7d" :: rest)) = _ :=
          hvalue.reads (by omega) rfl
        have hend : members less (listed trailing others ++ .mark "\x7d" :: rest) = _ :=
          members_listed hothers (by omega)
        simp [hlisted, braced, hname _ (by omega), hread, hend, Form.isStarred]

end Lists

/-! ## Levels of the grammar -/

/-- Read up to where a point or a bracket may go on with it. -/
def ReadsPrimary (expr : Expr) : Prop :=
  ∀ (fuel : Nat) (rest : Tokens), 20 * expr.tokens.length ≤ fuel + 14 →
    ∃ less, fuel ≤ less + expr.tokens.length ∧
      primary fuel (expr.tokens ++ rest) = primaryRest less expr.form rest

def ReadsSigned (expr : Expr) : Prop :=
  ∀ (fuel : Nat) (rest : Tokens), 20 * expr.tokens.length ≤ fuel + 12 → parts rest = true →
    signed fuel (expr.tokens ++ rest) = some (expr.form, rest)

/-- Read up to where another member of a union may follow. -/
def ReadsUnion (expr : Expr) : Prop :=
  ∀ (fuel : Nat) (rest : Tokens), 20 * expr.tokens.length ≤ fuel + 5 → parts rest = true →
    ∃ less, fuel ≤ less + expr.tokens.length ∧
      operation fuel 4 (expr.tokens ++ rest) = operationRest less 4 expr.form rest

structure Levels (expr : Expr) : Prop where
  primary : expr.isPrimary = true → expr.ReadsPrimary
  signed : expr.isUnion = false → expr.ReadsSigned
  union : expr.ReadsUnion

section Levels

variable {expr : Expr} {fuel : Nat} {tokens rest : Tokens} {form : Form}

theorem length_pos_of_begins {tokens : Tokens} (h : begins tokens = true) : 0 < tokens.length := by
  cases tokens with
  | nil => cases h
  | cons => exact Nat.succ_pos _

theorem signed_of_primary (hbegins : begins tokens = true) (hminus : mark? "-" tokens = none)
    (hread : Source.primary fuel tokens = some (form, rest)) (hparts : parts rest = true) :
    Source.signed (fuel + 2) tokens = some (form, rest) := by
  have hpower : mark? "**" rest = none := by
    rcases stops_cases hparts with ⟨tail, rfl⟩ | hstops
    · exact mark?_other (by decide)
    · exact mark?_of_stops hstops rfl
  simp only [Source.signed, signMarks, List.findSome?_cons, List.findSome?_nil, hminus,
    mark?_of_begins hbegins (show ["[", "\x7b", "-"].contains "+" = false from rfl),
    mark?_of_begins hbegins (show ["[", "\x7b", "-"].contains "~" = false from rfl), awaited,
    keyword?_of_begins hbegins (show ["True", "False", "None"].contains "await" = false from rfl),
    hread, Option.bind_eq_bind, Option.bind_some, hpower]

/-- The levels between a sign and a union hold nothing else. -/
theorem operation_of_signed {count : Nat}
    (hread : ∀ {fuel}, count ≤ fuel + 12 → Source.signed fuel tokens = some (form, rest))
    (hparts : parts rest = true) (hcount : 20 ≤ count) {above : Nat} (habove : above ≤ 5)
    (hfuel : count + above ≤ fuel + 11) :
    operation fuel (10 - above) tokens = some (form, rest) := by
  induction above generalizing fuel with
  | zero =>
      obtain ⟨less, rfl⟩ : ∃ less, fuel = less + 1 := ⟨fuel - 1, by omega⟩
      simp only [operation, hread (show count ≤ less + 12 by omega)]
      rfl
  | succ above ih =>
      obtain ⟨less, rfl⟩ : ∃ less, fuel = less + 2 := ⟨fuel - 2, by omega⟩
      have hnext : 10 - (above + 1) + 1 = 10 - above := by omega
      have hoperator : operator? (10 - (above + 1)) rest = none :=
        operator?_of_parts hparts (by omega)
      rw [operation, if_neg (by omega), if_neg (by omega), hnext, ih (by omega) (by omega)]
      simp only [Option.bind_eq_bind, Option.bind_some, operationRest, hoperator]

theorem operand (hread : expr.ReadsSigned) (hpositive : 0 < expr.tokens.length)
    (hfuel : 20 * expr.tokens.length ≤ fuel + 6) (hparts : parts rest = true) :
    operation fuel 5 (expr.tokens ++ rest) = some (expr.form, rest) :=
  operation_of_signed (fun hless => hread _ _ hless hparts) hparts (by omega) (Nat.le_refl 5)
    (by omega)

theorem ReadsSigned.union (h : expr.ReadsSigned) (hpositive : 0 < expr.tokens.length) :
    expr.ReadsUnion := by
  intro fuel rest hfuel hparts
  obtain ⟨less, rfl⟩ : ∃ less, fuel = less + 1 := ⟨fuel - 1, by omega⟩
  refine ⟨less, by omega, ?_⟩
  rw [operation, if_neg (by decide), if_neg (by decide), operand h hpositive (by omega) hparts]
  rfl

theorem Levels.of_signed (h : expr.ReadsSigned) (hprimary : expr.isPrimary = false)
    (hpositive : 0 < expr.tokens.length) : expr.Levels where
  primary htrue := by
    rw [hprimary] at htrue
    cases htrue
  signed _ := h
  union := h.union hpositive

theorem Levels.of_primary (h : expr.ReadsPrimary) (hbegins : ∀ rest, begins (expr.tokens ++ rest) = true)
    (hminus : ∀ rest, mark? "-" (expr.tokens ++ rest) = none) : expr.Levels := by
  have hpositive : 0 < expr.tokens.length := by
    have hnil := length_pos_of_begins (hbegins [])
    rwa [List.append_nil] at hnil
  have hsigned : expr.ReadsSigned := by
    intro fuel rest hfuel hparts
    obtain ⟨less, rfl⟩ : ∃ less, fuel = less + 2 := ⟨fuel - 2, by omega⟩
    obtain ⟨least, hleast, hread⟩ := h less rest (by omega)
    obtain ⟨least, rfl⟩ : ∃ less, least = less + 1 := ⟨least - 1, by omega⟩
    exact signed_of_primary (hbegins rest) (hminus rest)
      (hread.trans (primaryRest_of_parts hparts)) hparts
  exact ⟨fun _ => h, fun _ => hsigned, hsigned.union hpositive⟩

/-- What is an atom and nothing can be taken from. -/
theorem Levels.of_atom (hprimary : expr.isPrimary = false)
    (hbegins : ∀ rest, begins (expr.tokens ++ rest) = true)
    (hminus : ∀ rest, mark? "-" (expr.tokens ++ rest) = none)
    (hread : ∀ {fuel rest}, 20 * expr.tokens.length ≤ fuel + 15 → parts rest = true →
      atom fuel (expr.tokens ++ rest) = some (expr.form, rest)) : expr.Levels := by
  have hpositive : 0 < expr.tokens.length := by
    have hnil := length_pos_of_begins (hbegins [])
    rwa [List.append_nil] at hnil
  refine .of_signed ?_ hprimary hpositive
  intro fuel rest hfuel hparts
  obtain ⟨less, rfl⟩ : ∃ less, fuel = less + 4 := ⟨fuel - 4, by omega⟩
  refine signed_of_primary (hbegins rest) (hminus rest) ?_ hparts
  simp only [Source.primary, hread (show _ ≤ less + 1 + 15 by omega) hparts, Option.bind_eq_bind,
    Option.bind_some, primaryRest_of_parts hparts]

/-- Above a union the grammar holds nothing but what a keyword or a comparison begins. -/
theorem operation_of_union (h : expr.ReadsUnion) (hbegins : begins (expr.tokens ++ rest) = true)
    (hpositive : 0 < expr.tokens.length) (hstops : stops rest = true) {above : Nat}
    (habove : above ≤ 4) (hfuel : 20 * expr.tokens.length + above ≤ fuel + 5) :
    operation fuel (4 - above) (expr.tokens ++ rest) = some (expr.form, rest) := by
  induction above generalizing fuel with
  | zero =>
      obtain ⟨less, hless, hread⟩ := h fuel rest (by omega) (parts_of_stops hstops)
      obtain ⟨least, rfl⟩ : ∃ least, less = least + 1 := ⟨less - 1, by omega⟩
      rw [Nat.sub_zero, hread]
      simp only [operationRest, operator?_of_stops hstops]
  | succ above ih =>
      obtain ⟨less, rfl⟩ : ∃ less, fuel = less + 2 := ⟨fuel - 2, by omega⟩
      have hnext : 4 - (above + 1) + 1 = 4 - above := by omega
      have hread : operation (less + 1) (4 - above) (expr.tokens ++ rest) = some (expr.form, rest) :=
        ih (by omega) (by omega)
      rw [operation]
      split
      next hlevel =>
        obtain rfl : above = 1 := by omega
        rw [keyword?_of_begins hbegins rfl]
        exact hread
      · rw [if_neg (by omega), hnext, hread]
        simp only [Option.bind_eq_bind, Option.bind_some, operationRest,
          operator?_of_stops hstops]

theorem expression_of_union (h : expr.ReadsUnion) (hbegins : begins (expr.tokens ++ rest) = true)
    (hpositive : 0 < expr.tokens.length) (hstops : stops rest = true)
    (hfuel : 20 * expr.tokens.length ≤ fuel) :
    expression fuel (expr.tokens ++ rest) = some (expr.form, rest) := by
  obtain ⟨less, rfl⟩ : ∃ less, fuel = less + 1 := ⟨fuel - 1, by omega⟩
  have hread : operation less (4 - 4) (expr.tokens ++ rest) = some (expr.form, rest) :=
    operation_of_union h hbegins hpositive hstops (Nat.le_refl 4) (by omega)
  rw [Nat.sub_self] at hread
  simp only [expression, keyword?_of_begins hbegins
    (show ["True", "False", "None"].contains "lambda" = false from rfl), hread,
    Option.bind_eq_bind, Option.bind_some, keyword?_of_stops hstops]

end Levels

/-! ## First tokens of expressions -/

theorem wordToken_constant {word : List Char} (h : word ∈ constants) :
    ∃ text, ["True", "False", "None"].contains text = true ∧
      wordToken word = some (.keyword text) := by
  simp only [constants, List.mem_cons, List.not_mem_nil, or_false] at h
  rcases h with rfl | rfl | rfl
  · exact ⟨"True", rfl, by decide⟩
  · exact ⟨"False", rfl, by decide⟩
  · exact ⟨"None", rfl, by decide⟩

theorem tokens_constant {word : List Char} (h : word ∈ constants) :
    ∃ text, ["True", "False", "None"].contains text = true ∧
      (constant word).tokens = [.keyword text] := by
  obtain ⟨text, htext, htoken⟩ := wordToken_constant h
  exact ⟨text, htext, by simp [tokens, pieces, Piece.tokens, htoken]⟩

theorem begins_tokens : ∀ {expr : Expr} (rest : Tokens), expr.Sound →
    begins (expr.tokens ++ rest) = true
  | name word, rest, h => by
      rw [tokens_name h]
      rfl
  | constant word, rest, h => by
      obtain ⟨text, htext, htokens⟩ := tokens_constant h
      rw [htokens]
      exact htext
  | number _, _, _ | quoted _, _, _ | block _, _, _ | member .., _, _ => rfl
  | negative _, _, _ => rfl
  | list layout items, rest, _ => by
      rw [tokens_list]
      rfl
  | dict layout items, rest, _ => by
      rw [tokens_dict]
      rfl
  | attr owner word, rest, h => by
      rw [tokens_attr h.2.2, List.append_assoc]
      exact begins_tokens _ h.1
  | call owner items, rest, h => by
      rw [tokens_call, List.append_assoc]
      exact begins_tokens _ h.1
  | spread owner word, rest, h => by
      rw [tokens_spread h.2.2, List.append_assoc]
      exact begins_tokens _ h.1
  | item owner items, rest, h => by
      rw [tokens_item, List.append_assoc]
      exact begins_tokens _ h.1
  | union left right, rest, h => by
      rw [tokens_union, List.append_assoc]
      exact begins_tokens _ h.1

/-- What stands behind the first name is no value for it, unless the name stands alone. -/
theorem unbound_tokens : ∀ {expr : Expr} {rest : Tokens}, expr.Sound → binds rest = false →
    unbound (expr.tokens ++ rest) = true
  | name word, rest, h, hbinds => by
      rw [tokens_name h, List.singleton_append, unbound, hbinds]
      rfl
  | constant word, rest, h, _ => by
      obtain ⟨text, -, htokens⟩ := tokens_constant h
      rw [htokens]
      rfl
  | number _, _, _, _ | quoted _, _, _, _ | block _, _, _, _ | member .., _, _, _ => rfl
  | negative _, _, _, _ => rfl
  | list layout items, rest, _, _ => by
      rw [tokens_list]
      rfl
  | dict layout items, rest, _, _ => by
      rw [tokens_dict]
      rfl
  | attr owner word, rest, h, _ => by
      rw [tokens_attr h.2.2, List.append_assoc]
      exact unbound_tokens h.1 rfl
  | call owner items, rest, h, _ => by
      rw [tokens_call, List.append_assoc]
      exact unbound_tokens h.1 rfl
  | spread owner word, rest, h, _ => by
      rw [tokens_spread h.2.2, List.append_assoc]
      exact unbound_tokens h.1 rfl
  | item owner items, rest, h, _ => by
      rw [tokens_item, List.append_assoc]
      exact unbound_tokens h.1 rfl
  | union left right, rest, h, _ => by
      rw [tokens_union, List.append_assoc]
      exact unbound_tokens h.1 rfl

theorem length_tokens_pos {expr : Expr} (h : expr.Sound) : 0 < expr.tokens.length := by
  have hnil := length_pos_of_begins (begins_tokens [] h)
  rwa [List.append_nil] at hnil

/-- Nothing that something can be taken from begins with a sign. -/
theorem mark?_minus : ∀ {expr : Expr} (rest : Tokens), expr.Sound → expr.isPrimary = true →
    mark? "-" (expr.tokens ++ rest) = none
  | name word, rest, h, _ => by
      rw [tokens_name h]
      rfl
  | attr owner word, rest, h, _ => by
      rw [tokens_attr h.2.2, List.append_assoc]
      exact mark?_minus _ h.1 h.2.1
  | call owner items, rest, h, _ => by
      rw [tokens_call, List.append_assoc]
      exact mark?_minus _ h.1 h.2.1
  | spread owner word, rest, h, _ => by
      rw [tokens_spread h.2.2, List.append_assoc]
      exact mark?_minus _ h.1 h.2.1
  | item owner items, rest, h, _ => by
      rw [tokens_item, List.append_assoc]
      exact mark?_minus _ h.1 h.2.1

/-! ## Expressions -/

theorem Levels.readable {expr : Expr} (h : expr.Levels) (hsound : expr.Sound) : expr.Readable where
  begins rest := begins_tokens rest hsound
  unbound _ hbinds := unbound_tokens hsound hbinds
  reads hfuel hstops := expression_of_union h.union (begins_tokens _ hsound)
    (length_tokens_pos hsound) hstops hfuel

theorem levels_of_primary {expr : Expr} (h : expr.ReadsPrimary) (hsound : expr.Sound)
    (hprimary : expr.isPrimary = true) : expr.Levels :=
  .of_primary h (fun rest => begins_tokens rest hsound)
    (fun rest => mark?_minus rest hsound hprimary)

theorem atom_text {body : List Char} {fuel : Nat} {rest : Tokens}
    (hbody : (decode {} body).isSome = true) (hfuel : 20 ≤ fuel + 15) (hparts : parts rest = true) :
    atom fuel (.text {} body :: rest) = some (.other, rest) := by
  obtain ⟨less, rfl⟩ : ∃ less, fuel = less + 3 := ⟨fuel - 3, by omega⟩
  simp [atom, textRun, textRun_of_parts hparts, sameKinds, textsRead, hbody]

theorem levels_quoted {body : List Char} (h : IsBody body) : (quoted body).Levels :=
  .of_atom rfl (fun _ => rfl) (fun _ => rfl) fun hfuel hparts => atom_text h.decoded hfuel hparts

theorem levels_block {body : List Char} (h : IsBlock body) : (block body).Levels :=
  .of_atom rfl (fun _ => rfl) (fun _ => rfl) fun hfuel hparts => atom_text h.decoded hfuel hparts

theorem levels_name {word : List Char} (h : Text.isPlainName word = true) : (name word).Levels := by
  refine levels_of_primary (fun fuel rest hfuel => ?_) h rfl
  rw [tokens_name h] at hfuel ⊢
  rw [List.length_singleton] at hfuel
  obtain ⟨less, rfl⟩ : ∃ less, fuel = less + 2 := ⟨fuel - 2, by omega⟩
  exact ⟨less + 1, by simp, by simp [primary, atom, form]⟩

theorem levels_number (text : List Char) : (number text).Levels := by
  refine .of_atom rfl (fun _ => rfl) (fun _ => rfl) fun {fuel rest} hfuel hparts => ?_
  have hpositive : 1 ≤ fuel := by
    have hlength : (number text).tokens.length = 1 := rfl
    omega
  obtain ⟨less, rfl⟩ : ∃ less, fuel = less + 1 := ⟨fuel - 1, by omega⟩
  simp [tokens, pieces, Piece.tokens, atom, form]

theorem levels_constant {word : List Char} (h : word ∈ constants) : (constant word).Levels := by
  obtain ⟨text, htext, htokens⟩ := tokens_constant h
  refine .of_atom rfl (fun rest => begins_tokens rest h) (fun rest => ?_)
    fun {fuel rest} hfuel hparts => ?_
  · rw [htokens]
    rfl
  · rw [htokens, List.length_singleton] at hfuel
    obtain ⟨less, rfl⟩ : ∃ less, fuel = less + 1 := ⟨fuel - 1, by omega⟩
    simp only [List.contains_iff_mem, List.mem_cons, List.not_mem_nil, or_false] at htext
    rw [htokens]
    rcases htext with rfl | rfl | rfl <;> simp [atom, form]

theorem isMember_of_isPrimary {expr : Expr} (h : expr.isPrimary = true) :
    expr.isMember = false := by
  cases expr <;> first | rfl | cases h

/-- Behind what something is taken from. -/
theorem readsPrimary_of_owner {expr owner : Expr} {behind : Tokens} (h : owner.ReadsPrimary)
    (htokens : expr.tokens = owner.tokens ++ behind) (hbehind : 2 ≤ behind.length)
    (hstep : ∀ fuel rest, 20 * behind.length ≤ fuel + 16 → primaryRest (fuel + 1) owner.form
      (behind ++ rest) = primaryRest fuel expr.form rest) : expr.ReadsPrimary := by
  intro fuel rest hfuel
  rw [htokens, List.length_append] at hfuel ⊢
  obtain ⟨less, hless, hread⟩ := h fuel (behind ++ rest) (by omega)
  obtain ⟨least, rfl⟩ : ∃ least, less = least + 1 := ⟨less - 1, by omega⟩
  refine ⟨least, by omega, ?_⟩
  rw [List.append_assoc, hread]
  exact hstep least rest (by omega)

theorem levels_negative {operand : Expr} (h : (negative operand).Sound)
    (hoperand : operand.Levels) : (negative operand).Levels := by
  have hunion : operand.isUnion = false := by
    have hsigned := h.2
    cases operand <;> first | rfl | cases hsigned
  refine .of_signed (fun fuel rest hfuel hparts => ?_) rfl (Nat.succ_pos _)
  rw [tokens, pieces, Piece.tokensOf_cons] at hfuel ⊢
  change 20 * (operand.tokens.length + 1) ≤ fuel + 12 at hfuel
  obtain ⟨less, rfl⟩ : ∃ less, fuel = less + 1 :=
    ⟨fuel - 1, by have hpositive := length_tokens_pos h.1; omega⟩
  have hread : signed less (operand.tokens ++ rest) = some (operand.form, rest) :=
    hoperand.signed hunion less rest (by omega) hparts
  change signed (less + 1) (.mark "-" :: (operand.tokens ++ rest)) = _
  simp [signed, signMarks, mark?, hread, readAs, form]

theorem levels_attr {owner : Expr} {word : List Char} (h : (attr owner word).Sound)
    (howner : owner.Levels) : (attr owner word).Levels := by
  refine levels_of_primary (readsPrimary_of_owner (howner.primary h.2.1) (tokens_attr h.2.2)
    (Nat.le_refl 2) fun fuel rest _ => ?_) h rfl
  simp [primaryRest, form]

theorem levels_call {callee : Expr} {arguments : List Expr} (h : (call callee arguments).Sound)
    (hcallee : callee.Levels) (harguments : ∀ expr ∈ arguments, expr.Readable) :
    (call callee arguments).Levels := by
  refine levels_of_primary (readsPrimary_of_owner (hcallee.primary h.2.1) tokens_call (by simp)
    fun fuel rest hfuel => ?_) h rfl
  rw [List.length_cons, List.length_append, List.length_singleton] at hfuel
  have hread : Source.arguments fuel true true .positional
      (listed false arguments ++ .mark ")" :: rest) = some rest :=
    arguments_listed harguments (by omega)
  simp [primaryRest, hread, form]

theorem levels_spread {callee : Expr} {word : List Char} (h : (spread callee word).Sound)
    (hcallee : callee.Levels) : (spread callee word).Levels := by
  refine levels_of_primary (readsPrimary_of_owner (hcallee.primary h.2.1) (tokens_spread h.2.2)
    (by simp) fun fuel rest hfuel => ?_) h rfl
  simp only [List.length_cons, List.length_nil] at hfuel
  obtain ⟨less, rfl⟩ : ∃ less, fuel = less + 2 := ⟨fuel - 2, by omega⟩
  have hreadable := (levels_name h.2.2).readable h.2.2
  have hread := hreadable.reads (show _ ≤ less + 1 by rw [tokens_name h.2.2]; simp; omega)
    (show stops (.mark ")" :: rest) = true from rfl)
  rw [tokens_name h.2.2, List.singleton_append] at hread
  simp [primaryRest, arguments, argumentsRest, hread, form]

theorem levels_item {owner : Expr} {indices : List Expr} (h : (item owner indices).Sound)
    (howner : owner.Levels) (hindices : ∀ expr ∈ indices, expr.Readable) :
    (item owner indices).Levels := by
  refine levels_of_primary (readsPrimary_of_owner (howner.primary h.2.1) tokens_item (by simp)
    fun fuel rest hfuel => ?_) h rfl
  rw [List.length_cons, List.length_append, List.length_singleton] at hfuel
  have hread : slices fuel (listed false indices ++ .mark "]" :: rest) = some rest :=
    slices_listed hindices h.2.2.2.2 (by omega)
  simp [primaryRest, hread, form]

theorem levels_list {layout : Option Nat} {items : List Expr} (h : (list layout items).Sound)
    (hitems : ∀ expr ∈ items, expr.Readable) : (list layout items).Levels := by
  refine .of_atom rfl (fun rest => begins_tokens rest h) (fun rest => ?_)
    fun {fuel rest} hfuel _ => ?_
  · rw [tokens_list]
    rfl
  · rw [tokens_list, List.length_cons, List.length_append, List.length_singleton] at hfuel
    obtain ⟨less, rfl⟩ : ∃ less, fuel = less + 1 := ⟨fuel - 1, by omega⟩
    have hread : bracketed less (listed layout.isSome items ++ .mark "]" :: rest) =
        some (.list (forms items), rest) :=
      bracketed_listed hitems (by omega)
    simp [tokens_list, atom, hread, form]

theorem levels_dict {layout : Option Nat} {members : List Expr}
    (h : (dict layout members).Sound) (hmembers : ∀ expr ∈ members, expr.IsReadableMember) :
    (dict layout members).Levels := by
  refine .of_atom rfl (fun rest => begins_tokens rest h) (fun rest => ?_)
    fun {fuel rest} hfuel _ => ?_
  · rw [tokens_dict]
    rfl
  · rw [tokens_dict, List.length_cons, List.length_append, List.length_singleton] at hfuel
    obtain ⟨less, rfl⟩ : ∃ less, fuel = less + 1 := ⟨fuel - 1, by omega⟩
    have hread : braced less (listed layout.isSome members ++ .mark "\x7d" :: rest) =
        some (.other, rest) :=
      braced_listed hmembers (by omega)
    simp [tokens_dict, atom, hread, form]

theorem levels_union {left right : Expr} (h : (union left right).Sound) (hleft : left.Levels)
    (hright : right.Levels) : (union left right).Levels := by
  obtain ⟨-, -, hsound, -, hunion⟩ := h
  have hsecond := hright.signed hunion
  have hpositive := length_tokens_pos hsound
  refine ⟨fun hprimary => (nomatch hprimary), fun hunion => (nomatch hunion),
    fun fuel rest hfuel hparts => ?_⟩
  rw [tokens_union, List.length_append, List.length_cons] at hfuel ⊢
  -- the left side ends at the mark, so the loop of the level goes on with what is behind it
  obtain ⟨less, hless, hread⟩ :=
    hleft.union fuel (.mark "|" :: (right.tokens ++ rest)) (by omega) rfl
  obtain ⟨least, rfl⟩ : ∃ least, less = least + 1 := ⟨less - 1, by omega⟩
  have hmember : operation least 5 (right.tokens ++ rest) = some (right.form, rest) :=
    operand hsecond hpositive (by omega) hparts
  refine ⟨least, by omega, ?_⟩
  rw [List.append_assoc, List.cons_append, hread]
  simp [operationRest, operator?_mark, levelMarks, hmember, form]

theorem isMember_of_isSigned {expr : Expr} (h : expr.isSigned = true) : expr.isMember = false := by
  cases expr <;> first | rfl | cases h

mutual

theorem levels : ∀ {expr : Expr}, expr.Sound → expr.isMember = false → expr.Levels
  | name _, h, _ => levels_name h
  | constant _, h, _ => levels_constant h
  | number text, _, _ => levels_number text
  | quoted _, h, _ => levels_quoted h
  | block _, h, _ => levels_block h
  | negative _, h, _ => levels_negative h (levels h.1 (isMember_of_isSigned h.2))
  | attr _ _, h, _ => levels_attr h (levels h.1 (isMember_of_isPrimary h.2.1))
  | call _ _, h, _ =>
      levels_call h (levels h.1 (isMember_of_isPrimary h.2.1)) (readable_all h.2.2.1 h.2.2.2)
  | spread _ _, h, _ => levels_spread h (levels h.1 (isMember_of_isPrimary h.2.1))
  | item _ _, h, _ =>
      levels_item h (levels h.1 (isMember_of_isPrimary h.2.1)) (readable_all h.2.2.1 h.2.2.2.1)
  | list _ _, h, _ => levels_list h (readable_all h.1 h.2)
  | dict _ _, h, _ => levels_dict h (readable_members h.1 h.2)
  | member _ _, _, hmember => nomatch hmember
  | union _ _, h, _ => levels_union h (levels h.1 h.2.1) (levels h.2.2.1 h.2.2.2.1)

theorem readable_all : ∀ {items : List Expr}, AreSound items → items.all (!·.isMember) = true →
    ∀ expr ∈ items, expr.Readable
  | [], _, _ => by simp
  | first :: rest, h, hmember => by
      rw [List.all_cons, Bool.and_eq_true, Bool.not_eq_true'] at hmember
      rw [List.forall_mem_cons]
      exact ⟨(levels h.1 hmember.1).readable h.1, readable_all h.2 hmember.2⟩

theorem readable_members : ∀ {members : List Expr}, AreSound members →
    members.all isMember = true → ∀ expr ∈ members, expr.IsReadableMember
  | [], _, _ => by simp
  | member key value :: rest, h, hmember => by
      rw [List.all_cons, Bool.and_eq_true] at hmember
      rw [List.forall_mem_cons]
      exact ⟨⟨key, value, rfl, (levels_quoted h.1.1).readable h.1.1, (levels h.1.2.1 h.1.2.2).readable h.1.2.1⟩,
        readable_members h.2 hmember.2⟩

end

theorem readable {expr : Expr} (h : expr.Sound) (hmember : expr.isMember = false) :
    expr.Readable := (levels h hmember).readable h

end Expr

end ModelMint.Source
