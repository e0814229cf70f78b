/-!
# Tokens

The words of the target language: names, keywords, numbers, quoted texts and marks.
Line ends and changes of indentation that matter are tokens too.
-/

namespace ModelMint.Source

/-- What the letters before a quoted text say. -/
structure TextKind where
  bytes : Bool := false
  raw : Bool := false
  formatted : Bool := false
deriving DecidableEq, Repr

inductive Token where
  | name (text : String)
  | keyword (text : String)
  | number (text : String)
  /-- The body is what stands between the quotes. -/
  | text (kind : TextKind) (body : List Char)
  | mark (text : String)
  | newline
  | indent
  | dedent
deriving DecidableEq, Repr

end ModelMint.Source
