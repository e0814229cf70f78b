import ModelMint.Json.Shown

/-!
# Literals

A decoded value as an expression of the target language that stands for it.  Texts
are in the written form, so a literal is one line; the other values stand as they are
shown in messages.
-/

namespace ModelMint.Source

open ModelMint

mutual

def literal : Json → List Char
  | .str text => Text.written text.toList
  | .arr items => '[' :: (commaSeparated (literalItems items) ++ [']'])
  | .obj members => '\x7b' :: (commaSeparated (literalMembers members) ++ ['\x7d'])
  | other => other.shown

def literalItems : List Json → List (List Char)
  | [] => []
  | item :: rest => literal item :: literalItems rest

def literalMembers : List (String × Json) → List (List Char)
  | [] => []
  | (key, value) :: rest =>
    (Text.written key.toList ++ ':' :: ' ' :: literal value) :: literalMembers rest

end

end ModelMint.Source
