import ModelMint.Schema.Document
import ModelMint.Text.Lines

/-!
# Pointers

A pointer is a path of keys with slashes between them; a tilde in a key is written
`~0` and a slash `~1`.  It is followed through objects from the root of the document,
and a first segment `#` stands for the root.
-/

namespace ModelMint.Schema

namespace Pointer

/-! ## Segments -/

def unescapeSlashes : List Char → List Char
  | [] => []
  | '~' :: '1' :: rest => '/' :: unescapeSlashes rest
  | c :: rest => c :: unescapeSlashes rest

def unescapeTildes : List Char → List Char
  | [] => []
  | '~' :: '0' :: rest => '~' :: unescapeTildes rest
  | c :: rest => c :: unescapeTildes rest

/-- Slashes first: `~01` is a tilde and the digit one. -/
def unescape (segment : List Char) : List Char := unescapeTildes (unescapeSlashes segment)

def escapeChar (c : Char) : List Char :=
  if c == '~' then ['~', '0'] else if c == '/' then ['~', '1'] else [c]

def escape (key : List Char) : List Char := key.flatMap escapeChar

def dropRoot : List (List Char) → List (List Char)
  | ['#'] :: segments => segments
  | segments => segments

def keys (pointer : String) : List String :=
  (dropRoot (Text.parts '/' pointer.toList)).map fun segment => String.ofList (unescape segment)

/-- The pointer that leads along the keys. -/
def ofKeys (path : List String) : String :=
  String.ofList ('#' :: path.flatMap fun key => '/' :: escape key.toList)

/-! ## Following a path -/

/-- The value at the end of the path, or the first key that is not there. -/
def follow (value : Json) : List String → Except String Json
  | [] => .ok value
  | key :: rest => match value.get? key with
    | some next => follow next rest
    | none => .error key

end Pointer

structure Resolved where
  name : String
  body : Json

/-- The value at a pointer, under the name of its last key. -/
def resolve (root : Json) (pointer : String) : Except Failure Resolved :=
  let keys := Pointer.keys pointer
  match keys.getLast? with
  | none | some "" => .error { cause := .unresolved pointer none none }
  | some name => match Pointer.follow root keys with
    | .ok body => .ok ⟨name, body⟩
    | .error key => .error { cause := .unresolved pointer (some key) none }

end ModelMint.Schema
