import ModelMint.Schema.Pointer

/-!
# Resolvers

A resolver keeps what it found and does not follow a pointer again that it has followed
to its end.  A pointer that leads nowhere is followed each time.
-/

namespace ModelMint.Schema

structure Resolver where
  root : Json
  found : List (String × Resolved) := []

def Resolver.resolve (resolver : Resolver) (pointer : String) :
    Except Failure Resolved × Resolver :=
  match Entries.get? pointer resolver.found with
  | some resolved => (.ok resolved, resolver)
  | none => match Schema.resolve resolver.root pointer with
    | .ok resolved =>
      (.ok resolved, { resolver with found := Entries.insert pointer resolved resolver.found })
    | .error failure => (.error failure, resolver)

end ModelMint.Schema
