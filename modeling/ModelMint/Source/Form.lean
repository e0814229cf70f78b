/-!
# Forms of expressions

As much of an expression as decides what it may be used for: assigned to, annotated,
deleted.  Everything that can only be evaluated has one form.
-/

namespace ModelMint.Source

inductive Form where
  | name
  | attr
  | item
  | group (inner : Form)
  | tuple (items : List Form)
  | list (items : List Form)
  | starred (inner : Form)
  | other
deriving Repr

namespace Form

/-- One place that a value can be put, perhaps in parentheses. -/
def isPlace : Form → Bool
  | .name | .attr | .item => true
  | .group inner => inner.isPlace
  | _ => false

mutual

/-- What may be assigned to: a place, or a list of targets, each perhaps starred. -/
def isTarget : Form → Bool
  | .name | .attr | .item => true
  | .group inner => isUnstarred inner
  | .tuple items | .list items => areTargets items
  | .starred inner => isUnstarred inner
  | .other => false

def isUnstarred : Form → Bool
  | .name | .attr | .item => true
  | .group inner => isUnstarred inner
  | .tuple items | .list items => areTargets items
  | _ => false

def areTargets : List Form → Bool
  | [] => true
  | form :: rest => isTarget form && areTargets rest

end

mutual

/-- What may be deleted. -/
def isDeletable : Form → Bool
  | .name | .attr | .item => true
  | .group inner => isDeletable inner
  | .tuple items | .list items => areDeletable items
  | _ => false

def areDeletable : List Form → Bool
  | [] => true
  | form :: rest => isDeletable form && areDeletable rest

end

def isStarred : Form → Bool
  | .starred _ => true
  | _ => false

end Form

end ModelMint.Source
