import ModelMint.Instance.Refusal
import ModelMint.Instance.Value

/-!
# Values and instances as shown

An instance is shown as its class with the fields that are set, under the names of the
schema.  A list or map that is met again while it is being shown is cut off there;
instances that refer to each other directly can not be shown at all.
-/

namespace ModelMint

namespace Value

mutual

/-- `ofInstance` shows the instances within. -/
def shownWith (ofInstance : Nat → Except Fault (List Char)) : Value → Except Fault (List Char)
  | .none => .ok noneText
  | .bool value => .ok (boolText value)
  | .int value => .ok (intText value)
  | .float value => .ok value.text
  | .text value => .ok (Text.shown value.toList)
  | .moment value => .ok value.shown
  | .list items =>
    (shownItems ofInstance items).map fun parts => '[' :: (commaSeparated parts ++ [']'])
  | .map members =>
    (shownMembers ofInstance members).map fun parts =>
      '\x7b' :: (commaSeparated parts ++ ['\x7d'])
  | .instance id => ofInstance id
  | .type className => .ok ("<class ".toList ++ Text.shown className.toList ++ ['>'])

def shownItems (ofInstance : Nat → Except Fault (List Char)) :
    List Value → Except Fault (List (List Char))
  | [] => .ok []
  | item :: rest =>
    match shownWith ofInstance item with
    | .error fault => .error fault
    | .ok part => (shownItems ofInstance rest).map (part :: ·)

def shownMembers (ofInstance : Nat → Except Fault (List Char)) :
    List (String × Value) → Except Fault (List (List Char))
  | [] => .ok []
  | (key, value) :: rest =>
    match shownWith ofInstance value with
    | .error fault => .error fault
    | .ok part => (shownMembers ofInstance rest).map
        ((Text.shown key.toList ++ ':' :: ' ' :: part) :: ·)

end

/-- What stands for a list or a map that is being shown already. -/
def cutOff? : Value → Option (List Char)
  | .list _ => some "[...]".toList
  | .map _ => some "\x7b...\x7d".toList
  | _ => .none

end Value

/-- The names of the fields of a class. -/
abbrev FieldNames := String → List (String × String)

namespace Store

/-- `opened` holds the lists and maps that are being shown, by instance and attribute. -/
def shownInstance (store : Store) (names : FieldNames) :
    Nat → List (Nat × String) → Nat → Except Fault (List Char)
  | 0, _, _ => .error .endless
  | fuel + 1, opened, id =>
    let className := store.classOf id
    let part (entry : String × Value) : Except Fault (Option (List Char)) :=
      match Entries.get? entry.1 (names className) with
      | none => .ok none
      | some name =>
        let label := name.toList ++ ['=']
        match entry.2.cutOff? with
        | none => (entry.2.shownWith (store.shownInstance names fuel opened)).map
            fun text => some (label ++ text)
        | some cut =>
          if opened.contains (id, entry.1) then .ok (some (label ++ cut))
          else (entry.2.shownWith (store.shownInstance names fuel ((id, entry.1) :: opened))).map
            fun text => some (label ++ text)
    ((store.attributes id).mapM part).map fun parts =>
      className.toList ++ '(' :: (commaSeparated (parts.filterMap fun part => part) ++ [')'])

/-- Between two lists or maps that are opened no instance comes twice. -/
def shownDepth (store : Store) : Nat := (store.size + 1) * (store.attributeCount + 1) + 1

def shown (store : Store) (names : FieldNames) (value : Value) : Except Fault String :=
  (value.shownWith (store.shownInstance names store.shownDepth [])).map String.ofList

/-- Texts and moments stand for themselves where they are no part of another value. -/
def plain (store : Store) (names : FieldNames) (value : Value) : Except Fault String :=
  match value with
  | .text text => .ok text
  | .moment moment => .ok (String.ofList moment.plain)
  | other => store.shown names other

def shownAll (store : Store) (names : FieldNames) (values : List Value) :
    Except Fault (List String) :=
  values.mapM (store.shown names)

end Store

end ModelMint
