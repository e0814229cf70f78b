import ModelMint.Source.Expression

/-!
# Patterns

A reader of the patterns of a case: literals, captures, values, groups, sequences,
mappings and classes, joined by bars and named with `as`.
-/

namespace ModelMint.Source

/-- How far the arguments of a class pattern or the members of a mapping have come. -/
inductive PatternPhase where
  | open
  | named
  | closed
deriving DecidableEq

def isImaginary (text : String) : Bool :=
  match text.toList.getLast? with
  | some c => c == 'j' || c == 'J'
  | none => false

/-- A number, perhaps negative, perhaps with an imaginary number added or taken away. -/
def numberPattern? (tokens : Tokens) : Option Tokens :=
  match (mark? "-" tokens).getD tokens with
  | .number real :: rest =>
    match rest with
    | .mark sign :: .number imaginary :: tail =>
      if (sign == "+" || sign == "-") && !isImaginary real && isImaginary imaginary then some tail
      else some rest
    | _ => some rest
  | _ => none

/-- Behind a name: further names, each behind a point. -/
def dottedRest : Tokens → Tokens
  | .mark "." :: .name _ :: rest => dottedRest rest
  | rest => rest

/-- A constant or a number that a mapping may have as key, or a text. -/
def literalPattern? (fuel : Nat) (tokens : Tokens) : Option Tokens :=
  match tokens with
  | .keyword "None" :: rest | .keyword "True" :: rest | .keyword "False" :: rest => some rest
  | .text .. :: _ =>
    let (texts, rest) := textRun tokens
    if sameKinds texts && textsRead fuel texts then some rest else none
  | _ => numberPattern? tokens

mutual

/-- A pattern, or a sequence of them without brackets. -/
def casePattern : Nat → Tokens → Option Tokens
  | 0, _ => none
  | fuel + 1, tokens => do
    let (starred, rest) ← starPattern fuel tokens
    match mark? "," rest with
    | some rest => some (sequenceRest fuel rest)
    | none => if starred then none else some rest

/-- The patterns that are left of an open sequence; a comma may end it. -/
def sequenceRest : Nat → Tokens → Tokens
  | 0, tokens => tokens
  | fuel + 1, tokens =>
    match starPattern fuel tokens with
    | none => tokens
    | some (_, rest) => match mark? "," rest with
      | some rest => sequenceRest fuel rest
      | none => rest

/-- Whether the pattern is starred, and what follows it. -/
def starPattern : Nat → Tokens → Option (Bool × Tokens)
  | 0, _ => none
  | fuel + 1, tokens =>
    match tokens with
    | .mark "*" :: .name _ :: rest => some (true, rest)
    | _ => (asPattern fuel tokens).map (false, ·)

def asPattern : Nat → Tokens → Option Tokens
  | 0, _ => none
  | fuel + 1, tokens => do
    let rest ← orPattern fuel tokens
    match rest with
    | .keyword "as" :: .name name :: rest => if name == "_" then none else some rest
    | _ => some rest

def orPattern : Nat → Tokens → Option Tokens
  | 0, _ => none
  | fuel + 1, tokens => do
    let rest ← closedPattern fuel tokens
    match mark? "|" rest with
    | some rest => orPattern fuel rest
    | none => some rest

def closedPattern : Nat → Tokens → Option Tokens
  | 0, _ => none
  | fuel + 1, tokens =>
    match tokens with
    | .name _ :: rest =>
      let rest := dottedRest rest
      match mark? "(" rest with
      | some rest => classArguments fuel .open rest
      | none => some rest
    | .mark "(" :: rest => groupPattern fuel rest
    | .mark "[" :: rest => sequencePattern fuel "]" rest
    | .mark "\x7b" :: rest => mappingPattern fuel .open rest
    | _ => literalPattern? fuel tokens

/-- Behind an opening parenthesis: one pattern, or a sequence. -/
def groupPattern : Nat → Tokens → Option Tokens
  | 0, _ => none
  | fuel + 1, tokens =>
    match mark? ")" tokens with
    | some rest => some rest
    | none => do
      let (starred, rest) ← starPattern fuel tokens
      match rest with
      | .mark ")" :: rest => if starred then none else some rest
      | .mark "," :: rest => sequencePattern fuel ")" rest
      | _ => none

/-- Patterns up to and with the bracket that closes them. -/
def sequencePattern : Nat → String → Tokens → Option Tokens
  | 0, _, _ => none
  | fuel + 1, close, tokens =>
    match mark? close tokens with
    | some rest => some rest
    | none => do
      let (_, rest) ← starPattern fuel tokens
      match mark? "," rest with
      | some rest => sequencePattern fuel close rest
      | none => mark? close rest

/-- Behind an opening brace.  What is left over is taken last. -/
def mappingPattern : Nat → PatternPhase → Tokens → Option Tokens
  | 0, _, _ => none
  | fuel + 1, phase, tokens =>
    match tokens with
    | .mark "\x7d" :: rest => some rest
    | .mark "**" :: .name name :: rest =>
      if phase == .closed || name == "_" then none else mappingNext fuel .closed rest
    | _ =>
      if phase == .closed then none
      else do
        let rest ← match tokens with
          | .name _ :: .mark "." :: .name _ :: rest => some (dottedRest rest)
          | _ => literalPattern? fuel tokens
        let rest ← mark? ":" rest
        let rest ← asPattern fuel rest
        mappingNext fuel phase rest

def mappingNext : Nat → PatternPhase → Tokens → Option Tokens
  | 0, _, _ => none
  | fuel + 1, phase, tokens =>
    match tokens with
    | .mark "\x7d" :: rest => some rest
    | .mark "," :: rest => mappingPattern fuel phase rest
    | _ => none

/-- Behind an opening parenthesis: patterns by position, then by name. -/
def classArguments : Nat → PatternPhase → Tokens → Option Tokens
  | 0, _, _ => none
  | fuel + 1, phase, tokens =>
    match tokens with
    | .mark ")" :: rest => some rest
    | .name _ :: .mark "=" :: rest => do
      let rest ← asPattern fuel rest
      classNext fuel .named rest
    | _ =>
      if phase == .named then none
      else do
        let rest ← asPattern fuel tokens
        classNext fuel phase rest

def classNext : Nat → PatternPhase → Tokens → Option Tokens
  | 0, _, _ => none
  | fuel + 1, phase, tokens =>
    match tokens with
    | .mark ")" :: rest => some rest
    | .mark "," :: rest => classArguments fuel phase rest
    | _ => none

end

end ModelMint.Source
