import ModelMint.Text.Lines

/-!
# Word wrap

A text is wrapped line by line.  Tabs are filled to columns of eight, the line is
cut into runs of spaces and runs of other characters, and runs are laid out
greedily.  A run that is blank is dropped at the end of a line and at the start of
every line but the first; a run longer than a whole line is cut where the room ends.
-/

namespace ModelMint.Text

/-- Tabs become spaces up to the next column that is a multiple of eight. -/
def expandTabs : Nat → List Char → List Char
  | _, [] => []
  | column, '\t' :: rest =>
    let gap := 8 - column % 8
    List.replicate gap ' ' ++ expandTabs (column + gap) rest
  | column, c :: rest => c :: expandTabs (column + 1) rest

/-- Maximal runs of spaces and of other characters, in order. -/
def runs : List Char → List (List Char)
  | [] => []
  | c :: rest => match runs rest with
    | (d :: run) :: others =>
      if (c == ' ') == (d == ' ') then (c :: d :: run) :: others else [c] :: (d :: run) :: others
    | others => [c] :: others

def isBlankRun (run : List Char) : Bool := run.all isBlank

/-- The leading runs that fit into `room` characters, and the runs that follow. -/
def takeFitting : Nat → List (List Char) → List (List Char) × List (List Char)
  | _, [] => ([], [])
  | room, run :: rest =>
    if run.length ≤ room then
      let (line, others) := takeFitting (room - run.length) rest
      (run :: line, others)
    else ([], run :: rest)

/-- A run that no line can hold gives the line as much as there is room for. -/
def cutLong (limit : Nat) (line : List (List Char)) :
    List (List Char) → List (List Char) × List (List Char)
  | [] => (line, [])
  | run :: rest =>
    if run.length ≤ limit then (line, run :: rest)
    else
      let space := max limit 1 - line.flatten.length
      (line ++ [run.take space], run.drop space :: rest)

def dropBlankEnd (line : List (List Char)) : List (List Char) :=
  match line.getLast? with
  | some run => if isBlankRun run then line.dropLast else line
  | none => line

def dropBlankStart (started : Bool) : List (List Char) → List (List Char)
  | [] => []
  | run :: rest => if started && isBlankRun run then rest else run :: rest

/-- One line, and the runs that are left for the others. -/
def nextLine (limit : Nat) (started : Bool) (pending : List (List Char)) :
    List (List Char) × List (List Char) :=
  let (fitting, rest) := takeFitting limit (dropBlankStart started pending)
  let (line, rest) := cutLong limit fitting rest
  (dropBlankEnd line, rest)

/-- Every line takes a run or a character from this sum. -/
def pendingSize (pending : List (List Char)) : Nat := pending.flatten.length + pending.length

private theorem takeFitting_size (room : Nat) (pending : List (List Char)) :
    pendingSize (takeFitting room pending).2 +
        pendingSize (takeFitting room pending).1 = pendingSize pending := by
  induction pending generalizing room with
  | nil => simp [takeFitting, pendingSize]
  | cons run rest ih =>
      by_cases h : run.length ≤ room
      · have := ih (room - run.length)
        simp [takeFitting, h, pendingSize] at this ⊢
        omega
      · simp [takeFitting, h, pendingSize]

private theorem takeFitting_head (room : Nat) (pending : List (List Char))
    (hfit : (takeFitting room pending).1 = []) :
    (takeFitting room pending).2 = pending ∧
      ∀ run rest, pending = run :: rest → room < run.length := by
  cases pending with
  | nil => simp [takeFitting]
  | cons run rest =>
      by_cases h : run.length ≤ room
      · simp [takeFitting, h] at hfit
      · simp [takeFitting, h]
        omega

private theorem dropBlankStart_size (started : Bool) (pending : List (List Char)) :
    pendingSize (dropBlankStart started pending) ≤ pendingSize pending := by
  cases pending with
  | nil => simp [dropBlankStart]
  | cons run rest =>
      simp only [dropBlankStart]
      split
      · simp only [pendingSize, List.flatten_cons, List.length_append, List.length_cons]
        omega
      · exact Nat.le_refl _

theorem nextLine_size_lt (limit : Nat) (started : Bool) (run : List Char)
    (rest : List (List Char)) :
    pendingSize (nextLine limit started (run :: rest)).2 < pendingSize (run :: rest) := by
  have hdrop := dropBlankStart_size started (run :: rest)
  have hpos : 0 < pendingSize (run :: rest) := by
    simp only [pendingSize, List.length_cons]
    omega
  have hsize := takeFitting_size limit (dropBlankStart started (run :: rest))
  have hhead := takeFitting_head limit (dropBlankStart started (run :: rest))
  have hempty : dropBlankStart started (run :: rest) = [] →
      pendingSize (dropBlankStart started (run :: rest)) = 0 := by
    intro h; rw [h]; rfl
  simp only [nextLine]
  generalize dropBlankStart started (run :: rest) = start at *
  generalize hsplit : takeFitting limit start = split at *
  obtain ⟨fitting, others⟩ := split
  simp only at hsize hhead ⊢
  cases others with
  | nil => exact hpos
  | cons next others =>
      by_cases hnext : next.length ≤ limit
      · simp only [cutLong, hnext, if_true]
        cases fitting with
        | nil =>
            obtain ⟨hsame, hlong⟩ := hhead rfl
            have := hlong next others hsame.symm
            omega
        | cons first fitting =>
            simp [pendingSize] at hsize hdrop ⊢
            omega
      · simp only [cutLong, hnext, if_false]
        cases fitting with
        | nil =>
            simp [pendingSize] at hsize hdrop hnext ⊢
            omega
        | cons first fitting =>
            simp [pendingSize] at hsize hdrop hnext ⊢
            omega

def fillFrom (limit : Nat) (started : Bool) : List (List Char) → List (List Char)
  | [] => []
  | run :: rest =>
    let step := nextLine limit started (run :: rest)
    if step.1.isEmpty then fillFrom limit started step.2
    else step.1.flatten :: fillFrom limit true step.2
termination_by pending => pendingSize pending
decreasing_by all_goals exact nextLine_size_lt _ _ _ _

/-- One line of the text as the lines that fit into `limit` characters each. -/
def wrapLine (limit : Nat) (line : List Char) : List (List Char) :=
  fillFrom limit false (runs (expandTabs 0 line))

/-- A line that comes out empty stays as an empty line; empty lines at the end are dropped. -/
def wrapLines (limit : Nat) (lines : List (List Char)) : List (List Char) :=
  let wrapped := lines.flatMap fun line =>
    let parts := wrapLine limit line
    if parts.isEmpty then [[]] else parts
  (wrapped.reverse.dropWhile List.isEmpty).reverse

def wrap (limit : Nat) (text : List Char) : List (List Char) :=
  wrapLines limit (splitLines text)

end ModelMint.Text
