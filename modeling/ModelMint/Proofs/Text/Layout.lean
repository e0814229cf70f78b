import ModelMint.Proofs.Text.Wrapped

/-!
# The layout of wrapped lines

A line takes the runs that fit and, of a run that no line can hold, as much as there is
room for, so it never is longer than the limit.  All that goes between the lines is blank.
Every turn of the loop takes a run or a character away, which bounds the turns.
-/

namespace ModelMint.Text

variable {limit : Nat} {started : Bool} {line : List Char} {pending : List (List Char)}

/-! ## What is dropped -/

/-- The text without its blanks. -/
def solid (text : List Char) : List Char := text.filter fun c => !isBlank c

theorem solid_append (text rest : List Char) : solid (text ++ rest) = solid text ++ solid rest :=
  List.filter_append text rest

theorem solid_cons_of_blank {c : Char} (h : isBlank c = true) (rest : List Char) :
    solid (c :: rest) = solid rest :=
  List.filter_cons_of_neg (by simp [h])

theorem solid_cons_congr {text rest : List Char} (c : Char) (h : solid text = solid rest) :
    solid (c :: text) = solid (c :: rest) := by
  have hsplit : ∀ text : List Char, solid (c :: text) = solid [c] ++ solid text :=
    fun text => solid_append [c] text
  rw [hsplit text, hsplit rest, h]

theorem solid_eq_nil {text : List Char} (h : ∀ c ∈ text, isBlank c = true) : solid text = [] := by
  apply List.filter_eq_nil_iff.mpr
  intro c hc
  simp [h c hc]

theorem solid_flatten_eq_nil {runs : List (List Char)} (h : ∀ run ∈ runs, isBlankRun run = true) :
    solid runs.flatten = [] := by
  apply solid_eq_nil
  intro c hc
  obtain ⟨run, hrun, hc⟩ := List.mem_flatten.mp hc
  exact List.all_eq_true.mp (h run hrun) c hc

theorem dropBlankStart_append (started : Bool) (pending : List (List Char)) :
    ∃ beginning, (∀ run ∈ beginning, isBlankRun run = true) ∧
      pending = beginning ++ dropBlankStart started pending := by
  cases pending with
  | nil => exact ⟨[], by simp, rfl⟩
  | cons run rest =>
      simp only [dropBlankStart]
      split
      next hblank => exact ⟨[run], by simp_all, rfl⟩
      next => exact ⟨[], by simp, rfl⟩

theorem dropBlankEnd_append (line : List (List Char)) :
    ∃ ending, (∀ run ∈ ending, isBlankRun run = true) ∧ line = dropBlankEnd line ++ ending := by
  unfold dropBlankEnd
  split
  next run hlast =>
    split
    next hblank =>
      exact ⟨[run], by simpa using hblank, (List.dropLast_append_getLast? run hlast).symm⟩
    next => exact ⟨[], by simp, (List.append_nil line).symm⟩
  next => exact ⟨[], by simp, (List.append_nil line).symm⟩

/-! ## One line -/

theorem length_takeFitting_le (room : Nat) (pending : List (List Char)) :
    (takeFitting room pending).1.flatten.length ≤ room := by
  induction pending generalizing room with
  | nil => simp [takeFitting]
  | cons run rest ih =>
      by_cases hfits : run.length ≤ room
      · have hrest := ih (room - run.length)
        simp only [takeFitting, hfits, if_true, List.flatten_cons, List.length_append]
        omega
      · simp [takeFitting, hfits]

theorem cutLong_append (limit : Nat) (line rest : List (List Char)) :
    (cutLong limit line rest).1.flatten ++ (cutLong limit line rest).2.flatten =
      line.flatten ++ rest.flatten := by
  cases rest with
  | nil => rfl
  | cons run rest =>
      simp only [cutLong]
      split
      · rfl
      · simp [← List.append_assoc (List.take _ run)]

theorem length_cutLong_le (hlimit : 1 ≤ limit) {line : List (List Char)}
    (h : line.flatten.length ≤ limit) (rest : List (List Char)) :
    (cutLong limit line rest).1.flatten.length ≤ limit := by
  cases rest with
  | nil => exact h
  | cons run rest =>
      simp only [cutLong]
      split
      · exact h
      · simp only [List.flatten_append, List.flatten_cons, List.flatten_nil, List.append_nil,
          List.length_append, List.length_take]
        omega

theorem length_nextLine_le (hlimit : 1 ≤ limit) (started : Bool) (pending : List (List Char)) :
    (nextLine limit started pending).1.flatten.length ≤ limit := by
  have hcut := length_cutLong_le hlimit
    (length_takeFitting_le limit (dropBlankStart started pending))
    (takeFitting limit (dropBlankStart started pending)).2
  obtain ⟨ending, -, happend⟩ := dropBlankEnd_append (cutLong limit
    (takeFitting limit (dropBlankStart started pending)).1
    (takeFitting limit (dropBlankStart started pending)).2).1
  rw [happend, List.flatten_append, List.length_append] at hcut
  exact Nat.le_of_add_right_le hcut

/-- A line and what is left for the others hold what was pending, but for blanks. -/
theorem solid_nextLine (limit : Nat) (started : Bool) (pending : List (List Char)) :
    solid (nextLine limit started pending).1.flatten ++
        solid (nextLine limit started pending).2.flatten = solid pending.flatten := by
  obtain ⟨beginning, hbeginning, hstart⟩ := dropBlankStart_append started pending
  have hfit := takeFitting_append limit (dropBlankStart started pending)
  simp only [nextLine]
  generalize takeFitting limit (dropBlankStart started pending) = fitting at hfit ⊢
  have hcut := cutLong_append limit fitting.1 fitting.2
  generalize cutLong limit fitting.1 fitting.2 = cut at hcut ⊢
  obtain ⟨ending, hending, hline⟩ := dropBlankEnd_append cut.1
  have hsame : solid (dropBlankEnd cut.1).flatten = solid cut.1.flatten := by
    conv => rhs; rw [hline]
    rw [List.flatten_append, solid_append, solid_flatten_eq_nil hending, List.append_nil]
  calc solid (dropBlankEnd cut.1).flatten ++ solid cut.2.flatten
      = solid (cut.1.flatten ++ cut.2.flatten) := by rw [hsame, solid_append]
    _ = solid (dropBlankStart started pending).flatten := by
        rw [hcut, ← List.flatten_append, hfit]
    _ = solid pending.flatten := by
        conv => rhs; rw [hstart]
        rw [List.flatten_append, solid_append, solid_flatten_eq_nil hbeginning, List.nil_append]

/-! ## The loop -/

theorem length_fillFrom_le (hlimit : 1 ≤ limit) :
    ∀ line ∈ fillFrom limit started pending, line.length ≤ limit := by
  fun_induction fillFrom limit started pending with
  | case1 => simp
  | case2 started run rest step hempty ih => exact ih
  | case3 started run rest step hempty ih =>
      exact List.forall_mem_cons.mpr ⟨length_nextLine_le hlimit started (run :: rest), ih⟩

theorem solid_fillFrom : solid (fillFrom limit started pending).flatten = solid pending.flatten := by
  fun_induction fillFrom limit started pending with
  | case1 => rfl
  | case2 started run rest step hempty ih =>
      have hstep := solid_nextLine limit started (run :: rest)
      rw [List.isEmpty_iff.mp hempty] at hstep
      rw [ih]
      exact hstep
  | case3 started run rest step hempty ih =>
      rw [List.flatten_cons, solid_append, ih]
      exact solid_nextLine limit started (run :: rest)

/-- The loop with a bound on its turns; no lines where the bound does not suffice. -/
def fillWithin (limit : Nat) : Nat → Bool → List (List Char) → Option (List (List Char))
  | _, _, [] => some []
  | 0, _, _ :: _ => none
  | turns + 1, started, run :: rest =>
    let step := nextLine limit started (run :: rest)
    if step.1.isEmpty then fillWithin limit turns started step.2
    else (fillWithin limit turns true step.2).map (step.1.flatten :: ·)

theorem fillWithin_eq :
    ∀ turns, pendingSize pending ≤ turns →
      fillWithin limit turns started pending = some (fillFrom limit started pending) := by
  fun_induction fillFrom limit started pending with
  | case1 => simp [fillWithin]
  | case2 started run rest step hempty ih =>
      intro turns hturns
      have hless : pendingSize step.2 < pendingSize (run :: rest) := nextLine_size_lt _ _ _ _
      cases turns with
      | zero => omega
      | succ turns =>
          rw [fillWithin, if_pos hempty]
          exact ih turns (by omega)
  | case3 started run rest step hempty ih =>
      intro turns hturns
      have hless : pendingSize step.2 < pendingSize (run :: rest) := nextLine_size_lt _ _ _ _
      cases turns with
      | zero => omega
      | succ turns =>
          rw [fillWithin, if_neg hempty, ih turns (by omega)]
          rfl

/-! ## Lines of a text -/

theorem solid_expandTabs (column : Nat) : solid (expandTabs column line) = solid line := by
  fun_induction expandTabs column line with
  | case1 => rfl
  | case2 column rest gap ih =>
      rw [solid_append, ih, solid_cons_of_blank (by decide)]
      rw [solid_eq_nil fun c hc => by rw [List.eq_of_mem_replicate hc]; decide, List.nil_append]
  | case3 column c rest _ ih => exact solid_cons_congr c ih

theorem solid_wrapLine (limit : Nat) (line : List Char) :
    solid (wrapLine limit line).flatten = solid line := by
  rw [wrapLine, solid_fillFrom, flatten_runs, solid_expandTabs]

theorem length_runs_le (line : List Char) : (runs line).length ≤ line.length := by
  fun_induction runs line with
  | case1 => exact Nat.le_refl _
  | case2 c rest d run others hrest hsame ih => simp_all; omega
  | case3 c rest d run others hrest hsame ih => simp_all
  | case4 c rest hrest ih => simpa using ih

/-- A line is laid out in two turns for each character at most. -/
theorem fillWithin_wrapLine (limit : Nat) (line : List Char) :
    fillWithin limit (2 * (expandTabs 0 line).length) false (runs (expandTabs 0 line)) =
      some (wrapLine limit line) := by
  apply fillWithin_eq
  have hruns := length_runs_le (expandTabs 0 line)
  rw [pendingSize, flatten_runs]
  omega

theorem flatten_partsOf (limit : Nat) (line : List Char) :
    (partsOf limit line).flatten = (wrapLine limit line).flatten := by
  unfold partsOf
  split
  next hempty => rw [List.isEmpty_iff.mp hempty]; rfl
  next => rfl

/-- The lines that are dropped at the end are empty. -/
theorem flatten_wrapLines (limit : Nat) (lines : List (List Char)) :
    (wrapLines limit lines).flatten = (lines.flatMap (wrapLine limit)).flatten := by
  have hparts : (lines.flatMap (partsOf limit)).flatten =
      (lines.flatMap (wrapLine limit)).flatten := by
    induction lines with
    | nil => rfl
    | cons line rest ih => simp [flatten_partsOf, ih]
  have hdropped : ((lines.flatMap (partsOf limit)).rtakeWhile List.isEmpty).flatten = [] :=
    List.flatten_eq_nil_iff.mpr fun line hline =>
      List.isEmpty_iff.mp (List.mem_rtakeWhile_imp hline)
  have hsplit := congrArg List.flatten
    (List.rdropWhile_append_rtakeWhile (p := List.isEmpty) (l := lines.flatMap (partsOf limit)))
  rwa [List.flatten_append, hdropped, List.append_nil, hparts] at hsplit

theorem solid_wrapLines (limit : Nat) (lines : List (List Char)) :
    solid (wrapLines limit lines).flatten = solid lines.flatten := by
  rw [flatten_wrapLines]
  induction lines with
  | nil => rfl
  | cons line rest ih =>
      rw [List.flatMap_cons, List.flatten_append, solid_append, solid_wrapLine, ih,
        List.flatten_cons, solid_append]

theorem length_wrapLines_le (hlimit : 1 ≤ limit) (lines : List (List Char)) :
    ∀ line ∈ wrapLines limit lines, line.length ≤ limit :=
  forall_mem_wrapLines_of_parts (Nat.zero_le limit) fun _ _ => length_fillFrom_le hlimit

theorem getLast?_wrapLines (limit : Nat) (lines : List (List Char)) :
    ∀ last ∈ (wrapLines limit lines).getLast?, last ≠ [] := by
  intro last hlast hempty
  rw [wrapLines_eq] at hlast
  obtain ⟨hne, rfl⟩ := List.mem_getLast?_eq_getLast hlast
  exact List.rdropWhile_last_not List.isEmpty _ hne (List.isEmpty_iff.mpr hempty)

theorem solid_splitLines (text : List Char) : solid (splitLines text).flatten = solid text := by
  fun_induction splitLines text with
  | case1 => rfl
  | case2 rest ih =>
      rw [solid_cons_of_blank (by decide), solid_cons_of_blank (by decide), ← ih]
      rfl
  | case3 c rest hc hbreak ih =>
      rw [solid_cons_of_blank (isBlank_of_isLineBreak hbreak), ← ih]
      rfl
  | case4 c rest hc hbreak hrest ih => exact solid_cons_congr c (by rw [← ih, hrest]; rfl)
  | case5 c rest hc hbreak line lines hrest ih =>
      exact solid_cons_congr c (by rw [← ih, hrest]; rfl)

end ModelMint.Text
