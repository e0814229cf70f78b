import Mathlib.Data.List.DropRight
import ModelMint.Text.Wrap

/-!
# The characters of wrapped lines

Wrapping adds no character but the space, so what holds of the space and of the
characters of a text holds of the characters of its wrapped lines.
-/

namespace ModelMint.Text

variable {P : Char → Prop}

section Runs

variable {line : List Char} {pending : List (List Char)}

theorem forall_mem_expandTabs (hspace : P ' ') (h : ∀ c ∈ line, P c) (column : Nat) :
    ∀ c ∈ expandTabs column line, P c := by
  fun_induction expandTabs column line with
  | case1 => simp
  | case2 column rest gap ih =>
      rw [List.forall_mem_append]
      refine ⟨fun c hc => ?_, ih (List.forall_mem_cons.mp h).2⟩
      rw [List.eq_of_mem_replicate hc]
      exact hspace
  | case3 column c rest _ ih =>
      obtain ⟨hc, hrest⟩ := List.forall_mem_cons.mp h
      exact List.forall_mem_cons.mpr ⟨hc, ih hrest⟩

theorem flatten_runs (line : List Char) : (runs line).flatten = line := by
  fun_induction runs line with
  | case1 => rfl
  | case2 c rest d run others hrest hsame ih => simpa [hrest] using ih
  | case3 c rest d run others hrest hsame ih => simpa [hrest] using ih
  | case4 c rest hrest ih => simpa using ih

theorem takeFitting_append (room : Nat) (pending : List (List Char)) :
    (takeFitting room pending).1 ++ (takeFitting room pending).2 = pending := by
  induction pending generalizing room with
  | nil => rfl
  | cons run rest ih =>
      rw [takeFitting]
      split
      · simp [ih]
      · rfl

theorem forall_mem_cutLong (limit : Nat) {line rest : List (List Char)}
    (hline : ∀ run ∈ line, ∀ c ∈ run, P c) (hrest : ∀ run ∈ rest, ∀ c ∈ run, P c) :
    (∀ run ∈ (cutLong limit line rest).1, ∀ c ∈ run, P c) ∧
      ∀ run ∈ (cutLong limit line rest).2, ∀ c ∈ run, P c := by
  unfold cutLong
  split
  · exact ⟨hline, hrest⟩
  next run others =>
    obtain ⟨hrun, hothers⟩ := List.forall_mem_cons.mp hrest
    split
    · exact ⟨hline, hrest⟩
    · refine ⟨?_, List.forall_mem_cons.mpr ⟨fun c hc => hrun c (List.mem_of_mem_drop hc), hothers⟩⟩
      rw [List.forall_mem_append, List.forall_mem_singleton]
      exact ⟨hline, fun c hc => hrun c (List.mem_of_mem_take hc)⟩

theorem dropBlankStart_subset (started : Bool) (pending : List (List Char)) :
    dropBlankStart started pending ⊆ pending := by
  unfold dropBlankStart
  split
  · exact fun _ h => h
  · split
    · exact List.subset_cons_self _ _
    · exact fun _ h => h

theorem dropBlankEnd_subset (line : List (List Char)) : dropBlankEnd line ⊆ line := by
  unfold dropBlankEnd
  split
  · split
    · exact List.dropLast_subset line
    · exact fun _ h => h
  · exact fun _ h => h

theorem forall_mem_nextLine (limit : Nat) (started : Bool)
    (h : ∀ run ∈ pending, ∀ c ∈ run, P c) :
    (∀ run ∈ (nextLine limit started pending).1, ∀ c ∈ run, P c) ∧
      ∀ run ∈ (nextLine limit started pending).2, ∀ c ∈ run, P c := by
  have hstart : ∀ run ∈ dropBlankStart started pending, ∀ c ∈ run, P c :=
    fun run hrun => h run (dropBlankStart_subset started pending hrun)
  rw [← takeFitting_append limit (dropBlankStart started pending), List.forall_mem_append] at hstart
  obtain ⟨hline, hrest⟩ := forall_mem_cutLong limit hstart.1 hstart.2
  exact ⟨fun run hrun => hline run (dropBlankEnd_subset _ hrun), hrest⟩

theorem forall_mem_fillFrom (limit : Nat) (started : Bool)
    (h : ∀ run ∈ pending, ∀ c ∈ run, P c) :
    ∀ line ∈ fillFrom limit started pending, ∀ c ∈ line, P c := by
  fun_induction fillFrom limit started pending with
  | case1 => simp
  | case2 started run rest step hempty ih => exact ih (forall_mem_nextLine limit started h).2
  | case3 started run rest step hempty ih =>
      obtain ⟨hline, hothers⟩ := forall_mem_nextLine limit started h
      rw [List.forall_mem_cons, List.forall_mem_flatten]
      exact ⟨hline, ih hothers⟩

end Runs

/-! ## The lines of a text -/

/-- The lines of one line, at least one. -/
def partsOf (limit : Nat) (line : List Char) : List (List Char) :=
  if (wrapLine limit line).isEmpty then [[]] else wrapLine limit line

theorem wrapLines_eq (limit : Nat) (lines : List (List Char)) :
    wrapLines limit lines = (lines.flatMap (partsOf limit)).rdropWhile List.isEmpty := rfl

/-- What comes out is empty or part of a line. -/
theorem forall_mem_wrapLines_of_parts {Q : List Char → Prop} (hempty : Q []) {limit : Nat}
    {lines : List (List Char)} (h : ∀ line ∈ lines, ∀ part ∈ wrapLine limit line, Q part) :
    ∀ part ∈ wrapLines limit lines, Q part := by
  intro part hpart
  rw [wrapLines_eq] at hpart
  obtain ⟨line, hline, hmem⟩ := List.mem_flatMap.mp ((List.rdropWhile_prefix _ _).subset hpart)
  unfold partsOf at hmem
  split at hmem
  · rw [List.mem_singleton.mp hmem]
    exact hempty
  · exact h line hline part hmem

theorem forall_mem_wrapLines (hspace : P ' ') (limit : Nat) {lines : List (List Char)}
    (h : ∀ line ∈ lines, ∀ c ∈ line, P c) : ∀ line ∈ wrapLines limit lines, ∀ c ∈ line, P c := by
  refine forall_mem_wrapLines_of_parts (by simp) fun line hline => forall_mem_fillFrom limit false ?_
  rw [← List.forall_mem_flatten, flatten_runs]
  exact forall_mem_expandTabs hspace (h line hline) 0

end ModelMint.Text
