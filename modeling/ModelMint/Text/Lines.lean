/-!
# Lines and blanks

Free text is cut at ten line ends; `\r\n` is one end.  A blank is any character
of the Unicode white-space classes, the four separators from 28 to 31 included.
-/

namespace ModelMint.Text

def isLineBreak (c : Char) : Bool :=
  [10, 11, 12, 13, 28, 29, 30, 0x85, 0x2028, 0x2029].contains c.toNat

/-- The lines without their ends; an end at the end of the text opens no further line. -/
def splitLines : List Char → List (List Char)
  | [] => []
  | '\r' :: '\n' :: rest => [] :: splitLines rest
  | c :: rest =>
    if isLineBreak c then [] :: splitLines rest
    else match splitLines rest with
      | [] => [[c]]
      | line :: lines => (c :: line) :: lines

/-- The parts between the marks, one more than there are marks. -/
def parts (mark : Char) : List Char → List (List Char)
  | [] => [[]]
  | c :: rest =>
    if c == mark then [] :: parts mark rest
    else match parts mark rest with
      | [] => [[c]]
      | part :: others => (c :: part) :: others

/-- Whether the word stands somewhere in the text; the empty word does. -/
def occursIn (word : List Char) : List Char → Bool
  | [] => word.isEmpty
  | c :: rest => word.isPrefixOf (c :: rest) || occursIn word rest

def isBlank (c : Char) : Bool :=
  let code := c.toNat
  (9 ≤ code && code ≤ 13) || (28 ≤ code && code ≤ 32) || code == 0x85 || code == 0xA0 ||
    code == 0x1680 || (0x2000 ≤ code && code ≤ 0x200A) || code == 0x2028 || code == 0x2029 ||
    code == 0x202F || code == 0x205F || code == 0x3000

theorem isBlank_of_isLineBreak {c : Char} (h : isLineBreak c = true) : isBlank c = true := by
  simp [isLineBreak] at h
  simp [isBlank]
  omega

theorem parts_ne_nil (mark : Char) (text : List Char) : parts mark text ≠ [] := by
  fun_induction parts mark text <;> simp_all

theorem parts_append {mark : Char} {first : List Char} (h : mark ∉ first) (rest : List Char) :
    parts mark (first ++ mark :: rest) = first :: parts mark rest := by
  induction first with
  | nil => simp [parts]
  | cons c first ih =>
      rw [List.mem_cons, not_or] at h
      simp [parts, ih h.2, Ne.symm h.1]

theorem parts_of_not_mem {mark : Char} {text : List Char} (h : mark ∉ text) :
    parts mark text = [text] := by
  induction text with
  | nil => rfl
  | cons c rest ih =>
      rw [List.mem_cons, not_or] at h
      simp [parts, ih h.2, Ne.symm h.1]

theorem not_mark_of_mem_parts (mark : Char) (text : List Char) :
    ∀ part ∈ parts mark text, mark ∉ part := by
  fun_induction parts mark text with
  | case1 => simp
  | case2 c rest hmark ih => simpa using ih
  | case3 c rest hmark hnil ih => exact absurd hnil (parts_ne_nil mark rest)
  | case4 c rest hmark part others hparts ih =>
      intro p hp
      rw [hparts] at ih
      rcases List.mem_cons.mp hp with rfl | hp
      · have hpart := ih part (by simp)
        have hc : mark ≠ c := by
          intro h
          simp [← h] at hmark
        simp [hc, hpart]
      · exact ih p (by simp [hp])

theorem not_isLineBreak_of_mem_splitLines (text : List Char) :
    ∀ line ∈ splitLines text, ∀ c ∈ line, isLineBreak c = false := by
  fun_induction splitLines text with
  | case1 => simp
  | case2 rest ih => simpa using ih
  | case3 c rest hc hbreak ih => simpa using ih
  | case4 c rest hc hbreak hrest ih => simp [hbreak]
  | case5 c rest hc hbreak line lines hrest ih =>
      intro l hl d hd
      rw [hrest] at ih
      rcases List.mem_cons.mp hl with rfl | hl
      · rcases List.mem_cons.mp hd with rfl | hd
        · simpa using hbreak
        · exact ih line (by simp) d hd
      · exact ih l (by simp [hl]) d hd

end ModelMint.Text
