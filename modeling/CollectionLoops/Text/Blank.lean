/-!
White space at the two ends of a piece of text. Main statement: trimming a trimmed text changes
nothing.
-/
namespace CollectionLoops.Text

/-- The `White_Space` property of Unicode; U+180E, U+200B and U+FEFF do not have it. -/
def isBlank (c : Char) : Bool :=
  let n := c.toNat
  (0x9 ≤ n && n ≤ 0xd) || n == 0x20 || n == 0x85 || n == 0xa0 || n == 0x1680 ||
    (0x2000 ≤ n && n ≤ 0x200a) || n == 0x2028 || n == 0x2029 || n == 0x202f || n == 0x205f ||
    n == 0x3000

/-- Drops the blank characters at the end. -/
def trimEnd : List Char → List Char
  | [] => []
  | c :: s =>
    match trimEnd s with
    | [] => if isBlank c then [] else [c]
    | d :: t => c :: d :: t

/-- Drops the blank characters at both ends. -/
def trim (s : List Char) : List Char := trimEnd (s.dropWhile isBlank)

@[simp] theorem trim_nil : trim [] = [] := rfl

/-- A character is kept if it is not blank or if something after it is kept. -/
theorem trimEnd_cons (c : Char) (s : List Char) :
    trimEnd (c :: s) = if trimEnd s = [] ∧ isBlank c then [] else c :: trimEnd s := by
  cases h : trimEnd s <;> cases hc : isBlank c <;> simp [trimEnd, h, hc]

@[simp] theorem trimEnd_trimEnd (s : List Char) : trimEnd (trimEnd s) = trimEnd s := by
  induction s with
  | nil => rfl
  | cons c s ih =>
    rw [trimEnd_cons]
    split
    · rfl
    · rename_i h
      rw [trimEnd_cons, ih, if_neg h]

/-- What is left after the blanks in front begins with a character that is not blank. -/
theorem dropWhile_isBlank_trimEnd (s : List Char) :
    (trimEnd (s.dropWhile isBlank)).dropWhile isBlank = trimEnd (s.dropWhile isBlank) := by
  induction s with
  | nil => rfl
  | cons c s ih =>
    by_cases h : isBlank c
    · rwa [List.dropWhile_cons_of_pos h]
    · rw [List.dropWhile_cons_of_neg h, trimEnd_cons, if_neg (by simp [h]),
        List.dropWhile_cons_of_neg h]

@[simp] theorem trim_trim (s : List Char) : trim (trim s) = trim s := by
  rw [trim, trim, dropWhile_isBlank_trimEnd, trimEnd_trimEnd]

end CollectionLoops.Text
