import CollectionLoops.Text.Blank

/-!
The argument text of a call: pieces between commas. Main statement: joining the pieces of a text with
commas gives the text back.
-/
namespace CollectionLoops.Source

/-- Cuts a text at its commas: the first piece, and the others in order. -/
def pieces : List Char → List Char × List (List Char)
  | [] => ([], [])
  | c :: s =>
    let (p, ps) := pieces s
    if c = ',' then ([], p :: ps) else (c :: p, ps)

@[simp] theorem pieces_nil : pieces [] = ([], []) := rfl

@[simp] theorem pieces_comma (s : List Char) :
    pieces (',' :: s) = ([], (pieces s).1 :: (pieces s).2) := by
  simp [pieces]

theorem pieces_cons {c : Char} (h : c ≠ ',') (s : List Char) :
    pieces (c :: s) = (c :: (pieces s).1, (pieces s).2) := by
  simp [pieces, h]

theorem intercalate_pieces (s : List Char) :
    [','].intercalate ((pieces s).1 :: (pieces s).2) = s := by
  induction s with
  | nil => rfl
  | cons c s ih =>
    by_cases h : c = ','
    · subst h
      rw [pieces_comma, List.intercalate_cons_cons, ih]
      rfl
    · rw [pieces_cons h]
      cases hp : (pieces s).2 with
      | nil => rw [hp] at ih; simpa using ih
      | cons q qs =>
        rw [hp, List.intercalate_cons_cons] at ih
        simpa [List.intercalate_cons_cons] using ih

theorem comma_notMem_pieces (s : List Char) :
    ∀ p ∈ (pieces s).1 :: (pieces s).2, ',' ∉ p := by
  induction s with
  | nil => simp
  | cons c s ih =>
    by_cases h : c = ','
    · subst h; simpa using ih
    · rw [pieces_cons h]
      simp only [List.mem_cons, forall_eq_or_imp] at ih ⊢
      exact ⟨by simp [Ne.symm h, ih.1], ih.2⟩

/-- The arguments of a bound call: the context that it binds, and what it passes on. -/
structure Arguments where
  context : List Char
  others : List (List Char)
  deriving DecidableEq, Repr

/-- White space around an argument is not part of it. -/
def Arguments.ofText (s : List Char) : Arguments :=
  ⟨Text.trim (pieces s).1, (pieces s).2.map Text.trim⟩

/-- The arguments that are passed on, with a comma and a space between two of them. -/
def Arguments.passedText (a : Arguments) : List Char := ", ".toList.intercalate a.others

end CollectionLoops.Source
