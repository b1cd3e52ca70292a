import CollectionLoops.Source.Arguments
import CollectionLoops.Source.Segment

/-!
The context branch: a bound call `cb.call(that, a, b)` becomes
`(that ? cb.call(that, a, b) : cb(a, b))`, so that a call without a context passes no binding.
A call that stands inside its own branch already is kept.
-/
namespace CollectionLoops.Source

/-- The text in front of the bound arm. -/
def Arguments.branchHead (a : Arguments) : List Char := '(' :: a.context ++ " ? ".toList

/-- The text behind the bound arm: the unbound arm, and the end of the branch. -/
def Arguments.branchTail (a : Arguments) : List Char :=
  " : cb(".toList ++ a.passedText ++ "))".toList

/-- Whether the text around a call is its own branch. `before` is the text in front of the call,
the nearest character first. -/
def Arguments.isBranched (a : Arguments) (before after : List Char) : Bool :=
  a.branchHead.reverse.isPrefixOf before && a.branchTail.isPrefixOf after

/-- A call with argument text `s` after the branch was put around it, if it lacked one. -/
def branchCall (before s after : List Char) : List Char :=
  let a := Arguments.ofText s
  let call := (Segment.call s).text
  if a.isBranched before after then call else a.branchHead ++ call ++ a.branchTail

/-- Gives each call among the segments its branch. What is there already is looked for in the text
as it was read, never in the text under construction. -/
def branchSegments (before : List Char) : List Segment → List Char
  | [] => []
  | .plain c :: l => c :: branchSegments (c :: before) l
  | .call s :: l =>
    branchCall before s (textOf l) ++ branchSegments ((Segment.call s).text.reverse ++ before) l

def branchText (s : List Char) : List Char := branchSegments [] (segments s)

/-- Gives each complete bound call of a source text its context branch. -/
def branchOnContext (s : String) : String := String.ofList (branchText s.toList)

@[simp] theorem toList_branchOnContext (s : String) :
    (branchOnContext s).toList = branchText s.toList := by
  simp [branchOnContext]

@[simp] theorem branchSegments_nil (before : List Char) : branchSegments before [] = [] := rfl

@[simp] theorem branchSegments_plain (before : List Char) (c : Char) (l : List Segment) :
    branchSegments before (.plain c :: l) = c :: branchSegments (c :: before) l := rfl

/-- Whether a branch is there already is a question about the text in front of the call, read in its
own direction, and the text behind it. -/
theorem Arguments.isBranched_iff {a : Arguments} {before after : List Char} :
    a.isBranched before after ↔ a.branchHead <:+ before.reverse ∧ a.branchTail <+: after := by
  rw [isBranched, Bool.and_eq_true, List.isPrefixOf_iff_prefix, List.isPrefixOf_iff_prefix,
    ← List.reverse_prefix, List.reverse_reverse]

theorem branchSegments_map_plain (before s : List Char) :
    branchSegments before (s.map .plain) = s := by
  induction s generalizing before with
  | nil => rfl
  | cons c s ih => simp [ih]

end CollectionLoops.Source
