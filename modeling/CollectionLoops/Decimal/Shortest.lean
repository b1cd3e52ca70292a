/-!
The decimal with the fewest digits that reads back as a given double. Every double, and every middle
between two neighbouring doubles, is a whole multiple of 10^-1076; all arithmetic here is in that
unit and exact. Main statement: a chosen decimal lies among the reals that are rounded to the double.
-/
namespace CollectionLoops.Decimal

/-- How many decimal places the unit has. -/
def places : Nat := 1076

/-- A positive double in units, between the ends of the interval of the reals rounded to it.
`closed` says whether the ends themselves are rounded to it. -/
structure Span where
  low : Nat
  value : Nat
  high : Nat
  closed : Bool
  deriving DecidableEq, Repr

namespace Span

/-- The span of a finite double, from the 11 bits of its exponent and the 52 bits of its fraction.
Below a power of two the doubles lie twice as close as above it. -/
def ofFields (exponent fraction : Nat) : Span :=
  let significand := if exponent = 0 then fraction else fraction + Nat.pow 2 52
  let half := Nat.pow 2 (max exponent 1) * Nat.pow 5 places
  let value := significand * (2 * half)
  { low := value - if fraction = 0 ∧ 1 < exponent then half / 2 else half
    value
    high := value + half
    closed := significand % 2 == 0 }

/-- Whether a number of units is rounded to the double. -/
def contains (s : Span) (d : Nat) : Bool :=
  if s.closed then s.low ≤ d && d ≤ s.high else s.low < d && d < s.high

/-- The multiple of `step` next to the value that is rounded to the double, if there is one, as a
number of steps. The nearer one wins; of two equally near ones, the larger. -/
def onGrid? (s : Span) (step : Nat) : Option Nat :=
  let below := s.value / step
  let above := below + 1
  match s.contains (below * step), s.contains (above * step) with
  | true, true =>
    if above * step - s.value ≤ s.value - below * step then some above else some below
  | true, false => some below
  | false, true => some above
  | false, false => none

/-- How many digits the value has. The factor is just below the logarithm of two. -/
def digitCount (s : Span) : Nat :=
  let p := s.value.log2 * 30102 / 100000
  if Nat.pow 10 (p + 1) ≤ s.value then p + 2 else p + 1

/-- Digits `d` and an exponent `e`, for `d * 10 ^ e` units. The value is cut to no digit, to one, and
so on, up to the first grid with a decimal that is rounded to the double; seventeen digits always
suffice. So no zero stands at the end of the digits. -/
def shortest (s : Span) : Nat × Nat :=
  let chosen := (List.range 18).findSome? fun n =>
    let e := s.digitCount - n
    (s.onGrid? (Nat.pow 10 e)).map fun d => (d, e)
  chosen.getD (s.value, 0)

theorem contains_of_onGrid? {s : Span} {step d : Nat} (h : s.onGrid? step = some d) :
    s.contains (d * step) = true := by
  simp only [onGrid?] at h
  split at h
  · split at h <;> simp_all
  all_goals simp_all

end Span

end CollectionLoops.Decimal
