import CollectionLoops.Decimal.Shortest

/-!
The text of a number: never with an exponent. A whole number below 10^21 is written exactly, every
other finite number with the fewest digits that read back as it.
-/
namespace CollectionLoops.Decimal

/-- From here on a whole number is written with its shortest digits, filled up with zeros. -/
def exactBound : Nat := Nat.pow 10 21

/-- The decimal of digits `d` and exponent `e`, in units, written with all its zeros and no more. -/
def positional (d e : Nat) : List Char :=
  let ds := Nat.toDigits 10 d
  let n := places - e
  if places ≤ e then ds ++ List.replicate (e - places) '0'
  else if n < ds.length then ds.take (ds.length - n) ++ '.' :: ds.drop (ds.length - n)
  else ['0', '.'] ++ List.replicate (n - ds.length) '0' ++ ds

def Span.text (s : Span) : List Char :=
  let one := Nat.pow 10 places
  if s.value % one = 0 ∧ s.value / one < exactBound then Nat.toDigits 10 (s.value / one)
  else positional s.shortest.1 s.shortest.2

/-- The text of a number. Zero has no sign. -/
def numberText (n : Float) : String :=
  let bits := n.toBits.toNat
  let exponent := bits / Nat.pow 2 52 % Nat.pow 2 11
  let fraction := bits % Nat.pow 2 52
  let sign := if bits < Nat.pow 2 63 then [] else ['-']
  String.ofList <|
    if exponent = 2047 then
      if fraction = 0 then sign ++ "Infinity".toList else "NaN".toList
    else if exponent = 0 ∧ fraction = 0 then ['0']
    else sign ++ (Span.ofFields exponent fraction).text

end CollectionLoops.Decimal
