import CollectionLoops.Store

/-!
Structural equality. Two arrays are equal if they are the same one or hold equal items in order; two
objects if they are the same one or have the same keys with equal values, in whatever order; all else
is compared strictly. Two containers that hold themselves may have no answer.
-/
namespace CollectionLoops.Store

/-- Compares two values through at most `depth` levels of containers; no answer if that is too few.
Items are compared from the left, and the first difference ends the comparison. -/
def equalWithin? (s : Store) : Nat → Value → Value → Option Bool
  | 0, _, _ => none
  | depth + 1, .array a, .array b =>
    if a = b then some true
    else if (s.items a).size ≠ (s.items b).size then some false
    else ((s.items a).toList.zip (s.items b).toList).allM fun (v, w) => s.equalWithin? depth v w
  | depth + 1, .object a, .object b =>
    if a = b then some true
    else if (s.properties a).size ≠ (s.properties b).size then some false
    else (s.properties a).entries.allM fun (k, v) =>
      match (s.properties b).get? k with
      | some w => s.equalWithin? depth v w
      | none => some false
  | _ + 1, v, w => some (v.strictEquals w)

/-- Levels that suffice: on one path, a comparison that ends meets no pair of containers twice. -/
def equalityDepth (s : Store) : Nat := s.size * s.size + 1

/-- Whether the comparison ends, and with what answer. -/
def equal? (s : Store) (v w : Value) : Option Bool := s.equalWithin? s.equalityDepth v w

/-- Structural equality. -/
def equal (s : Store) (v w : Value) : Bool := s.equal? v w == some true

/-- Values that are not both arrays or both objects are compared strictly. -/
theorem equalWithin?_of_primitive (s : Store) (depth : Nat) {v w : Value}
    (ha : ∀ a b, v = .array a → w ≠ .array b) (ho : ∀ a b, v = .object a → w ≠ .object b) :
    s.equalWithin? (depth + 1) v w = some (v.strictEquals w) := by
  cases v <;> cases w <;> simp_all [equalWithin?]

/-- A container is equal to itself, whatever it holds. -/
@[simp] theorem equal_array_self (s : Store) (a : ArrayRef) : s.equal (.array a) (.array a) := by
  simp [equal, equal?, equalityDepth, equalWithin?]

@[simp] theorem equal_object_self (s : Store) (a : ObjectRef) : s.equal (.object a) (.object a) := by
  simp [equal, equal?, equalityDepth, equalWithin?]

end CollectionLoops.Store
