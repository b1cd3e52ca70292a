import CollectionLoops.Fault
import CollectionLoops.IndexKey

/-!
Values as collections. An array is a collection of its items, and an object of its properties under
index keys, as many as its `length` property says; any other value is an empty one. Main statement:
an element read by its index is the property read by the text of that index.
-/
namespace CollectionLoops

/-- The property under which a wrapped element keeps its value. -/
def nodeKey : String := "_node"

namespace Store

/-- The number of elements. A `length` that is no positive finite number counts as none, a fraction
is dropped, and what exceeds 64 bits is cut to the largest. -/
def length (s : Store) : Value → UInt64
  | .array r => .ofNatClamp (s.items r).size
  | .object r =>
    match (s.properties r).get? "length" with
    | some (.number n) => if n.isFinite && 0 < n then n.toUInt64 else 0
    | _ => 0
  | _ => 0

/-- The element at an index; a missing one is undefined. -/
def element (s : Store) (v : Value) (i : UInt64) : Value :=
  match v with
  | .array r => (s.items r)[i.toNat]?.getD .undefined
  | .object r => ((s.properties r).get? (IndexKey.ofIndex i)).getD .undefined
  | _ => .undefined

/-- The property under a key. Undefined and null cannot be read at all; an array has its length and
its items; other values that are no objects have no properties. -/
def read (s : Store) (v : Value) (key : String) : Except Fault Value :=
  match v with
  | .undefined | .null => .error (.unreadable v key)
  | .object r => .ok (((s.properties r).get? key).getD .undefined)
  | .array r =>
    if key = "length" then .ok (.ofIndex (s.length v))
    else .ok (((IndexKey.index? key).bind fun i => (s.items r)[i.toNat]?).getD .undefined)
  | _ => .ok .undefined

/-- The properties of an object that is a collection of the given values. -/
def arrayLike (vs : List Value) : Properties :=
  .ofList <| (vs.mapIdx fun i v => (i.repr, v)) ++
    [("length", .ofIndex (.ofNatClamp vs.length))]

/-- The properties of an object that wraps a value. -/
def wrapped (v : Value) : Properties := .ofList [(nodeKey, v)]

theorem ofIndex_ne_length (i : UInt64) : IndexKey.ofIndex i ≠ "length" := by
  intro h
  have := IndexKey.index?_ofIndex i
  rw [h] at this
  exact absurd this (by rw [show IndexKey.index? "length" = none from by decide]; simp)

/-- Reading by the text of an index is reading by the index, where reading is possible. -/
theorem read_ofIndex (s : Store) {v : Value} (h : v.isNullish = false) (i : UInt64) :
    s.read v (IndexKey.ofIndex i) = .ok (s.element v i) := by
  cases v <;> simp_all [read, element, ofIndex_ne_length, Value.isNullish]

end Store

end CollectionLoops
