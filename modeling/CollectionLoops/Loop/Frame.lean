import CollectionLoops.Invoker

/-!
The frame of a loop: what its steps read and write while one call of it lasts.
-/
namespace CollectionLoops

/-- `that` is the second argument of the call: the context of a visit, the accumulator of a fold.
`seeded` tells whether it was passed at all, `out` is the result under construction, and `count` the
number of iterations once it is fixed. -/
structure Frame where
  receiver : Value
  callback : Value
  that : Value
  seeded : Bool
  out : Value
  invoker : Invoker
  count : UInt64

namespace Frame

variable {σ : Type}

/-- The frame at the beginning of a call. A second argument that was not passed is undefined. -/
def start (receiver callback : Value) (second : Option Value) : Frame where
  receiver
  callback
  that := second.getD .undefined
  seeded := second.isSome
  out := .undefined
  invoker := .unbound
  count := 0

def length (f : Frame) (s : Store) : UInt64 := s.length f.receiver

def element (f : Frame) (s : Store) (i : UInt64) : Value := s.element f.receiver i

/-- Calls the callback as the invoker says. -/
def invoke (f : Frame) (h : Host σ) (args : List Value) : Run σ Value :=
  f.invoker.invoke h f.callback args

/-- Calls the callback without a binding, whatever the invoker says. -/
def callPlain (f : Frame) (h : Host σ) (args : List Value) : Run σ Value :=
  h.call f.callback none args

/-- Calls the callback with the element at an index, the index and the receiver. -/
def visit (f : Frame) (h : Host σ) (i : UInt64) : Run σ Value := do
  f.invoke h [f.element (← Run.store) i, .ofIndex i, f.receiver]

end Frame

end CollectionLoops
