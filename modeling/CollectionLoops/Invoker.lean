import CollectionLoops.Run

/-!
How a loop calls its callback, settled once before the first iteration.
-/
namespace CollectionLoops

/-- Whether the callback is bound, and to what. -/
inductive Invoker
  | unbound
  | bound (context : Value)
  deriving DecidableEq

namespace Invoker

/-- A context binds the callback if it is truthy. -/
def resolve (context : Value) : Invoker := if context.isTruthy then .bound context else .unbound

def isBound : Invoker → Bool
  | .unbound => false
  | .bound _ => true

/-- The binding that a callback is called with. -/
def binding? : Invoker → Option Value
  | .unbound => none
  | .bound v => some v

def invoke {σ : Type} (k : Invoker) (h : Host σ) (callback : Value) (args : List Value) :
    Run σ Value :=
  h.call callback k.binding? args

def debugText? (s : Store) : Invoker → Option String
  | .unbound => some "Unbound"
  | .bound v => (s.quotedText? v).map fun t => "Bound(" ++ t ++ ")"

@[simp] theorem isBound_resolve (v : Value) : (resolve v).isBound = v.isTruthy := by
  cases h : v.isTruthy <;> simp [resolve, h, isBound]

theorem resolve_of_isTruthy {v : Value} (h : v.isTruthy = true) : resolve v = .bound v := by
  simp [resolve, h]

theorem resolve_of_not_isTruthy {v : Value} (h : v.isTruthy = false) : resolve v = .unbound := by
  simp [resolve, h]

end Invoker

end CollectionLoops
