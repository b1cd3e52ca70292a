/-!
Values. Containers and functions are references: two of them are the same only if they are one, and
what a container holds is kept in a store.
-/
namespace CollectionLoops

structure ArrayRef where
  index : Nat
  deriving DecidableEq, Repr

structure ObjectRef where
  index : Nat
  deriving DecidableEq, Repr

/-- A plain function never sees its binding; a method does. -/
inductive FunctionKind
  | plain
  | method
  deriving DecidableEq, Repr

/-- Identity of a function. Functions of two kinds are never the same. -/
structure FunctionRef where
  kind : FunctionKind
  index : Nat
  deriving DecidableEq, Repr

/-- A value of a collection, a context, or what a callback returns. -/
inductive Value
  | undefined
  | null
  | boolean (b : Bool)
  | number (n : Float)
  | string (s : String)
  | array (r : ArrayRef)
  | object (r : ObjectRef)
  | function (r : FunctionRef)
  deriving DecidableEq, Inhabited

namespace Value

/-- Whether a condition on the value holds. Containers and functions always pass, empty or not. -/
def isTruthy : Value → Bool
  | .undefined | .null => false
  | .boolean b => b
  | .number n => n != 0.0 && !n.isNaN
  | .string s => !s.isEmpty
  | .array _ | .object _ | .function _ => true

/-- Primitives are compared by value, so that NaN differs from itself and the two zeros agree;
containers and functions by identity. -/
def strictEquals : Value → Value → Bool
  | .undefined, .undefined | .null, .null => true
  | .boolean a, .boolean b => a == b
  | .number a, .number b => a == b
  | .string a, .string b => a == b
  | .array a, .array b => a == b
  | .object a, .object b => a == b
  | .function a, .function b => a == b
  | _, _ => false

def asNumber? : Value → Option Float
  | .number n => some n
  | _ => none

/-- An index or a length as a number, rounded to the nearest from 2^53 up. -/
def ofIndex (i : UInt64) : Value := .number i.toFloat

def isContainer : Value → Bool
  | .array _ | .object _ => true
  | _ => false

/-- A value without properties to read. -/
def isNullish : Value → Bool
  | .undefined | .null => true
  | _ => false

@[simp] theorem isTruthy_undefined : isTruthy .undefined = false := rfl
@[simp] theorem isTruthy_boolean (b : Bool) : isTruthy (.boolean b) = b := rfl
@[simp] theorem isTruthy_array (r : ArrayRef) : isTruthy (.array r) = true := rfl
@[simp] theorem isTruthy_object (r : ObjectRef) : isTruthy (.object r) = true := rfl

theorem strictEquals_true_iff (v : Value) : v.strictEquals (.boolean true) ↔ v = .boolean true := by
  cases v <;> simp [strictEquals]

end Value

end CollectionLoops
