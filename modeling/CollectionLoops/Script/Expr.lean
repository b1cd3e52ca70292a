import CollectionLoops.Script.Steps

/-!
Expressions of the script language, in which callbacks are written and loops are called.
-/
namespace CollectionLoops.Script

inductive Arithmetic
  | add
  | sub
  | mul
  | div
  | less
  deriving DecidableEq, Repr

inductive Unary
  | wrap
  | truthy
  | not
  | asNumber
  | snapshot
  | pop
  | read (key : String)
  | text
  | quotedText
  | length
  | isBound
  | invokerText
  deriving DecidableEq, Repr

inductive Binary
  | arithmetic (op : Arithmetic)
  | push
  | delete
  | strictEquals
  | equal
  | lockedText
  | element
  deriving DecidableEq, Repr

/-- What a loop expression calls: the method of a name, by its name or by its typed entry point, or a
loop that is compiled there and then. -/
inductive Target
  | named (name : String)
  | typed (name : String)
  | custom (loop : LoopText)

inductive Expr
  | constant (v : Value)
  | repeated (text : String) (times : Nat)
  | array (items : List Expr)
  | object (properties : List (String × Expr))
  | arrayLike (items : List Expr)
  | range (n : Nat)
  | function (kind : FunctionKind) (tag : Option String) (body : Expr)
  | argument (i : Nat)
  | argumentCount
  | binding
  | variable (name : String)
  | assign (name : String) (e : Expr)
  | sequence (es : List Expr)
  | cond (c t e : Expr)
  | throw (e : Expr)
  | raise (fault : Fault)
  | attempt (e handler : Expr)
  | unary (op : Unary) (e : Expr)
  | binary (op : Binary) (a b : Expr)
  | put (container key value : Expr)
  | concat (es : List Expr)
  | call (callee : Expr) (args : List Expr)
  | callBound (callee binding : Expr) (args : List Expr)
  | invoke (context callback : Expr) (args : List Expr)
  | loop (target : Target) (receiver callback : Expr) (second : Option Expr)

/-- A function that a script made. Calls of a tagged function are recorded. -/
structure Function where
  kind : FunctionKind
  tag : Option String
  body : Expr

/-- A call of a tagged function; a plain function has no binding. -/
structure CallRecord where
  tag : String
  args : List Value
  binding : Option Value

/-- What the functions of a script share: the variables, the functions by index, and the calls
recorded so far. -/
structure State where
  globals : Properties
  functions : Array Function
  trace : Array CallRecord

def State.empty : State := ⟨.empty, #[], #[]⟩

/-- What a function body sees of its call. -/
structure Activation where
  args : List Value
  binding : Value

end CollectionLoops.Script
