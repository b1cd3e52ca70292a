import CollectionLoops.Store.Text

/-!
Faults: what ends a computation without a value. A fault of type or range tells the operation that
raised it; a thrown value is kept as it is, so that whoever catches it has the same container.
-/
namespace CollectionLoops

/-- The message of an error of type may quote a value. If the text of the value has no end, there is no
message: the computation is still writing it, and nothing ever receives the fault. -/
inductive Fault
  | typeError (message : Option String) (operation : String)
  | rangeError (message operation : String)
  | thrown (value : Value)
  | unknownMethod (name : String)
  deriving DecidableEq

namespace Fault

def notCallable (s : Store) (v : Value) : Fault :=
  .typeError ((s.quotedText? v).map fun t => t ++ " is not a function")
    "loop_methods::value::Value::call"

def unreadable (v : Value) (key : String) : Fault :=
  .typeError
    (some ("Cannot read properties of " ++ String.ofList (Store.hiddenText v) ++ " (reading '" ++
      key ++ "')"))
    "loop_methods::value::Value::get"

def invalidLength : Fault :=
  .rangeError "Invalid array length" "loop_methods::catalog::preallocate"

/-- What stands for a computation that is to write a text without end. -/
def endless : Fault := .typeError none ""

/-- Whether nothing ever receives the fault. -/
def isEndless : Fault → Bool
  | .typeError message _ => message.isNone
  | _ => false

/-- What the fault says, with a thrown value as it now is; none if that has no end. -/
def message? (s : Store) : Fault → Option String
  | .typeError message _ => message
  | .rangeError message _ => some message
  | .thrown v => s.text? v
  | .unknownMethod name => some (name ++ " is not a loop method")

def text? (s : Store) : Fault → Option String
  | .typeError message operation => message.map fun m => "Type error in " ++ operation ++ ": " ++ m
  | .rangeError message operation => some ("Range error in " ++ operation ++ ": " ++ message)
  | .thrown v => (s.text? v).map fun t => "Thrown value: " ++ t
  | .unknownMethod name => some ("Loop method '" ++ name ++ "' not found")

def kind : Fault → String
  | .typeError .. => "TypeError"
  | .rangeError .. => "RangeError"
  | .thrown _ => "Throw"
  | .unknownMethod _ => "UnknownMethod"

/-- The fault with its kind and its fields, texts in quotes. -/
def debugText? (s : Store) (f : Fault) : Option String :=
  let raised (message operation : String) :=
    "message: " ++ Text.quote message ++ ", method: " ++ Text.quote operation
  let fields := match f with
    | .typeError message operation => message.map (raised · operation)
    | .rangeError message operation => some (raised message operation)
    | .thrown v => (s.quotedText? v).map fun t => "value: " ++ t
    | .unknownMethod name => some ("name: " ++ Text.quote name)
  fields.map fun fields => f.kind ++ " \x7b " ++ fields ++ " \x7d"

/-- The message as it is shown, empty if it has no end. -/
def message (s : Store) (f : Fault) : String := (f.message? s).getD ""

def text (s : Store) (f : Fault) : String := (f.text? s).getD ""

/-- Only undefined and null are unreadable. -/
theorem unreadable_of_isNullish {v : Value} (h : v.isNullish = true) (key : String) :
    unreadable v key = .typeError
      (some ("Cannot read properties of " ++ (if v = .null then "null" else "undefined") ++
        " (reading '" ++ key ++ "')"))
      "loop_methods::value::Value::get" := by
  have htext : String.ofList (Store.hiddenText v) = if v = .null then "null" else "undefined" := by
    cases v with
    | undefined => exact String.ofList_toList
    | null => exact String.ofList_toList
    | _ => cases h
  rw [unreadable, htext]

end Fault

end CollectionLoops
