import CollectionLoops.Script.Eval

/-!
Scripts: expressions evaluated one after another in a world that they share. A fault ends only the
expression that it arises in.
-/
namespace CollectionLoops.Script

/-- Calls the function of an index, which sees its arguments and its binding and no other local. -/
def perform (h : Host State) (index : Nat) (binding : Option Value) (args : List Value) :
    Run State Value := do
  match (← Run.host).functions[index]? with
  | none => return .undefined
  | some f =>
    if let some tag := f.tag then
      Run.updateHost fun
        | ⟨globals, functions, trace⟩ =>
          ⟨globals, functions, trace.push ⟨tag, args, binding⟩⟩
    f.body.eval h ⟨args, binding.getD .undefined⟩

def tooDeep : Fault := .rangeError "Maximum call depth exceeded" "call"

/-- The functions of a script, for calls nested at most `depth` deep. -/
def host : Nat → Host State
  | 0 => ⟨fun _ _ => throw tooDeep, fun _ _ _ => throw tooDeep⟩
  | depth + 1 =>
    ⟨fun index args => perform (host depth) index none args,
      fun index binding args => perform (host depth) index (some binding) args⟩

/-- How deep calls may be nested when a script is run. -/
def maxDepth : Nat := 1000000

/-- What one expression of a script left: its value or its fault, the tagged calls, the records
logged, and the store as it then was. -/
structure StepResult where
  outcome : Except Fault Value
  trace : Array CallRecord
  log : Array LogRecord
  store : Store

/-- A world without containers, functions and variables. -/
def start : World State := ⟨.empty, #[], .empty⟩

/-- Evaluates one expression outside of all functions. -/
def step (e : Expr) (w : World State) : StepResult × World State :=
  let (outcome, w) := (e.eval (host maxDepth) ⟨[], .undefined⟩).runOn w
  (⟨outcome, w.host.trace, w.log, w.store⟩,
    { w with log := #[], host := { w.host with trace := #[] } })

/-- Evaluates expressions one after another. -/
def run : List Expr → World State → List StepResult
  | [], _ => []
  | e :: es, w =>
    let (result, w) := step e w
    result :: run es w

end CollectionLoops.Script
