import CollectionLoops.Method.Folds
import CollectionLoops.Method.Visitors

/-!
The eight loop methods of a collection, by name and by typed entry point.
-/
namespace CollectionLoops

inductive Method
  | each
  | some
  | every
  | map
  | filter
  | reduce
  | reduceRight
  | legacy
  deriving DecidableEq, Repr

namespace Method

/-- All methods, in the order in which a collection gets them. -/
def all : List Method := [.each, .some, .every, .map, .filter, .reduce, .reduceRight, .legacy]

def name : Method → String
  | .each => "each"
  | .some => "some"
  | .every => "every"
  | .map => "map"
  | .filter => "filter"
  | .reduce => "reduce"
  | .reduceRight => "reduceRight"
  | .legacy => "legacy"

def ofName? (name : String) : Option Method := all.find? (·.name == name)

variable {σ : Type}

def spec : Method → LoopSpec σ
  | .each => eachSpec
  | .some => someSpec
  | .every => everySpec
  | .map => mapSpec
  | .filter => filterSpec
  | .reduce => reduceSpec
  | .reduceRight => reduceRightSpec
  | .legacy => legacySpec

def loop (m : Method) : Loop σ := m.spec.compile m.name

def call (m : Method) (h : Host σ) (receiver callback : Value) (second : Option Value) :
    Run σ Value :=
  m.loop.call h receiver callback second

def find (name : String) : Except Fault Method :=
  match ofName? name with
  | .some m => .ok m
  | .none => .error (.unknownMethod name)

def invoke (h : Host σ) (name : String) (receiver callback : Value) (second : Option Value) :
    Run σ Value := do
  match find name with
  | .ok m => m.call h receiver callback second
  | .error e => throw e

theorem mem_all (m : Method) : m ∈ all := by cases m <;> decide

@[simp] theorem ofName?_name (m : Method) : ofName? m.name = Option.some m := by
  cases m <;> decide

end Method

namespace Value

variable {σ : Type}

def each (receiver : Value) (h : Host σ) (callback : Value) (context : Option Value) :
    Run σ Value :=
  Method.each.call h receiver callback context

/-- Whether the callback gives the boolean true for some element of a collection. -/
def someTrue (receiver : Value) (h : Host σ) (callback : Value) (context : Option Value) :
    Run σ Bool :=
  return (← Method.some.call h receiver callback context).isTruthy

/-- Whether the callback gives something truthy for every element of a collection. -/
def everyTruthy (receiver : Value) (h : Host σ) (callback : Value) (context : Option Value) :
    Run σ Bool :=
  return (← Method.every.call h receiver callback context).isTruthy

def map (receiver : Value) (h : Host σ) (callback : Value) (context : Option Value) : Run σ Value :=
  Method.map.call h receiver callback context

def filter (receiver : Value) (h : Host σ) (callback : Value) (context : Option Value) :
    Run σ Value :=
  Method.filter.call h receiver callback context

def reduce (receiver : Value) (h : Host σ) (callback : Value) (seed : Option Value) : Run σ Value :=
  Method.reduce.call h receiver callback seed

def reduceRight (receiver : Value) (h : Host σ) (callback : Value) (seed : Option Value) :
    Run σ Value :=
  Method.reduceRight.call h receiver callback seed

def legacy (receiver : Value) (h : Host σ) (callback : Value) : Run σ Value :=
  Method.legacy.call h receiver callback none

end Value

end CollectionLoops
