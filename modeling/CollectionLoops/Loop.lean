import CollectionLoops.Loop.Spec

/-!
Compiled loops. A call runs the prologue, settles how the callback is invoked and how many iterations
there are, logs both, runs the iterations, and ends with the epilogue unless an iteration ended it.
-/
namespace CollectionLoops

/-- A loop that can be called any number of times. -/
structure Loop (σ : Type) where
  name : String
  source : String
  bindsCallback : Bool
  prologue : Prologue σ
  count : Count σ
  body : Body σ
  epilogue : Epilogue σ

/-- Gives the calls of a source text their context branches. A loop consults the context only if some
call got one. -/
def LoopSpec.compile {σ : Type} (p : LoopSpec σ) (name : String) : Loop σ :=
  let assembled := p.assemble
  let source := Source.branchOnContext assembled
  { name
    source
    bindsCallback := source != assembled
    prologue := p.prologueFragment.step
    count := p.countFragment.step
    body := p.bodyFragment.step
    epilogue := p.epilogueFragment.step }

namespace Loop

variable {σ : Type}

def compiledRecord (l : Loop σ) : LogRecord := .compiled l.name l.source

def debugText (l : Loop σ) : String :=
  "LoopMethod \x7b name: " ++ Text.quote l.name ++ ", source: " ++ Text.quote l.source ++ " \x7d"

/-- Runs `left` iterations from index `i` on, until one ends the loop. -/
def iterate (body : Body σ) (h : Host σ) : Nat → UInt64 → Frame → Run σ Flow
  | 0, _, f => pure (.next f)
  | left + 1, i, f => do
    match ← body h f i with
    | .next f => iterate body h left (i + 1) f
    | .done v => pure (.done v)

/-- The frame once the prologue has run: a loop that binds its callback settles the invoker. -/
def settle (l : Loop σ) (f : Frame) : Frame :=
  if l.bindsCallback then { f with invoker := .resolve f.that } else f

/-- Runs the prologue and fixes the number of iterations: the frame of the first one. -/
def enter (l : Loop σ) (h : Host σ) (receiver callback : Value) (second : Option Value) :
    Run σ Frame := do
  let f ← l.prologue h (.start receiver callback second)
  let count ← ExceptT.lift (l.count h (l.settle f))
  return { l.settle f with count }

def finish (l : Loop σ) (h : Host σ) : Flow → Run σ Value
  | .next f => ExceptT.lift (l.epilogue h f)
  | .done v => pure v

/-- Runs the iterations from the frame of the first one on, and ends the loop. -/
def proceed (l : Loop σ) (h : Host σ) (f : Frame) : Run σ Value := do
  l.finish h (← iterate l.body h f.count.toNat 0 f)

def call (l : Loop σ) (h : Host σ) (receiver callback : Value) (second : Option Value) :
    Run σ Value := do
  let f ← l.enter h receiver callback second
  Run.record (.iterations l.name f.count f.invoker.isBound)
  l.proceed h f

@[simp] theorem iterate_zero (body : Body σ) (h : Host σ) (i : UInt64) (f : Frame) :
    iterate body h 0 i f = pure (.next f) := rfl

theorem iterate_succ (body : Body σ) (h : Host σ) (left : Nat) (i : UInt64) (f : Frame) :
    iterate body h (left + 1) i f = (do
      match ← body h f i with
      | .next f => iterate body h left (i + 1) f
      | .done v => pure (.done v)) := rfl

end Loop

end CollectionLoops
