import CollectionLoops.Loop.Frame
import CollectionLoops.Source.Branch

/-!
Loops in four slots. Each slot holds a source text and the step that carries it out; an empty slot
has a default. Every step may do what it likes to the world, and may call functions, the callback among
them; a count and an epilogue cannot fail. Steps that only act on the store have types of their own.
-/
namespace CollectionLoops

/-- What a body asks for after one iteration: to go on, or to end the loop with a value. -/
inductive Flow
  | next (frame : Frame)
  | done (value : Value)

abbrev Prologue (σ : Type) := Host σ → Frame → Run σ Frame

abbrev Count (σ : Type) := Host σ → Frame → StateM (World σ) UInt64

abbrev Body (σ : Type) := Host σ → Frame → UInt64 → Run σ Flow

/-- The value of a loop that came to its end. -/
abbrev Epilogue (σ : Type) := Host σ → Frame → StateM (World σ) Value

/-- A prologue that calls no function and acts only on the store. -/
abbrev StorePrologue := Frame → StoreRun Frame

/-- A count that only reads. -/
abbrev StoreCount := Store → Frame → UInt64

/-- An epilogue that calls no function and acts only on the store. -/
abbrev StoreEpilogue := Frame → StateM Store Value

section Lift

variable {σ : Type}

def StorePrologue.lift (p : StorePrologue) : Prologue σ := fun _ f => Run.onStore (p f)

def StoreCount.lift (c : StoreCount) : Count σ := fun _ f => return c (← get).store f

def StoreEpilogue.lift (e : StoreEpilogue) : Epilogue σ := fun _ f => fun
  | ⟨store, log, host⟩ =>
    let (v, store) := (e f).run store
    (v, ⟨store, log, host⟩)

variable (h : Host σ) (f : Frame) (w : World σ)

@[simp] theorem StorePrologue.runOn_lift (p : StorePrologue) :
    (p.lift h f).runOn w =
      (((p f).run.run w.store).1, { w with store := ((p f).run.run w.store).2 }) := rfl

@[simp] theorem StoreCount.run_lift (c : StoreCount) : (c.lift h f).run w = (c w.store f, w) := rfl

@[simp] theorem StoreEpilogue.run_lift (e : StoreEpilogue) :
    (e.lift h f).run w = (((e f).run w.store).1, { w with store := ((e f).run w.store).2 }) := rfl

end Lift

/-- A source text with the step that it stands for. -/
structure Fragment (α : Type) where
  source : String
  step : α

/-- A loop to be compiled; a slot may be empty. -/
structure LoopSpec (σ : Type) where
  prologue : Option (Fragment (Prologue σ)) := none
  count : Option (Fragment (Count σ)) := none
  body : Option (Fragment (Body σ)) := none
  epilogue : Option (Fragment (Epilogue σ)) := none

namespace Fragment

/-- The same text for a step that is made from the one there. -/
def map {α β : Type} (make : α → β) (x : Fragment α) : Fragment β := ⟨x.source, make x.step⟩

def noPrologue : Fragment StorePrologue := ⟨"", pure⟩

def receiverLength : Fragment StoreCount :=
  ⟨"receiver ? receiver.length : 0", fun s f => f.length s⟩

def noBody {σ : Type} : Fragment (Body σ) := ⟨"", fun _ f _ => pure (.next f)⟩

def returnReceiver : Fragment StoreEpilogue := ⟨"return receiver", fun f => pure f.receiver⟩

end Fragment

namespace LoopSpec

variable {σ : Type}

def assembleTexts (prologue count body epilogue : String) : String :=
  prologue ++ "\nfor (i = 0, n = " ++ count ++ "; i < n; ++i) \x7b " ++ body ++ " \x7d\n" ++ epilogue

def prologueFragment (p : LoopSpec σ) : Fragment (Prologue σ) :=
  p.prologue.getD (Fragment.noPrologue.map StorePrologue.lift)

def countFragment (p : LoopSpec σ) : Fragment (Count σ) :=
  p.count.getD (Fragment.receiverLength.map StoreCount.lift)

def bodyFragment (p : LoopSpec σ) : Fragment (Body σ) := p.body.getD .noBody

def epilogueFragment (p : LoopSpec σ) : Fragment (Epilogue σ) :=
  p.epilogue.getD (Fragment.returnReceiver.map StoreEpilogue.lift)

/-- The source text of the loop, before calls get their context branches. -/
def assemble (p : LoopSpec σ) : String :=
  assembleTexts p.prologueFragment.source p.countFragment.source p.bodyFragment.source
    p.epilogueFragment.source

def sources (p : LoopSpec σ) : List (Option String) :=
  [p.prologue.map (·.source), p.count.map (·.source), p.body.map (·.source),
    p.epilogue.map (·.source)]

/-- Without any fragment the loop visits each index of the receiver and does nothing. -/
example : assemble ({} : LoopSpec σ) =
    "\nfor (i = 0, n = receiver ? receiver.length : 0; i < n; ++i) \x7b  \x7d\nreturn receiver" := by
  rfl

end LoopSpec

end CollectionLoops
