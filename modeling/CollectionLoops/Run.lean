import CollectionLoops.Collection
import CollectionLoops.Log

/-!
Computations that may call functions. A computation ends with a value or a fault, and in both cases
what it did to the store, to the log and to the state of the host stays done.
-/
namespace CollectionLoops

/-- What a computation acts on. `σ` is the state that the functions of the host share. -/
structure World (σ : Type) where
  store : Store
  log : Array LogRecord
  host : σ

abbrev StoreRun := ExceptT Fault (StateM Store)

abbrev Run (σ : Type) := ExceptT Fault (StateM (World σ))

/-- The functions that can be called, by the index of their reference. What one does is arbitrary,
but a plain function is not given the binding. -/
structure Host (σ : Type) where
  plain : Nat → List Value → Run σ Value
  method : Nat → Value → List Value → Run σ Value

namespace Run

variable {σ : Type} {α : Type}

def store : Run σ Store := do return (← get).store

/-- Does on the store of the world what a computation does on a store. -/
def onStore (x : StoreRun α) : Run σ α := ExceptT.mk fun
  | ⟨store, log, host⟩ =>
    let (result, store) := x.run.run store
    (result, ⟨store, log, host⟩)

def updateStore (f : Store → Store) : Run σ Unit :=
  modify fun | ⟨store, log, host⟩ => ⟨f store, log, host⟩

def host : Run σ σ := do return (← get).host

def updateHost (f : σ → σ) : Run σ Unit :=
  modify fun | ⟨store, log, host⟩ => ⟨store, log, f host⟩

def record (r : LogRecord) : Run σ Unit :=
  modify fun | ⟨store, log, host⟩ => ⟨store, log.push r, host⟩

def newArray (vs : Array Value) : Run σ Value := onStore fun s =>
  let (r, s) := s.newArray vs
  (.ok (.array r), s)

def newObject (p : Properties) : Run σ Value := onStore fun s =>
  let (r, s) := s.newObject p
  (.ok (.object r), s)

def read (v : Value) (key : String) : Run σ Value := do
  match (← store).read v key with
  | .ok v => return v
  | .error e => throw e

end Run

namespace Run

variable {σ : Type} {α β : Type}

/-- What a computation ends with, and the world that it leaves. -/
def runOn (x : Run σ α) (w : World σ) : Except Fault α × World σ := x.run.run w

@[simp] theorem runOn_pure (a : α) (w : World σ) : (pure a : Run σ α).runOn w = (.ok a, w) := rfl

@[simp] theorem runOn_throw (e : Fault) (w : World σ) :
    (throw e : Run σ α).runOn w = (.error e, w) := rfl

/-- A fault ends a sequence of computations, in the world in which it arose. -/
theorem runOn_bind (x : Run σ α) (f : α → Run σ β) (w : World σ) :
    (x >>= f).runOn w =
      match x.runOn w with
      | (.ok a, w) => (f a).runOn w
      | (.error e, w) => (.error e, w) := by
  simp only [runOn, ExceptT.run_bind, StateT.run_bind]
  generalize (x.run.run w) = r
  obtain ⟨a | e, w⟩ := r <;> rfl

@[simp] theorem runOn_store (w : World σ) : (store : Run σ Store).runOn w = (.ok w.store, w) := rfl

@[simp] theorem runOn_onStore (x : StoreRun α) (w : World σ) :
    (onStore x).runOn w =
      ((x.run.run w.store).1, { w with store := (x.run.run w.store).2 }) := rfl

@[simp] theorem runOn_lift (x : StateM (World σ) α) (w : World σ) :
    runOn (ExceptT.lift x) w = (.ok (x.run w).1, (x.run w).2) := rfl

@[simp] theorem runOn_updateStore (f : Store → Store) (w : World σ) :
    (updateStore f).runOn w = (.ok (), { w with store := f w.store }) := rfl

@[simp] theorem runOn_newArray (vs : Array Value) (w : World σ) :
    (newArray vs).runOn w =
      (.ok (.array (w.store.newArray vs).1), { w with store := (w.store.newArray vs).2 }) := rfl

@[simp] theorem runOn_record (r : LogRecord) (w : World σ) :
    (record r).runOn w = (.ok (), { w with log := w.log.push r }) := rfl

@[simp] theorem runOn_read (v : Value) (key : String) (w : World σ) :
    (read v key).runOn w = (w.store.read v key, w) := by
  rw [read, runOn_bind, runOn_store]
  cases h : w.store.read v key <;> simp [h]

end Run

/-- Calls a value with a binding, if there is one. A method without a binding sees undefined. -/
def Host.call {σ : Type} (h : Host σ) (callee : Value) (binding : Option Value)
    (args : List Value) : Run σ Value :=
  match callee with
  | .function ⟨.plain, i⟩ => h.plain i args
  | .function ⟨.method, i⟩ => h.method i (binding.getD .undefined) args
  | _ => do throw (.notCallable (← Run.store) callee)

/-- A plain function is called alike with every binding. -/
theorem Host.call_plain {σ : Type} (h : Host σ) (i : Nat) (b b' : Option Value)
    (args : List Value) :
    h.call (.function ⟨.plain, i⟩) b args = h.call (.function ⟨.plain, i⟩) b' args := rfl

/-- To be bound to undefined and to be unbound is the same to a callee. -/
theorem Host.call_undefined {σ : Type} (h : Host σ) (callee : Value) (args : List Value) :
    h.call callee (some .undefined) args = h.call callee none args := by
  unfold Host.call
  split <;> rfl

end CollectionLoops
