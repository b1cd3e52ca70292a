import CollectionLoops.Run

/-!
Hosts that keep a record of the calls they get. A recorded computation acts on the same world, with
the calls so far beside the state of the host. Main statement: a call of a function through the
recording host is the call of it, put at the end of the record.
-/
namespace CollectionLoops

/-- One call of a function. `binding` is what the function could see of its binding, and `before` and
`after` are the worlds it found and left. -/
structure HostCall (σ : Type) where
  callee : FunctionRef
  binding : Option Value
  args : List Value
  before : World σ
  outcome : Except Fault Value
  after : World σ

/-- The state of a host with the calls that it got, the first one first. -/
structure Recorded (σ : Type) where
  host : σ
  calls : List (HostCall σ)

variable {σ : Type}

namespace World

def withCalls (w : World σ) (calls : List (HostCall σ)) : World (Recorded σ) :=
  ⟨w.store, w.log, ⟨w.host, calls⟩⟩

def unrecorded (w : World (Recorded σ)) : World σ := ⟨w.store, w.log, w.host.host⟩

def update (w : World σ) (edit : Store → Store) : World σ := { w with store := edit w.store }

/-- The world that a number of calls left, or this one if there were none. -/
def leftBy (w : World σ) (calls : List (HostCall σ)) : World σ :=
  (calls.getLast?.map (·.after)).getD w

@[simp] theorem unrecorded_withCalls (w : World σ) (calls : List (HostCall σ)) :
    (w.withCalls calls).unrecorded = w := rfl

@[simp] theorem host_calls_withCalls (w : World σ) (calls : List (HostCall σ)) :
    (w.withCalls calls).host.calls = calls := rfl

@[simp] theorem store_withCalls (w : World σ) (calls : List (HostCall σ)) :
    (w.withCalls calls).store = w.store := rfl

@[simp] theorem update_withCalls (w : World σ) (calls : List (HostCall σ)) (edit : Store → Store) :
    (w.withCalls calls).update edit = (w.update edit).withCalls calls := rfl

@[simp] theorem store_update (w : World σ) (edit : Store → Store) :
    (w.update edit).store = edit w.store := rfl

@[simp] theorem leftBy_nil (w : World σ) : w.leftBy [] = w := rfl

theorem leftBy_cons (w : World σ) (c : HostCall σ) (calls : List (HostCall σ)) :
    w.leftBy (c :: calls) = c.after.leftBy calls := by
  cases calls with
  | nil => rfl
  | cons d calls => simp [leftBy, List.getLast?_eq_some_getLast]

end World

/-- What a function sees of a binding. -/
def FunctionRef.sees (r : FunctionRef) (binding : Option Value) : Option Value :=
  match r.kind with
  | .plain => none
  | .method => some (binding.getD .undefined)

namespace Host

/-- The call of a function in a world. -/
def callOf (h : Host σ) (r : FunctionRef) (binding : Option Value) (args : List Value)
    (w : World σ) : HostCall σ where
  callee := r
  binding := r.sees binding
  args
  before := w
  outcome := ((h.call (.function r) binding args).runOn w).1
  after := ((h.call (.function r) binding args).runOn w).2

/-- Calls a function and puts the call at the end of the record. -/
def recorded (h : Host σ) (r : FunctionRef) (binding : Option Value) (args : List Value) :
    Run (Recorded σ) Value :=
  ExceptT.mk fun w =>
    let c := h.callOf r binding args w.unrecorded
    (c.outcome, c.after.withCalls (w.host.calls ++ [c]))

/-- The host that records. What a function calls in its turn is its own affair and is not recorded. -/
def recording (h : Host σ) : Host (Recorded σ) where
  plain i args := h.recorded ⟨.plain, i⟩ none args
  method i binding args := h.recorded ⟨.method, i⟩ (some binding) args

theorem callOf_some_getD (h : Host σ) (i : Nat) (binding : Option Value) (args : List Value)
    (w : World σ) :
    h.callOf ⟨.method, i⟩ (some (binding.getD .undefined)) args w =
      h.callOf ⟨.method, i⟩ binding args w := rfl

/-- A call with the binding that its function saw is the same call. -/
theorem callOf_sees (h : Host σ) (r : FunctionRef) (binding : Option Value) (args : List Value)
    (w : World σ) : h.callOf r (r.sees binding) args w = h.callOf r binding args w := by
  obtain ⟨kind, i⟩ := r
  cases kind <;> rfl

theorem runOn_call_function (h : Host σ) (r : FunctionRef) (binding : Option Value)
    (args : List Value) (w : World σ) :
    (h.call (.function r) binding args).runOn w =
      ((h.callOf r binding args w).outcome, (h.callOf r binding args w).after) := rfl

theorem runOn_recording_call_function (h : Host σ) (r : FunctionRef) (binding : Option Value)
    (args : List Value) (w : World σ) (calls : List (HostCall σ)) :
    (h.recording.call (.function r) binding args).runOn (w.withCalls calls) =
      ((h.callOf r binding args w).outcome,
        (h.callOf r binding args w).after.withCalls (calls ++ [h.callOf r binding args w])) := by
  obtain ⟨kind, i⟩ := r
  cases kind with
  | plain => rfl
  | method =>
    rw [← callOf_some_getD]
    rfl

/-- What is no function is not called, so that there is nothing to record. -/
theorem runOn_call_of_not_function (h : Host σ) {callee : Value}
    (hc : ∀ r, callee ≠ .function r) (binding : Option Value) (args : List Value) (w : World σ) :
    (h.call callee binding args).runOn w = (.error (.notCallable w.store callee), w) := by
  cases callee with
  | function r => exact absurd rfl (hc r)
  | _ => rfl

end Host

end CollectionLoops
