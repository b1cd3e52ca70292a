import CollectionLoops.Method
import CollectionLoops.Proofs.CallLoop

/-!
The eight methods as loops that call their callback once in each iteration, and the calls that one of
them makes.
-/
namespace CollectionLoops

variable {σ : Type}

namespace CallStep

/-- An iteration that calls the callback with an element, its index and the receiver. -/
def visit (edit : Frame → UInt64 → List Value → Value → Store → Store)
    (flow : Frame → Value → Flow) : CallStep where
  args s f i := .ok [f.element s i, .number i.toFloat, f.receiver]
  binding f := f.invoker.binding?
  edit
  flow

/-- An iteration that folds the element at an index computed from the number of the iteration. -/
def fold (index : Frame → UInt64 → UInt64) : CallStep where
  args s f i := .ok [f.that, f.element s (index f i), .number (index f i).toFloat, f.receiver]
  binding _ := none
  edit _ _ _ _ s := s
  flow f result := .next { f with that := result }

/-- An iteration that calls the callback with what an element wraps. -/
def unwrap : CallStep where
  args s f i :=
    (s.read (f.element s i) nodeKey).map fun node => [node, f.element s i, .number i.toFloat]
  binding f := f.invoker.binding?
  edit _ _ _ _ s := s
  flow f _ := .next f

end CallStep

namespace Method

/-- The result goes to its place in the array under construction. -/
def place (f : Frame) (i : UInt64) (_ : List Value) (result : Value) (s : Store) : Store :=
  match f.out with
  | .array r => s.setItem r i.toNat result
  | _ => s

/-- The element, which is the first argument, goes to the end of the array under construction. -/
def keep (f : Frame) (_ : UInt64) (args : List Value) (result : Value) (s : Store) : Store :=
  match result.isTruthy, f.out with
  | true, .array r => s.push r (args.headD .undefined)
  | _, _ => s

def step : Method → CallStep
  | .each => .visit (fun _ _ _ _ s => s) fun f _ => .next f
  | .some => .visit (fun _ _ _ _ s => s) fun f result =>
    if result.strictEquals (.boolean true) then .done (.boolean true) else .next f
  | .every => .visit (fun _ _ _ _ s => s) fun f result =>
    .next { f with out := .boolean (result.isTruthy && f.out.isTruthy) }
  | .map => .visit place fun f _ => .next f
  | .filter => .visit keep fun f _ => .next f
  | .reduce => .fold fun f i => if f.seeded then i else i + 1
  | .reduceRight => .fold fun f i => f.count - i - 1
  | .legacy => .unwrap

theorem runOn_visit (f : Frame) (h : Host σ) (i : UInt64) (w : World σ) :
    (f.visit h i).runOn w =
      (h.call f.callback f.invoker.binding?
        [f.element w.store i, .number i.toFloat, f.receiver]).runOn w := rfl

theorem runOn_body_visit (edit : Frame → UInt64 → List Value → Value → Store → Store)
    (flow : Frame → Value → Flow) (h : Host σ) (f : Frame) (i : UInt64) (w : World σ) :
    ((CallStep.visit edit flow).body h f i).runOn w =
      match (f.visit h i).runOn w with
      | (.ok v, w') => (.ok (flow f v),
          w'.update (edit f i [f.element w.store i, .number i.toFloat, f.receiver] v))
      | (.error e, w') => (.error e, w') := by
  rw [CallStep.runOn_body_of_args rfl, runOn_visit]
  rfl

theorem runOn_foldAt (index : Frame → UInt64 → UInt64) (h : Host σ) (f : Frame) (i : UInt64)
    (w : World σ) :
    (foldAt h f (index f i)).runOn w = ((CallStep.fold index).body h f i).runOn w := by
  rw [CallStep.runOn_body_of_args rfl, foldAt, Run.runOn_bind, Run.runOn_store]
  dsimp only [Value.ofIndex]
  rw [Run.runOn_bind, Frame.callPlain, CallStep.fold]
  rcases (h.call f.callback none _).runOn w with ⟨_ | v, w'⟩ <;> rfl

theorem body_loop (m : Method) : (m.loop : Loop σ).body = m.step.body := by
  funext h f i
  refine Run.ext fun w => ?_
  cases m with
  | each =>
    change (eachBody h f i).runOn w = _
    rw [eachBody, Run.runOn_bind, step, runOn_body_visit]
    rcases (f.visit h i).runOn w with ⟨_ | v, w'⟩ <;> rfl
  | some =>
    change (someBody h f i).runOn w = _
    rw [someBody, Run.runOn_bind, step, runOn_body_visit]
    rcases (f.visit h i).runOn w with ⟨_ | v, w'⟩ <;> rfl
  | every =>
    change (everyBody h f i).runOn w = _
    rw [everyBody, Run.runOn_bind, step, runOn_body_visit]
    rcases (f.visit h i).runOn w with ⟨_ | v, w'⟩ <;> rfl
  | map =>
    change (mapBody h f i).runOn w = _
    rw [mapBody, Run.runOn_bind, step, runOn_body_visit]
    rcases (f.visit h i).runOn w with ⟨_ | v, w'⟩
    · rfl
    · cases hout : f.out <;> simp only [World.update, place, hout] <;> rfl
  | filter =>
    change (filterBody h f i).runOn w = _
    rw [step, runOn_body_visit, runOn_visit, filterBody, Run.runOn_bind, Run.runOn_store]
    dsimp only [Value.ofIndex]
    rw [Run.runOn_bind, Frame.invoke, Invoker.invoke]
    rcases (h.call f.callback f.invoker.binding? _).runOn w with ⟨_ | v, w'⟩
    · rfl
    · cases hv : v.isTruthy <;> cases hout : f.out <;>
        simp only [World.update, keep, hv, hout, ↓reduceIte, Bool.false_eq_true] <;> rfl
  | reduce =>
    change (foldAt h f (if f.seeded then i else i + 1)).runOn w = _
    rw [step, ← runOn_foldAt]
  | reduceRight =>
    change (foldAt h f (f.count - i - 1)).runOn w = _
    rw [step, ← runOn_foldAt]
  | legacy =>
    change (legacyBody h f i).runOn w = _
    rw [legacyBody, Run.runOn_bind, Run.runOn_store]
    dsimp only
    rw [Run.runOn_bind, Run.runOn_read, step]
    cases hread : w.store.read (f.element w.store i) nodeKey with
    | error e =>
      have hargs : CallStep.unwrap.args w.store f i = .error e := by
        simp [CallStep.unwrap, hread, Except.map]
      rw [CallStep.runOn_body_of_error hargs]
    | ok node =>
      have hargs : CallStep.unwrap.args w.store f i =
          .ok [node, f.element w.store i, .number i.toFloat] := by
        simp [CallStep.unwrap, hread, Except.map]
      rw [CallStep.runOn_body_of_args hargs]
      dsimp only [Value.ofIndex]
      rw [Run.runOn_bind, Frame.invoke, Invoker.invoke, CallStep.unwrap]
      rcases (h.call f.callback f.invoker.binding? _).runOn w with ⟨_ | v, w'⟩ <;> rfl

def prologue : Method → StorePrologue
  | .each | .some => Fragment.noPrologue.step
  | .every => startTrue
  | .map => preallocate
  | .filter => startEmpty
  | .reduce => seedFirst
  | .reduceRight => seedLast
  | .legacy => bindReceiver

def count : Method → StoreCount
  | .reduce | .reduceRight => foldCount.step
  | _ => Fragment.receiverLength.step

def epilogue : Method → StoreEpilogue
  | .each | .legacy => Fragment.returnReceiver.step
  | .some => returnFalse.step
  | .every | .map | .filter => returnOut.step
  | .reduce | .reduceRight => returnThat.step

/-- A method as a loop whose iterations are cut around their call. No other step calls a function. -/
def callLoop (m : Method) : CallLoop where
  name := m.name
  source := (m.loop (σ := Unit)).source
  bindsCallback := (m.loop (σ := Unit)).bindsCallback
  prologue := m.prologue
  count := m.count
  step := m.step
  epilogue := m.epilogue

theorem loop_eq (m : Method) : (m.loop : Loop σ) = m.callLoop.toLoop := by
  have hbody : (m.loop : Loop σ).body = m.callLoop.toLoop.body := m.body_loop
  have h (l : Loop σ) (b : Body σ) (hb : l.body = b) : l = { l with body := b } := by rw [← hb]
  rw [h m.loop _ hbody]
  cases m <;> rfl

/-- The calls that a method makes of its callback, the first one first, as the recording host finds
them: by `runOn_call_recording`, to record them changes nothing else. -/
def calls (m : Method) (h : Host σ) (receiver callback : Value) (second : Option Value)
    (w : World σ) : List (HostCall σ) :=
  ((m.call h.recording receiver callback second).runOn (w.withCalls [])).2.host.calls

section Run

variable (m : Method) (h : Host σ) (receiver callback : Value) (second : Option Value) (w : World σ)

theorem exists_runs_call : ∃ o w',
    m.callLoop.Runs h (.start receiver callback second) w (m.calls h receiver callback second w) o
      w' ∧
    (m.call h receiver callback second).runOn w = (o, w') ∧
    (m.call h.recording receiver callback second).runOn (w.withCalls []) =
      (o, w'.withCalls (m.calls h receiver callback second w)) := by
  obtain ⟨calls, o, w', hruns, hrun, hrec⟩ :=
    m.callLoop.exists_runs h receiver callback second w
  have hrec : (m.call h.recording receiver callback second).runOn (w.withCalls []) =
      (o, w'.withCalls calls) := by
    rw [call, loop_eq]
    exact hrec []
  have hcalls : m.calls h receiver callback second w = calls := by rw [Method.calls, hrec]; rfl
  refine ⟨o, w', hcalls ▸ hruns, ?_, hcalls ▸ hrec⟩
  rw [call, loop_eq]
  exact hrun

theorem runOn_call_recording :
    (m.call h.recording receiver callback second).runOn (w.withCalls []) =
      (((m.call h receiver callback second).runOn w).1,
        ((m.call h receiver callback second).runOn w).2.withCalls
          (m.calls h receiver callback second w)) := by
  obtain ⟨o, w', -, hrun, hrec⟩ := m.exists_runs_call h receiver callback second w
  rw [hrec, hrun]

theorem runs_call :
    m.callLoop.Runs h (.start receiver callback second) w (m.calls h receiver callback second w)
      ((m.call h receiver callback second).runOn w).1
      ((m.call h receiver callback second).runOn w).2 := by
  obtain ⟨o, w', hruns, hrun, -⟩ := m.exists_runs_call h receiver callback second w
  rw [hrun]
  exact hruns

theorem exists_eq_callOf {x : HostCall σ} (hx : x ∈ m.calls h receiver callback second w) :
    ∃ r b args, x = h.callOf r b args x.before := by
  cases hp : (m.callLoop.prologue (.start receiver callback second)).run.run w.store with
  | mk result s =>
    cases result with
    | error e =>
      rw [((m.runs_call h receiver callback second w).of_error hp).1] at hx
      cases hx
    | ok g =>
      obtain ⟨o, w', hruns, -⟩ := (m.runs_call h receiver callback second w).of_ok hp
      exact hruns.exists_eq_callOf hx

end Run

theorem run_preallocate (f : Frame) (s : Store) :
    (preallocate f).run.run s =
      if maxArrayLength < f.length s then (.error .invalidLength, s)
      else (.ok { f with out := .array ⟨s.arrays.size⟩ },
        (s.newArray (Array.replicate (f.length s).toNat .undefined)).2) := by
  have h : (preallocate f).run.run s = (ExceptT.run (m := StateM Store)
      (if maxArrayLength < f.length s then throw Fault.invalidLength
      else do
        let made := Store.newArray (← get) (Array.replicate (f.length s).toNat .undefined)
        set made.2
        return { f with out := .array made.1 })).run s := rfl
  rw [h]
  split <;> rfl

theorem run_startEmpty (f : Frame) (s : Store) :
    (startEmpty f).run.run s =
      (.ok { f with out := .array ⟨s.arrays.size⟩ }, (s.newArray #[]).2) := rfl

/-- Whether the outcome of a call ends the loop of a method. -/
def Ends (m : Method) : Except Fault Value → Prop
  | .error _ => True
  | .ok v => m = .some ∧ v = .boolean true

/-- Two frames of one call: what no iteration writes is the same in both. -/
structure SameCall (f g : Frame) : Prop where
  receiver : g.receiver = f.receiver
  callback : g.callback = f.callback
  invoker : g.invoker = f.invoker
  seeded : g.seeded = f.seeded
  count : g.count = f.count

theorem SameCall.trans {f g k : Frame} (h : SameCall f g) (h' : SameCall g k) : SameCall f k where
  receiver := h'.receiver.trans h.receiver
  callback := h'.callback.trans h.callback
  invoker := h'.invoker.trans h.invoker
  seeded := h'.seeded.trans h.seeded
  count := h'.count.trans h.count

variable {m : Method} {f g : Frame} {v : Value}

theorem flow_eq_done {u : Value} (h : m.step.flow f v = .done u) : m.Ends (.ok v) := by
  cases m with
  | some =>
    simp only [step, CallStep.visit] at h
    split at h
    · next hv => exact ⟨rfl, (Value.strictEquals_true_iff v).1 hv⟩
    · cases h
  | _ => cases h

theorem flow_eq_next (h : m.step.flow f v = .next g) : ¬ m.Ends (.ok v) ∧ SameCall f g := by
  cases m with
  | some =>
    simp only [step, CallStep.visit] at h
    split at h
    · cases h
    · next hv =>
      cases h
      exact ⟨fun he => hv ((Value.strictEquals_true_iff v).2 he.2), rfl, rfl, rfl, rfl, rfl⟩
  | _ =>
    cases h
    exact ⟨nofun, rfl, rfl, rfl, rfl, rfl⟩

end Method

end CollectionLoops
