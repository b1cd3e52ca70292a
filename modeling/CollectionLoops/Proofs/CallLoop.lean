import CollectionLoops.Loop
import CollectionLoops.Proofs.Recording

/-!
Loops that call their callback once in each iteration. An iteration is cut into what it decides before
the call and what it makes of the result; a run of the loop is then a relation between the worlds at
its two ends and the calls between them. Main statement: every loop of this kind has such a run, it is
what the loop does, and a recording host finds exactly its calls.
-/
namespace CollectionLoops

variable {σ : Type}

theorem Run.ext {α : Type} {x y : Run σ α} (h : ∀ w, x.runOn w = y.runOn w) : x = y := funext h

/-- One iteration around its call: the arguments, which may be missing, the binding, what becomes of
the store, and whether the loop goes on. -/
structure CallStep where
  args : Store → Frame → UInt64 → Except Fault (List Value)
  binding : Frame → Option Value
  edit : Frame → UInt64 → List Value → Value → Store → Store
  flow : Frame → Value → Flow

namespace CallStep

def body (c : CallStep) : Body σ := fun h f i => do
  match c.args (← Run.store) f i with
  | .error e => throw e
  | .ok args =>
    let result ← h.call f.callback (c.binding f) args
    Run.updateStore (c.edit f i args result)
    return c.flow f result

/-- The iterations from an index on, with their calls, how they end and the world they leave. -/
inductive Runs (c : CallStep) (h : Host σ) :
    Nat → UInt64 → Frame → World σ → List (HostCall σ) → Except Fault Flow → World σ → Prop
  | finished (i f w) : Runs c h 0 i f w [] (.ok (.next f)) w
  | unready {left i f w e} (hargs : c.args w.store f i = .error e) :
      Runs c h (left + 1) i f w [] (.error e) w
  | uncallable {left i f w args} (hargs : c.args w.store f i = .ok args)
      (hcallback : ∀ r, f.callback ≠ .function r) :
      Runs c h (left + 1) i f w [] (.error (.notCallable w.store f.callback)) w
  | failed {left i f w args r x e} (hargs : c.args w.store f i = .ok args)
      (hcallback : f.callback = .function r) (hx : x = h.callOf r (c.binding f) args w)
      (hout : x.outcome = .error e) : Runs c h (left + 1) i f w [x] (.error e) x.after
  | stopped {left i f w args r x v u} (hargs : c.args w.store f i = .ok args)
      (hcallback : f.callback = .function r) (hx : x = h.callOf r (c.binding f) args w)
      (hout : x.outcome = .ok v) (hflow : c.flow f v = .done u) :
      Runs c h (left + 1) i f w [x] (.ok (.done u)) (x.after.update (c.edit f i args v))
  | continued {left i f w args r x v g calls o w'} (hargs : c.args w.store f i = .ok args)
      (hcallback : f.callback = .function r) (hx : x = h.callOf r (c.binding f) args w)
      (hout : x.outcome = .ok v) (hflow : c.flow f v = .next g)
      (rest : Runs c h left (i + 1) g (x.after.update (c.edit f i args v)) calls o w') :
      Runs c h (left + 1) i f w (x :: calls) o w'

/-- The index after some iterations that follow a first one. -/
theorem index_succ (i : UInt64) (k : Nat) : i + 1 + .ofNat k = i + .ofNat (k + 1) := by
  rw [UInt64.ofNat_add, UInt64.ofNat_one, UInt64.add_assoc, UInt64.add_comm 1]

section Body

variable {c : CallStep} {h : Host σ} {f : Frame} {i : UInt64} {w : World σ} {args : List Value}

theorem runOn_body_of_error {e : Fault} (hargs : c.args w.store f i = .error e) :
    (c.body h f i).runOn w = (.error e, w) := by
  simp [body, Run.runOn_bind, hargs]

theorem runOn_body_of_args (hargs : c.args w.store f i = .ok args) :
    (c.body h f i).runOn w =
      match (h.call f.callback (c.binding f) args).runOn w with
      | (.ok v, w') => (.ok (c.flow f v), w'.update (c.edit f i args v))
      | (.error e, w') => (.error e, w') := by
  simp only [body, Run.runOn_bind, Run.runOn_store, hargs]
  rcases (h.call f.callback (c.binding f) args).runOn w with ⟨_ | v, w'⟩ <;> rfl

variable {r : FunctionRef} {x : HostCall σ}

theorem runOn_body_of_callOf (hargs : c.args w.store f i = .ok args)
    (hcallback : f.callback = .function r) (hx : x = h.callOf r (c.binding f) args w) :
    (c.body h f i).runOn w =
      match x.outcome with
      | .ok v => (.ok (c.flow f v), x.after.update (c.edit f i args v))
      | .error e => (.error e, x.after) := by
  rw [runOn_body_of_args hargs, hcallback, Host.runOn_call_function, ← hx]
  cases x.outcome <;> rfl

theorem runOn_body_recording_of_callOf (hargs : c.args w.store f i = .ok args)
    (hcallback : f.callback = .function r) (hx : x = h.callOf r (c.binding f) args w)
    (l : List (HostCall σ)) :
    (c.body h.recording f i).runOn (w.withCalls l) =
      match x.outcome with
      | .ok v => (.ok (c.flow f v), (x.after.update (c.edit f i args v)).withCalls (l ++ [x]))
      | .error e => (.error e, x.after.withCalls (l ++ [x])) := by
  have hargs' : c.args (w.withCalls l).store f i = .ok args := hargs
  rw [runOn_body_of_args hargs', hcallback, Host.runOn_recording_call_function, ← hx]
  cases x.outcome <;> rfl

end Body

theorem runOn_iterate_succ (body : Body σ) (h : Host σ) (left : Nat) (i : UInt64) (f : Frame)
    (w : World σ) :
    (Loop.iterate body h (left + 1) i f).runOn w =
      match (body h f i).runOn w with
      | (.ok (.next g), w') => (Loop.iterate body h left (i + 1) g).runOn w'
      | (.ok (.done v), w') => (.ok (.done v), w')
      | (.error e, w') => (.error e, w') := by
  rw [Loop.iterate_succ, Run.runOn_bind]
  rcases (body h f i).runOn w with ⟨_ | g | v, w'⟩ <;> rfl

/-- Every loop has a run, which is what it does, and a recording host finds exactly its calls. -/
theorem exists_runs (c : CallStep) (h : Host σ) (left : Nat) (i : UInt64) (f : Frame)
    (w : World σ) :
    ∃ calls o w', c.Runs h left i f w calls o w' ∧
      (Loop.iterate c.body h left i f).runOn w = (o, w') ∧
      ∀ l, (Loop.iterate c.body h.recording left i f).runOn (w.withCalls l) =
        (o, w'.withCalls (l ++ calls)) := by
  -- on the number of iterations; a recording host does the same ones, and only its record grows
  induction left generalizing i f w with
  | zero => exact ⟨[], .ok (.next f), w, .finished i f w, rfl, fun l => by simp⟩
  | succ left ih =>
    simp only [runOn_iterate_succ]
    cases hargs : c.args w.store f i with
    | error e =>
      have hargs' (l) : c.args (w.withCalls l).store f i = .error e := hargs
      refine ⟨[], .error e, w, .unready hargs, ?_, fun l => ?_⟩
      · rw [runOn_body_of_error hargs]
      · rw [runOn_body_of_error (hargs' l), List.append_nil]
    | ok args =>
      by_cases hfunction : ∃ r, f.callback = .function r
      · obtain ⟨r, hcallback⟩ := hfunction
        obtain ⟨x, hx⟩ : ∃ x, x = h.callOf r (c.binding f) args w := ⟨_, rfl⟩
        simp only [runOn_body_of_callOf hargs hcallback hx,
          runOn_body_recording_of_callOf hargs hcallback hx]
        cases hout : x.outcome with
        | error e => exact ⟨[x], _, _, .failed hargs hcallback hx hout, rfl, fun l => rfl⟩
        | ok v =>
          cases hflow : c.flow f v with
          | done u =>
            simp only [hflow]
            exact ⟨[x], _, _, .stopped hargs hcallback hx hout hflow, rfl, fun l => rfl⟩
          | next g =>
            simp only [hflow]
            obtain ⟨calls, o, w', hruns, hrun, hrecorded⟩ :=
              ih (i + 1) g (x.after.update (c.edit f i args v))
            refine ⟨x :: calls, o, w', .continued hargs hcallback hx hout hflow hruns, hrun,
              fun l => ?_⟩
            rw [hrecorded, List.append_assoc]
            rfl
      · have hcallback : ∀ r, f.callback ≠ .function r := fun r hr => hfunction ⟨r, hr⟩
        have hargs' (l) : c.args (w.withCalls l).store f i = .ok args := hargs
        refine ⟨[], _, w, .uncallable hargs hcallback, ?_, fun l => ?_⟩
        · rw [runOn_body_of_args hargs, h.runOn_call_of_not_function hcallback]
        · rw [runOn_body_of_args (hargs' l), h.recording.runOn_call_of_not_function hcallback,
            List.append_nil, World.store_withCalls]

/-- What is found in a run is a call of the host. -/
theorem Runs.exists_eq_callOf {c : CallStep} {h : Host σ} {left : Nat} {i : UInt64} {f : Frame}
    {w w' : World σ} {calls : List (HostCall σ)} {o : Except Fault Flow}
    (run : c.Runs h left i f w calls o w') {x : HostCall σ} (hx : x ∈ calls) :
    ∃ r b args, x = h.callOf r b args x.before := by
  induction run with
  | failed _ _ hy | stopped _ _ hy =>
    obtain rfl := List.mem_singleton.1 hx
    exact ⟨_, _, _, by rw [hy]; rfl⟩
  | continued _ _ hy _ _ _ ih =>
    rcases List.mem_cons.1 hx with rfl | hx
    · exact ⟨_, _, _, by rw [hy]; rfl⟩
    · exact ih hx
  | _ => cases hx

section Inversion

variable {c : CallStep} {h : Host σ} {left : Nat} {i : UInt64} {f : Frame} {w w' : World σ}
  {calls : List (HostCall σ)} {o : Except Fault Flow}

/-- Where there is a call, there is a function that was called. -/
theorem Runs.exists_callback_eq (run : c.Runs h left i f w calls o w') {x : HostCall σ}
    (hx : x ∈ calls) : ∃ r, f.callback = .function r := by
  cases run with
  | failed _ hcallback | stopped _ hcallback | continued _ hcallback => exact ⟨_, hcallback⟩
  | _ => cases hx

/-- If an iteration keeps the frame, no call failed and none is missing, then the run came to its
end with the frame that it began with. -/
theorem Runs.eq_next (run : c.Runs h left i f w calls o w') (hflow : ∀ f v, c.flow f v = .next f)
    (hlength : calls.length = left) (hok : ∀ x ∈ calls, ∃ v, x.outcome = .ok v) :
    o = .ok (.next f) := by
  induction run with
  | finished => rfl
  | unready | uncallable => cases hlength
  | failed _ _ _ hfail =>
    obtain ⟨v, hv⟩ := hok _ (List.mem_singleton_self _)
    rw [hfail] at hv
    cases hv
  | stopped _ _ _ _ hdone =>
    rw [hflow] at hdone
    cases hdone
  | continued _ _ _ _ hnext _ ih =>
    rw [hflow] at hnext
    cases hnext
    exact ih (Nat.succ.inj hlength) fun x hx => hok x (List.mem_cons_of_mem _ hx)

/-- If an iteration keeps the frame, a run that does not fail ends with the frame that it began with. -/
theorem Runs.eq_next_of_ok (run : c.Runs h left i f w calls o w')
    (hflow : ∀ f v, c.flow f v = .next f) {flow : Flow} (ho : o = .ok flow) : flow = .next f := by
  induction run with
  | finished =>
    cases ho
    rfl
  | stopped _ _ _ _ hdone =>
    rw [hflow] at hdone
    cases hdone
  | continued _ _ _ _ hnext _ ih =>
    rw [hflow] at hnext
    cases hnext
    exact ih ho
  | _ => cases ho

/-- A run that came to its end made a call in every iteration. -/
theorem Runs.length_eq (run : c.Runs h left i f w calls o w') {g : Frame}
    (ho : o = .ok (.next g)) : calls.length = left := by
  induction run with
  | finished => rfl
  | continued _ _ _ _ _ _ ih => exact congrArg Nat.succ (ih ho)
  | _ => cases ho

theorem Runs.exists_flow_eq_done (run : c.Runs h left i f w calls o w') {u : Value}
    (ho : o = .ok (.done u)) : ∃ g v, c.flow g v = .done u := by
  induction run with
  | stopped _ _ _ _ hflow =>
    cases ho
    exact ⟨_, _, hflow⟩
  | continued _ _ _ _ _ _ ih => exact ih ho
  | _ => cases ho

theorem Runs.of_args_eq_error (run : c.Runs h (left + 1) i f w calls o w') {e : Fault}
    (hargs : c.args w.store f i = .error e) : calls = [] ∧ o = .error e ∧ w' = w := by
  cases run with
  | unready hargs' =>
    rw [hargs] at hargs'
    cases hargs'
    exact ⟨rfl, rfl, rfl⟩
  | uncallable hargs' | failed hargs' | stopped hargs' | continued hargs' =>
    rw [hargs] at hargs'
    cases hargs'

variable {args : List Value}

theorem Runs.of_not_function (run : c.Runs h (left + 1) i f w calls o w')
    (hargs : c.args w.store f i = .ok args) (hcallback : ∀ r, f.callback ≠ .function r) :
    calls = [] ∧ o = .error (.notCallable w.store f.callback) ∧ w' = w := by
  cases run with
  | unready hargs' =>
    rw [hargs] at hargs'
    cases hargs'
  | uncallable => exact ⟨rfl, rfl, rfl⟩
  | failed _ hfunction | stopped _ hfunction | continued _ hfunction =>
    exact absurd hfunction (hcallback _)

theorem Runs.of_callOf (run : c.Runs h (left + 1) i f w calls o w') {r : FunctionRef}
    {x : HostCall σ} (hargs : c.args w.store f i = .ok args) (hcallback : f.callback = .function r)
    (hx : x = h.callOf r (c.binding f) args w) :
    ∃ rest, calls = x :: rest ∧
      match x.outcome with
      | .error e => rest = [] ∧ o = .error e ∧ w' = x.after
      | .ok v =>
        match c.flow f v with
        | .done u => rest = [] ∧ o = .ok (.done u) ∧ w' = x.after.update (c.edit f i args v)
        | .next g => c.Runs h left (i + 1) g (x.after.update (c.edit f i args v)) rest o w' := by
  -- every rule that makes a call makes this one
  have hsame {args' : List Value} {r' : FunctionRef} {x' : HostCall σ}
      (hargs' : c.args w.store f i = .ok args') (hcallback' : f.callback = .function r')
      (hx' : x' = h.callOf r' (c.binding f) args' w) : args = args' ∧ x = x' := by
    rw [hargs] at hargs'
    rw [hcallback] at hcallback'
    cases hargs'
    cases hcallback'
    exact ⟨rfl, hx.trans hx'.symm⟩
  cases run with
  | unready hargs' =>
    rw [hargs] at hargs'
    cases hargs'
  | uncallable _ hnone => exact absurd hcallback (hnone r)
  | failed hargs' hcallback' hx' hout =>
    obtain ⟨rfl, rfl⟩ := hsame hargs' hcallback' hx'
    exact ⟨[], rfl, by rw [hout]; exact ⟨rfl, rfl, rfl⟩⟩
  | stopped hargs' hcallback' hx' hout hflow =>
    obtain ⟨rfl, rfl⟩ := hsame hargs' hcallback' hx'
    exact ⟨[], rfl, by simp only [hout, hflow]; exact ⟨trivial, trivial, trivial⟩⟩
  | continued hargs' hcallback' hx' hout hflow rest =>
    obtain ⟨rfl, rfl⟩ := hsame hargs' hcallback' hx'
    exact ⟨_, rfl, by simp only [hout, hflow]; exact rest⟩

/-- There is one run from a world. -/
theorem Runs.unique (run : c.Runs h left i f w calls o w') {calls' : List (HostCall σ)}
    {o' : Except Fault Flow} {w'' : World σ} (run' : c.Runs h left i f w calls' o' w'') :
    calls' = calls ∧ o' = o ∧ w'' = w' := by
  induction run generalizing calls' o' w'' with
  | finished =>
    cases run'
    exact ⟨rfl, rfl, rfl⟩
  | unready hargs => exact run'.of_args_eq_error hargs
  | uncallable hargs hcallback => exact run'.of_not_function hargs hcallback
  | failed hargs hcallback hx hout =>
    obtain ⟨rest, rfl, hrest⟩ := run'.of_callOf hargs hcallback hx
    rw [hout] at hrest
    obtain ⟨rfl, ho, hw⟩ := hrest
    exact ⟨rfl, ho, hw⟩
  | stopped hargs hcallback hx hout hflow =>
    obtain ⟨rest, rfl, hrest⟩ := run'.of_callOf hargs hcallback hx
    simp only [hout, hflow] at hrest
    obtain ⟨rfl, ho, hw⟩ := hrest
    exact ⟨rfl, ho, hw⟩
  | continued hargs hcallback hx hout hflow _ ih =>
    obtain ⟨rest, rfl, hrest⟩ := run'.of_callOf hargs hcallback hx
    simp only [hout, hflow] at hrest
    obtain ⟨hcalls, ho, hw⟩ := ih hrest
    exact ⟨congrArg _ hcalls, ho, hw⟩

end Inversion

end CallStep

namespace Loop

variable (l : Loop σ) (h : Host σ) (receiver callback : Value) (second : Option Value)

theorem runOn_enter (w : World σ) :
    (l.enter h receiver callback second).runOn w =
      match (l.prologue h (.start receiver callback second)).runOn w with
      | (.error e, w) => (.error e, w)
      | (.ok f, w) =>
        let counted := (l.count h (l.settle f)).run w
        (.ok { l.settle f with count := counted.1 }, counted.2) := by
  rw [enter, Run.runOn_bind]
  rcases (l.prologue h (.start receiver callback second)).runOn w with ⟨e | f, w'⟩
  · rfl
  · dsimp only
    rw [Run.runOn_bind, Run.runOn_lift]
    rfl

variable {l h receiver callback second} in
/-- A loop that binds its callback binds it to the context that the prologue left. -/
theorem invoker_of_enter (hbinds : l.bindsCallback = true) {f : Frame} {w w' : World σ}
    (hrun : (l.enter h receiver callback second).runOn w = (.ok f, w')) :
    f.invoker = .resolve f.that := by
  rw [runOn_enter] at hrun
  rcases hprologue : (l.prologue h (.start receiver callback second)).runOn w with ⟨e | g, w₁⟩
  · rw [hprologue] at hrun
    cases hrun
  · rw [hprologue] at hrun
    cases hrun
    rw [settle, if_pos hbinds]

theorem runOn_proceed (f : Frame) (w : World σ) :
    (l.proceed h f).runOn w =
      match (iterate l.body h f.count.toNat 0 f).runOn w with
      | (.ok o, w) => (l.finish h o).runOn w
      | (.error e, w) => (.error e, w) := by
  rw [proceed, Run.runOn_bind]
  rcases (iterate l.body h f.count.toNat 0 f).runOn w with ⟨_ | _, w'⟩ <;> rfl

theorem runOn_call (w : World σ) :
    (l.call h receiver callback second).runOn w =
      match (l.enter h receiver callback second).runOn w with
      | (.error e, w) => (.error e, w)
      | (.ok f, w) => (l.proceed h f).runOn
          { w with log := w.log.push (.iterations l.name f.count f.invoker.isBound) } := by
  rw [call, Run.runOn_bind]
  rcases (l.enter h receiver callback second).runOn w with ⟨e | f, w'⟩
  · rfl
  · dsimp only
    rw [Run.runOn_bind, Run.runOn_record]

end Loop

/-- A loop whose iterations are cut around their call; it is the same for every host. -/
structure CallLoop where
  name : String
  source : String
  bindsCallback : Bool
  prologue : StorePrologue
  count : StoreCount
  step : CallStep
  epilogue : StoreEpilogue

namespace CallLoop

def toLoop (l : CallLoop) : Loop σ where
  name := l.name
  source := l.source
  bindsCallback := l.bindsCallback
  prologue := l.prologue.lift
  count := l.count.lift
  body := l.step.body
  epilogue := l.epilogue.lift

/-- The frame of the first iteration, made from the one that the prologue left. -/
def enter (l : CallLoop) (s : Store) (f : Frame) : Frame :=
  let f := if l.bindsCallback then { f with invoker := .resolve f.that } else f
  { f with count := l.count s f }

def entered (l : CallLoop) (s : Store) (f : Frame) (w : World σ) : World σ :=
  ⟨s, w.log.push (.iterations l.name (l.enter s f).count (l.enter s f).invoker.isBound), w.host⟩

/-- How a call ends, and the world it leaves, when the iterations end as given. -/
def leave (l : CallLoop) : Except Fault Flow → World σ → Except Fault Value × World σ
  | .error e, w => (.error e, w)
  | .ok (.done v), w => (.ok v, w)
  | .ok (.next f), w =>
    (.ok ((l.epilogue f).run w.store).1, w.update fun s => ((l.epilogue f).run s).2)

/-- The calls of the loop from a frame, with the calls of its callback, its end and the world that it
leaves. -/
inductive Runs (l : CallLoop) (h : Host σ) (f : Frame) (w : World σ) :
    List (HostCall σ) → Except Fault Value → World σ → Prop
  | refused {e s} (hprologue : (l.prologue f).run.run w.store = (.error e, s)) :
      Runs l h f w [] (.error e) (w.update fun _ => s)
  | entered {g s calls o w'} (hprologue : (l.prologue f).run.run w.store = (.ok g, s))
      (iterations : l.step.Runs h (l.enter s g).count.toNat 0 (l.enter s g) (l.entered s g w)
        calls o w') : Runs l h f w calls (l.leave o w').1 (l.leave o w').2

section Runs

variable {l : CallLoop} {h : Host σ} {f : Frame} {w w' : World σ} {calls : List (HostCall σ)}
  {o : Except Fault Value} {s : Store}

theorem Runs.of_error (run : l.Runs h f w calls o w') {e : Fault}
    (hprologue : (l.prologue f).run.run w.store = (.error e, s)) :
    calls = [] ∧ o = .error e ∧ w' = w.update fun _ => s := by
  cases run with
  | refused hp =>
    rw [hprologue] at hp
    cases hp
    exact ⟨rfl, rfl, rfl⟩
  | entered hp =>
    rw [hprologue] at hp
    cases hp

theorem Runs.of_ok (run : l.Runs h f w calls o w') {g : Frame}
    (hprologue : (l.prologue f).run.run w.store = (.ok g, s)) :
    ∃ p w₁, l.step.Runs h (l.enter s g).count.toNat 0 (l.enter s g) (l.entered s g w) calls p w₁ ∧
      l.leave p w₁ = (o, w') := by
  cases run with
  | refused hp =>
    rw [hprologue] at hp
    cases hp
  | entered hp iterations =>
    rw [hprologue] at hp
    cases hp
    exact ⟨_, _, iterations, rfl⟩

end Runs

theorem runOn_enter (l : CallLoop) (h : Host σ) (receiver callback : Value)
    (second : Option Value) (w : World σ) :
    (l.toLoop.enter h receiver callback second).runOn w =
      match (l.prologue (.start receiver callback second)).run.run w.store with
      | (.error e, s) => (.error e, w.update fun _ => s)
      | (.ok g, s) => (.ok (l.enter s g), w.update fun _ => s) := by
  have hprologue : (l.toLoop.prologue h (.start receiver callback second)).runOn w =
      (((l.prologue (.start receiver callback second)).run.run w.store).1,
        w.update fun _ => ((l.prologue (.start receiver callback second)).run.run w.store).2) := rfl
  rw [Loop.runOn_enter, hprologue]
  rcases (l.prologue (.start receiver callback second)).run.run w.store with ⟨e | g, s⟩ <;> rfl

theorem runOn_proceed (l : CallLoop) (h : Host σ) (f : Frame) (w : World σ) :
    (l.toLoop.proceed h f).runOn w =
      let (o, w') := (Loop.iterate l.step.body h f.count.toNat 0 f).runOn w
      l.leave o w' := by
  have hbody : (l.toLoop : Loop σ).body = l.step.body := rfl
  rw [Loop.runOn_proceed, hbody]
  rcases (Loop.iterate l.step.body h f.count.toNat 0 f).runOn w with ⟨_ | _ | _, w'⟩ <;> rfl

theorem runOn_call (l : CallLoop) (h : Host σ) (receiver callback : Value)
    (second : Option Value) (w : World σ) :
    (l.toLoop.call h receiver callback second).runOn w =
      match (l.prologue (.start receiver callback second)).run.run w.store with
      | (.error e, s) => (.error e, w.update fun _ => s)
      | (.ok g, s) =>
        let (o, w') := (Loop.iterate l.step.body h (l.enter s g).count.toNat 0
          (l.enter s g)).runOn (l.entered s g w)
        l.leave o w' := by
  rw [Loop.runOn_call, runOn_enter]
  rcases (l.prologue (.start receiver callback second)).run.run w.store with ⟨e | g, s⟩
  · rfl
  · exact l.runOn_proceed h (l.enter s g) (l.entered s g w)

theorem runOn_call_of_ok {l : CallLoop} {h : Host σ} {receiver callback : Value}
    {second : Option Value} {w : World σ} {g : Frame} {s : Store}
    (hprologue : (l.prologue (.start receiver callback second)).run.run w.store = (.ok g, s)) :
    (l.toLoop.call h receiver callback second).runOn w =
      let ending := (Loop.iterate l.step.body h (l.enter s g).count.toNat 0 (l.enter s g)).runOn
        (l.entered s g w)
      l.leave ending.1 ending.2 := by
  rw [runOn_call, hprologue]

theorem leave_withCalls (l : CallLoop) (o : Except Fault Flow) (w : World σ)
    (calls : List (HostCall σ)) :
    l.leave o (w.withCalls calls) = ((l.leave o w).1, (l.leave o w).2.withCalls calls) := by
  rcases o with _ | _ | _ <;> rfl

/-- Every call has a run, which is what the call does, and a recording host finds exactly its
calls. -/
theorem exists_runs (l : CallLoop) (h : Host σ) (receiver callback : Value)
    (second : Option Value) (w : World σ) :
    ∃ calls o w', l.Runs h (.start receiver callback second) w calls o w' ∧
      (l.toLoop.call h receiver callback second).runOn w = (o, w') ∧
      ∀ k, (l.toLoop.call h.recording receiver callback second).runOn (w.withCalls k) =
        (o, w'.withCalls (k ++ calls)) := by
  have hplain := l.runOn_call h receiver callback second w
  have hrecorded (k) := l.runOn_call h.recording receiver callback second (w.withCalls k)
  simp only [World.store_withCalls] at hrecorded
  rcases hp : (l.prologue (.start receiver callback second)).run.run w.store with ⟨e | g, s⟩
  · simp only [hp] at hplain hrecorded
    refine ⟨[], .error e, _, .refused hp, hplain, fun k => ?_⟩
    rw [hrecorded, List.append_nil, World.update_withCalls]
  · simp only [hp] at hplain hrecorded
    obtain ⟨calls, o, w', hruns, hrun, hrec⟩ := l.step.exists_runs h (l.enter s g).count.toNat 0
      (l.enter s g) (l.entered s g w)
    refine ⟨calls, _, _, .entered hp hruns, ?_, fun k => ?_⟩
    · rw [hplain, hrun]
    · have hentered : l.entered s g (w.withCalls k) = (l.entered s g w).withCalls k := rfl
      rw [hrecorded, hentered, hrec, leave_withCalls]

end CallLoop

end CollectionLoops
