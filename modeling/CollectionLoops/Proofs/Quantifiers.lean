import CollectionLoops.Proofs.FilterResults
import CollectionLoops.Proofs.OwnEffects

/-!
The two methods that answer yes or no. `some` stops at the first result that is the boolean true, and
`every` goes to the end and keeps whether all results were truthy. Main statement: if no call fails,
the one tells whether there is a call with the result true, and the other whether all calls accept; and
each gives the same answer by its name and by its typed entry point.
-/
namespace CollectionLoops

variable {σ : Type}

/-- What gives booleans gives back what its truth was read from. -/
theorem Run.runOn_eq_map_isTruthy {x : Run σ Value} {w : World σ} {y : Except Fault Bool × World σ}
    (hy : (do return (← x).isTruthy : Run σ Bool).runOn w = y)
    (hx : ∀ v, (x.runOn w).1 = .ok v → ∃ b, v = .boolean b) :
    x.runOn w = (y.1.map .boolean, y.2) := by
  rw [Run.runOn_bind] at hy
  rw [← hy]
  rcases hrun : x.runOn w with ⟨e | v, w'⟩
  · rfl
  · obtain ⟨b, rfl⟩ := hx v (by rw [hrun])
    rfl

theorem Run.runOn_isTruthy_of_boolean {x : Run σ Value} {w w' : World σ} {b : Bool}
    (hx : x.runOn w = (.ok (.boolean b), w')) :
    (do return (← x).isTruthy : Run σ Bool).runOn w = (.ok b, w') := by
  rw [Run.runOn_bind, hx]
  rfl

namespace Method

theorem invoke_name (m : Method) (h : Host σ) (receiver callback : Value)
    (second : Option Value) :
    invoke h m.name receiver callback second = m.call h receiver callback second := by
  simp only [invoke, find, ofName?_name]

/-- No call of a method fails: those that are made end with a value, and what is to be called for the
elements is a function. -/
structure NoCallFails (m : Method) (h : Host σ) (receiver callback : Value) (second : Option Value)
    (w : World σ) : Prop where
  ok : ∀ x ∈ m.calls h receiver callback second w, ∃ v, x.outcome = .ok v
  callable : w.store.length receiver ≠ 0 → ∃ r, callback = .function r

section Runs

variable {h : Host σ} {left : Nat} {i : UInt64} {f : Frame} {w w' : World σ}
  {calls : List (HostCall σ)} {o : Except Fault Flow}

theorem flow_some_eq_done {g : Frame} {u v : Value} (hflow : Method.some.step.flow g v = .done u) :
    u = .boolean true := by
  simp only [step, CallStep.visit] at hflow
  split at hflow
  · cases hflow
    rfl
  · cases hflow

/-- A call with the result true ends a run of `some`, and decides it. -/
theorem eq_done_of_runs (run : Method.some.step.Runs h left i f w calls o w') {x : HostCall σ}
    (hx : x ∈ calls) (htrue : x.outcome = .ok (.boolean true)) :
    o = .ok (.done (.boolean true)) := by
  induction run with
  | failed _ _ _ hout =>
    obtain rfl := List.mem_singleton.1 hx
    rw [hout] at htrue
    cases htrue
  | stopped _ _ _ _ hflow => rw [flow_some_eq_done hflow]
  | continued _ _ _ hout hflow _ ih =>
    rcases List.mem_cons.1 hx with rfl | hx
    · rw [hout] at htrue
      cases htrue
      exact absurd ⟨rfl, rfl⟩ (flow_eq_next hflow).1
    · exact ih hx
  | _ => cases hx

/-- What `every` keeps is whether all calls so far accepted. -/
theorem out_of_runs (run : every.step.Runs h left i f w calls o w') {b : Bool}
    (hb : f.out = .boolean b) {g : Frame} (hg : o = .ok (.next g)) :
    g.out = .boolean (b && calls.all HostCall.accepts) := by
  induction run generalizing b with
  | finished =>
    cases hg
    rw [hb, List.all_nil, Bool.and_true]
  | @continued _ _ f _ _ _ x v _ _ _ _ _ _ _ hout hflow _ ih =>
    cases hflow
    have haccepts : x.accepts = v.isTruthy := by rw [HostCall.accepts, hout]
    have hkept : f.out.isTruthy = b := by rw [hb, Value.isTruthy_boolean]
    rw [ih rfl hg, List.all_cons, haccepts, hkept, ← Bool.and_assoc, Bool.and_comm b]
  | _ => cases hg

end Runs

section Call

variable (h : Host σ) (receiver callback : Value) (context : Option Value) (w : World σ)

/-- If no call fails and none gives what ends the loop early, there is one for each element. -/
theorem length_of_noCallFails {m : Method} {left : Nat} {i : UInt64} {f : Frame} {w w' : World σ}
    {calls : List (HostCall σ)} {o : Except Fault Flow} {h : Host σ}
    (run : m.step.Runs h left i f w calls o w') (hm : m ∈ visitors)
    (hcallable : left ≠ 0 → ∃ r, f.callback = .function r)
    (hends : ∀ x ∈ calls, ¬ m.Ends x.outcome) :
    calls.length = left ∧ ∃ g, o = .ok (.next g) := by
  cases left with
  | zero =>
    cases run
    exact ⟨rfl, _, rfl⟩
  | succ left =>
    obtain ⟨r, hr⟩ := hcallable (Nat.succ_ne_zero left)
    obtain ⟨hlength, g, ho, -⟩ := length_of_not_ends run hm hr hends
    exact ⟨hlength, g, ho⟩

theorem call_some_of_noCallFails (hok : Method.some.NoCallFails h receiver callback context w) :
    let calls := Method.some.calls h receiver callback context w
    ∃ b w', (Method.some.call h receiver callback context).runOn w = (.ok (.boolean b), w') ∧
      (b = true ↔ ∃ x ∈ calls, x.outcome = .ok (.boolean true)) ∧
      (b = false → calls.length = (w.store.length receiver).toNat) := by
  intro calls
  obtain ⟨f, w₁, o, w', hruns, hleave, -, rfl, -⟩ :=
    runs_of_mem_visitors receiver callback context (m := .some) (by decide) h w nofun
  rw [← hleave]
  by_cases htrue : ∃ x ∈ calls, x.outcome = .ok (.boolean true)
  · obtain ⟨x, hx, hout⟩ := htrue
    rw [eq_done_of_runs hruns hx hout]
    exact ⟨true, _, rfl, ⟨fun _ => ⟨x, hx, hout⟩, fun _ => rfl⟩, nofun⟩
  · obtain ⟨hlength, g, rfl⟩ := length_of_noCallFails hruns (by decide)
      (fun hne => hok.callable fun hzero => hne (by rw [hzero]; rfl)) fun x hx hends => by
        obtain ⟨v, hv⟩ := hok.ok x hx
        rw [hv] at hends
        exact htrue ⟨x, hx, by rw [hv, hends.2]⟩
    exact ⟨false, _, rfl, ⟨nofun, fun h => absurd h htrue⟩, fun _ => hlength⟩

/-- The iterations of `every`, which begin with the answer yes. -/
theorem runs_every : ∃ f w₁ o w', every.step.Runs h (w.store.length receiver).toNat 0 f w₁
      (every.calls h receiver callback context w) o w' ∧
    every.callLoop.leave o w' = (every.call h receiver callback context).runOn w ∧
    f.callback = callback ∧ f.out = .boolean true := by
  obtain ⟨result, w', hcall, hrun, -⟩ := every.exists_runs_call h receiver callback context w
  obtain ⟨o, w₁, hruns, hleave⟩ := hcall.of_ok (g := { Frame.start receiver callback context with
    out := .boolean true }) (s := w.store) rfl
  rw [enter_callLoop (by decide)] at hruns
  exact ⟨_, _, o, w₁, hruns, hleave.trans hrun.symm, rfl, rfl⟩

theorem call_every_of_noCallFails (hok : every.NoCallFails h receiver callback context w) :
    let calls := every.calls h receiver callback context w
    calls.length = (w.store.length receiver).toNat ∧ ∃ w',
      (every.call h receiver callback context).runOn w =
        (.ok (.boolean (calls.all HostCall.accepts)), w') := by
  intro calls
  obtain ⟨f, w₁, o, w', hruns, hleave, rfl, hout⟩ := runs_every h receiver callback context w
  obtain ⟨hlength, g, rfl⟩ := length_of_noCallFails hruns (by decide)
    (fun hne => hok.callable fun hzero => hne (by rw [hzero]; rfl)) fun x hx hends => by
      obtain ⟨v, hv⟩ := hok.ok x hx
      rw [hv] at hends
      exact absurd hends.1 (by decide)
  rw [← hleave, leave_returnOut (by decide), out_of_runs hruns hout rfl, Bool.true_and]
  exact ⟨hlength, w', rfl⟩

/-- Whatever `some` gives is a boolean. -/
theorem exists_boolean_of_call_some {v : Value}
    (hv : ((Method.some.call h receiver callback context).runOn w).1 = .ok v) :
    ∃ b, v = .boolean b := by
  obtain ⟨f, w₁, o, w', hruns, hleave, -⟩ :=
    runs_of_mem_visitors receiver callback context (m := .some) (by decide) h w nofun
  rw [← hleave] at hv
  rcases o with e | g | u
  · cases hv
  · cases hv
    exact ⟨false, rfl⟩
  · obtain ⟨g, r, hflow⟩ := hruns.exists_flow_eq_done rfl
    cases hv
    exact ⟨true, flow_some_eq_done hflow⟩

/-- Whatever `every` gives is a boolean. -/
theorem exists_boolean_of_call_every {v : Value}
    (hv : ((every.call h receiver callback context).runOn w).1 = .ok v) : ∃ b, v = .boolean b := by
  obtain ⟨f, w₁, o, w', hruns, hleave, -, hout⟩ := runs_every h receiver callback context w
  rw [← hleave] at hv
  rcases o with e | g | u
  · cases hv
  · rw [leave_returnOut (by decide), out_of_runs hruns hout rfl] at hv
    cases hv
    exact ⟨_, rfl⟩
  · obtain ⟨g, r, hflow⟩ := hruns.exists_flow_eq_done rfl
    cases hflow

/-- The two methods give by their names the boolean that their typed entry points give, with the same
faults and the same effects. If no call fails, the answer of `some` is whether there is a call with the
result true, which is then the last one, while for the answer no there is a call for each element; and
the answer of `every`, which calls for each element, is whether all results are truthy. -/
theorem someTrue_exists_everyTruthy_forall (h : Host σ) (receiver callback : Value)
    (context : Option Value) (w : World σ) :
    let any := (receiver.someTrue h callback context).runOn w
    let all := (receiver.everyTruthy h callback context).runOn w
    let n := (w.store.length receiver).toNat
    (invoke h "some" receiver callback context).runOn w = (any.1.map .boolean, any.2) ∧
    (invoke h "every" receiver callback context).runOn w = (all.1.map .boolean, all.2) ∧
    (Method.some.NoCallFails h receiver callback context w →
      let calls := Method.some.calls h receiver callback context w
      ∃ b, any.1 = .ok b ∧ (b = true ↔ ∃ x ∈ calls, x.outcome = .ok (.boolean true)) ∧
        (∀ (k : Nat) (x : HostCall σ), calls[k]? = Option.some x →
          x.outcome = .ok (.boolean true) → calls.length = k + 1) ∧
        (b = false → calls.length = n)) ∧
    (every.NoCallFails h receiver callback context w →
      let calls := every.calls h receiver callback context w
      calls.length = n ∧ ∃ b, all.1 = .ok b ∧
        (b = true ↔ ∀ x ∈ calls, ∃ v, x.outcome = .ok v ∧ v.isTruthy = true)) := by
  intro any all n
  refine ⟨?_, ?_, fun hok => ?_, fun hok => ?_⟩
  · refine (congrArg (Run.runOn · w) (invoke_name .some h receiver callback context)).trans ?_
    exact Run.runOn_eq_map_isTruthy rfl fun v =>
      exists_boolean_of_call_some h receiver callback context w
  · refine (congrArg (Run.runOn · w) (invoke_name .every h receiver callback context)).trans ?_
    exact Run.runOn_eq_map_isTruthy rfl fun v =>
      exists_boolean_of_call_every h receiver callback context w
  · intro calls
    have hlast (k : Nat) (x : HostCall σ) (hk : calls[k]? = Option.some x)
        (hx : x.outcome = .ok (.boolean true)) : calls.length = k + 1 := by
      obtain ⟨f, w₁, o, w', hruns, -⟩ :=
        runs_of_mem_visitors receiver callback context (m := .some) (by decide) h w nofun
      exact length_of_ends hruns hk (by rw [hx]; exact ⟨rfl, rfl⟩)
    obtain ⟨b, w', hcall, htrue, hfalse⟩ :=
      call_some_of_noCallFails h receiver callback context w hok
    have hany : any = (.ok b, w') := Run.runOn_isTruthy_of_boolean hcall
    rw [hany]
    exact ⟨b, rfl, htrue, hlast, hfalse⟩
  · intro calls
    obtain ⟨hlength, w', hcall⟩ := call_every_of_noCallFails h receiver callback context w hok
    have hall : all = (.ok (calls.all HostCall.accepts), w') := Run.runOn_isTruthy_of_boolean hcall
    rw [hall]
    refine ⟨hlength, _, rfl, ?_⟩
    rw [List.all_eq_true]
    refine forall₂_congr fun x hx => ?_
    obtain ⟨v, hv⟩ := hok.ok x hx
    simp only [HostCall.accepts, hv, Except.ok.injEq, exists_eq_left']

end Call

end Method

/-- A host whose functions give a string that is truthy. -/
def agreeingHost : Host Unit where
  plain _ _ := return .string "yes"
  method _ _ _ := return .string "yes"

/-- Three truthy results, none of which is the boolean true. -/
theorem Method.someTrue_exists_everyTruthy_forall_threeStrings :
    Method.some.NoCallFails agreeingHost (.array ⟨0⟩) (.function ⟨.method, 0⟩) none threeStrings ∧
      every.NoCallFails agreeingHost (.array ⟨0⟩) (.function ⟨.method, 0⟩) none threeStrings ∧
      ((Value.someTrue (.array ⟨0⟩) agreeingHost (.function ⟨.method, 0⟩) none).runOn
        threeStrings).1 = .ok false ∧
      ((Value.everyTruthy (.array ⟨0⟩) agreeingHost (.function ⟨.method, 0⟩) none).runOn
        threeStrings).1 = .ok true := by
  have hyes (m : Method) (x)
      (hx : x ∈ m.calls agreeingHost (.array ⟨0⟩) (.function ⟨.method, 0⟩) none threeStrings) :
      x.outcome = .ok (.string "yes") := by
    obtain ⟨⟨kind, i⟩, b, args, hx⟩ := m.exists_eq_callOf _ _ _ _ _ hx
    rw [hx]
    cases kind <;> rfl
  have hok (m : Method) :
      m.NoCallFails agreeingHost (.array ⟨0⟩) (.function ⟨.method, 0⟩) none threeStrings :=
    ⟨fun x hx => ⟨_, hyes m x hx⟩, fun _ => ⟨_, rfl⟩⟩
  obtain ⟨-, -, hsome, hevery⟩ := someTrue_exists_everyTruthy_forall agreeingHost (.array ⟨0⟩)
    (.function ⟨.method, 0⟩) none threeStrings
  obtain ⟨b, hb, htrue, -⟩ := hsome (hok .some)
  obtain ⟨-, b', hb', htruthy⟩ := hevery (hok .every)
  have hb_false : b = false := by
    refine Bool.eq_false_iff.2 fun h => ?_
    obtain ⟨x, hx, hout⟩ := htrue.1 h
    rw [hyes .some x hx] at hout
    cases hout
  have hb_true : b' = true := htruthy.2 fun x hx => ⟨_, hyes .every x hx, rfl⟩
  exact ⟨hok .some, hok .every, hb.trans (congrArg _ hb_false), hb'.trans (congrArg _ hb_true)⟩

end CollectionLoops
