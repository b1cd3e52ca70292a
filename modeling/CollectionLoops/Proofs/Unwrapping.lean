import CollectionLoops.Proofs.OwnEffects

/-!
The method `legacy`, which gives the callback what each element wraps. Main statement: every call is
bound to the receiver, whatever the second argument is, and the first element that has no properties
ends the method in its turn.
-/
namespace CollectionLoops

variable {σ : Type}

namespace Store

/-- What an element wraps. Only an object wraps anything. -/
def node (s : Store) : Value → Value
  | .object r => ((s.properties r).get? nodeKey).getD .undefined
  | _ => .undefined

theorem read_nodeKey (s : Store) {v : Value} (hv : v.isNullish = false) :
    s.read v nodeKey = .ok (s.node v) := by
  cases v with
  | undefined | null => cases hv
  | array r =>
    have hlength : nodeKey ≠ "length" := by decide
    have hindex : IndexKey.index? nodeKey = none := by decide
    rw [read, if_neg hlength, hindex]
    rfl
  | _ => rfl

theorem isTruthy_of_length_ne_zero {s : Store} {v : Value} (hv : s.length v ≠ 0) :
    v.isTruthy = true := by
  cases v with
  | array r | object r => rfl
  | _ => exact absurd rfl hv

end Store

/-- The frame with another second argument. -/
def Frame.withSecond (f : Frame) (that : Value) (seeded : Bool) : Frame := { f with that, seeded }

/-- An iteration that ends alike, with another second argument in its frame. -/
def Flow.withSecond (that : Value) (seeded : Bool) : Flow → Flow
  | .next f => .next (f.withSecond that seeded)
  | .done v => .done v

namespace Method

section Second

variable {m : Method} (that : Value) (seeded : Bool)

theorem args_withSecond (hm : m ∈ .legacy :: visitors) (s : Store) (f : Frame) (i : UInt64) :
    m.step.args s (f.withSecond that seeded) i = m.step.args s f i := by
  cases m <;> first | rfl | exact absurd hm (by decide)

theorem binding_withSecond (f : Frame) :
    m.step.binding (f.withSecond that seeded) = m.step.binding f := by
  cases m <;> rfl

theorem edit_withSecond (f : Frame) :
    m.step.edit (f.withSecond that seeded) = m.step.edit f := by
  cases m <;> rfl

theorem flow_withSecond (hm : m ∈ .legacy :: visitors) (f : Frame) (v : Value) :
    m.step.flow (f.withSecond that seeded) v = (m.step.flow f v).withSecond that seeded := by
  cases m with
  | some =>
    simp only [step, CallStep.visit]
    split <;> rfl
  | reduce | reduceRight => exact absurd hm (by decide)
  | _ => rfl

theorem runOn_body_withSecond (hm : m ∈ .legacy :: visitors) (h : Host σ) (f : Frame) (i : UInt64)
    (w : World σ) :
    (m.step.body h (f.withSecond that seeded) i).runOn w =
      (((m.step.body h f i).runOn w).1.map (.withSecond that seeded),
        ((m.step.body h f i).runOn w).2) := by
  have hargs := args_withSecond that seeded hm w.store f i
  cases hf : m.step.args w.store f i with
  | error e =>
    rw [CallStep.runOn_body_of_error (hargs.trans hf), CallStep.runOn_body_of_error hf]
    rfl
  | ok args =>
    have hcallback : (f.withSecond that seeded).callback = f.callback := rfl
    rw [CallStep.runOn_body_of_args (hargs.trans hf), CallStep.runOn_body_of_args hf,
      binding_withSecond, edit_withSecond, hcallback]
    rcases (h.call f.callback (m.step.binding f) args).runOn w with ⟨e | v, w'⟩
    · rfl
    · simp only [flow_withSecond that seeded hm, Except.map]

/-- The iterations of a method that binds its callback make nothing of the second argument. -/
theorem runOn_iterate_withSecond (hm : m ∈ .legacy :: visitors) (h : Host σ) (left : Nat)
    (i : UInt64) (f : Frame) (w : World σ) :
    (Loop.iterate m.step.body h left i (f.withSecond that seeded)).runOn w =
      (((Loop.iterate m.step.body h left i f).runOn w).1.map (.withSecond that seeded),
        ((Loop.iterate m.step.body h left i f).runOn w).2) := by
  induction left generalizing i f w with
  | zero => rfl
  | succ left ih =>
    rw [CallStep.runOn_iterate_succ, CallStep.runOn_iterate_succ,
      runOn_body_withSecond that seeded hm]
    rcases (m.step.body h f i).runOn w with ⟨e | g | v, w'⟩
    · rfl
    · exact ih (i + 1) g w'
    · rfl

end Second

/-- The second argument of `legacy` plays no part at all. -/
theorem call_legacy_second (h : Host σ) (receiver callback : Value) (second second' : Option Value) :
    legacy.call h receiver callback second' = legacy.call h receiver callback second := by
  -- the receiver takes its place, and only whether it was passed is still to be seen
  refine Run.ext fun w => ?_
  let f : Frame := { Frame.start receiver callback second with that := receiver }
  have hprologue : (legacy.callLoop.prologue (.start receiver callback second)).run.run w.store =
    (.ok f, w.store) := rfl
  have hprologue' : (legacy.callLoop.prologue (.start receiver callback second')).run.run w.store =
    (.ok (f.withSecond receiver second'.isSome), w.store) := rfl
  have henter : legacy.callLoop.enter w.store (f.withSecond receiver second'.isSome) =
      (legacy.callLoop.enter w.store f).withSecond receiver second'.isSome := by
    rw [enter_callLoop (by decide), enter_callLoop (by decide)]
    rfl
  have hentered : legacy.callLoop.entered w.store (f.withSecond receiver second'.isSome) w =
      legacy.callLoop.entered w.store f w := by
    rw [CallLoop.entered, CallLoop.entered, enter_callLoop (by decide), enter_callLoop (by decide)]
    rfl
  have hstep : legacy.callLoop.step = legacy.step := rfl
  have hcount : ((legacy.callLoop.enter w.store f).withSecond receiver second'.isSome).count =
    (legacy.callLoop.enter w.store f).count := rfl
  rw [call, call, loop_eq, CallLoop.runOn_call_of_ok hprologue, CallLoop.runOn_call_of_ok hprologue',
    hentered, henter, hstep, runOn_iterate_withSecond _ _ (by decide), hcount]
  generalize (Loop.iterate legacy.step.body h (legacy.callLoop.enter w.store f).count.toNat 0
    (legacy.callLoop.enter w.store f)).runOn (legacy.callLoop.entered w.store f w) = ending
  rcases ending with ⟨_ | _ | _, w'⟩ <;> rfl

theorem calls_legacy_second (h : Host σ) (receiver callback : Value) (second second' : Option Value)
    (w : World σ) :
    legacy.calls h receiver callback second' w = legacy.calls h receiver callback second w := by
  rw [Method.calls, Method.calls, call_legacy_second h.recording receiver callback second second']

/-- A method that makes no result of its own ends with the receiver. -/
theorem leave_returnReceiver {m : Method} (hm : m ∈ [.each, .legacy]) (f : Frame) (w : World σ) :
    m.callLoop.leave (.ok (.next f)) w = (.ok f.receiver, w) := by
  cases m <;> first | rfl | exact absurd hm (by decide)

section Runs

variable {h : Host σ} {left : Nat} {i : UInt64} {f : Frame} {w w' : World σ}
  {calls : List (HostCall σ)} {o : Except Fault Flow}

/-- Between two calls `legacy` changes nothing. -/
theorem eq_leftBy_of_runs (run : legacy.step.Runs h left i f w calls o w') :
    w' = w.leftBy calls := by
  induction run with
  | continued _ _ _ _ _ _ ih =>
    rw [World.leftBy_cons]
    exact ih
  | _ => rfl

/-- Before a call, `legacy` has unwrapped the element that the receiver has then. -/
theorem args_legacy_eq {s : Store} {args : List Value} (hargs : legacy.step.args s f i = .ok args) :
    (s.element f.receiver i).isNullish = false ∧
      args = [s.node (s.element f.receiver i), s.element f.receiver i, .number i.toFloat] := by
  simp only [step, CallStep.unwrap, Frame.element] at hargs
  cases hnullish : (s.element f.receiver i).isNullish with
  | true =>
    cases helement : s.element f.receiver i with
    | undefined | null =>
      rw [helement] at hargs
      cases hargs
    | _ =>
      rw [helement] at hnullish
      cases hnullish
  | false =>
    rw [Store.read_nodeKey s hnullish] at hargs
    cases hargs
    exact ⟨rfl, rfl⟩

theorem unwraps_of_runs (run : legacy.step.Runs h left i f w calls o w') {r : FunctionRef}
    (hcallback : f.callback = .function r) {k : Nat} {x : HostCall σ}
    (hk : calls[k]? = Option.some x) :
    let before := w.leftBy (calls.take k)
    let element := before.store.element f.receiver (i + .ofNat k)
    element.isNullish = false ∧ x = h.callOf r f.invoker.binding?
      [before.store.node element, element, .number (i + .ofNat k).toFloat] before := by
  have hzero (j : UInt64) : j + .ofNat 0 = j := UInt64.add_zero j
  induction run generalizing k with
  | failed hargs hcb hx | stopped hargs hcb hx =>
    cases k with
    | zero =>
      cases hk
      rw [hcallback] at hcb
      cases hcb
      obtain ⟨hnullish, rfl⟩ := args_legacy_eq hargs
      rw [hzero]
      exact ⟨hnullish, hx⟩
    | succ k => simp at hk
  | continued hargs hcb hx _ hflow _ ih =>
    cases k with
    | zero =>
      cases hk
      rw [hcallback] at hcb
      cases hcb
      obtain ⟨hnullish, rfl⟩ := args_legacy_eq hargs
      rw [hzero]
      exact ⟨hnullish, hx⟩
    | succ k =>
      cases hflow
      have hstep := ih hcallback hk
      rw [CallStep.index_succ] at hstep
      rw [List.take_succ_cons, World.leftBy_cons]
      exact hstep
  | _ => simp at hk

/-- A run whose calls all succeed ends at the first element that cannot be unwrapped, or at its end. -/
theorem ends_of_runs (run : legacy.step.Runs h left i f w calls o w') {r : FunctionRef}
    (hcallback : f.callback = .function r) (hok : ∀ x ∈ calls, ∃ v, x.outcome = .ok v)
    (element : Value)
    (helement : w'.store.element f.receiver (i + .ofNat calls.length) = element) :
    (calls.length = left ∧ o = .ok (.next f)) ∨
      (calls.length < left ∧ element.isNullish = true ∧
        o = .error (.unreadable element nodeKey)) := by
  rcases o with e | g | u
  · obtain ⟨-, hlength, hnullish, rfl⟩ := eq_legacy_of_runs run hcallback hok rfl
    rw [← eq_leftBy_of_runs run, helement] at hnullish ⊢
    exact .inr ⟨hlength, hnullish, rfl⟩
  · have hlength : calls.length = left := run.length_eq rfl
    exact .inl ⟨hlength, run.eq_next (fun _ _ => rfl) hlength hok⟩
  · obtain ⟨g, v, hflow⟩ := run.exists_flow_eq_done rfl
    cases hflow

end Runs

/-- The iterations of `legacy`, with the receiver in the place of the second argument. -/
theorem runs_legacy (h : Host σ) (w : World σ) (receiver callback : Value) (second : Option Value) :
    let n := w.store.length receiver
    ∃ f o w', legacy.step.Runs h n.toNat 0 f
        { w with log := w.log.push (.iterations "legacy" n receiver.isTruthy) }
        (legacy.calls h receiver callback second w) o w' ∧
      (legacy.call h receiver callback second).runOn w = legacy.callLoop.leave o w' ∧
      f.receiver = receiver ∧ f.callback = callback ∧ f.invoker = .resolve receiver := by
  intro n
  obtain ⟨result, w', hcall, hrun, -⟩ := legacy.exists_runs_call h receiver callback second w
  obtain ⟨o, w₁, hruns, hleave⟩ := hcall.of_ok
    (g := { Frame.start receiver callback second with that := receiver }) (s := w.store) rfl
  have hentered : legacy.callLoop.entered w.store
      { Frame.start receiver callback second with that := receiver } w =
      { w with log := w.log.push (.iterations "legacy" n receiver.isTruthy) } := by
    rw [CallLoop.entered, enter_callLoop (by decide), Invoker.isBound_resolve]
    rfl
  rw [hentered, enter_callLoop (by decide)] at hruns
  exact ⟨_, o, w₁, hruns, hrun.trans hleave.symm, rfl, rfl, rfl⟩

/-- `legacy` calls for each index in turn, with what the element that the receiver has there then
wraps, the element and the index, bound to the receiver. It ends with the fault of the first call that
fails; at an element that is undefined or null, before the call for it, with the fault of reading it;
and else with the receiver, after as many calls as the receiver had elements. Whether a second argument
is passed, and which, makes no difference. -/
theorem call_legacy_unwraps (h : Host σ) (w : World σ) (receiver : Value) (r : FunctionRef)
    (second : Option Value) :
    let calls := legacy.calls h receiver (.function r) second w
    let ending := (legacy.call h receiver (.function r) second).runOn w
    let n := w.store.length receiver
    let entered := { w with log := w.log.push (.iterations "legacy" n receiver.isTruthy) }
    (∀ (k : Nat) (x : HostCall σ), calls[k]? = Option.some x →
      let before := entered.leftBy (calls.take k)
      let element := before.store.element receiver (.ofNat k)
      element.isNullish = false ∧ x = h.callOf r (Option.some receiver)
        [before.store.node element, element, .number (UInt64.ofNat k).toFloat] before) ∧
    (∀ (k : Nat) (x : HostCall σ) e, calls[k]? = Option.some x → x.outcome = .error e →
      calls.length = k + 1 ∧ ending = (.error e, x.after)) ∧
    ((∀ x ∈ calls, ∃ v, x.outcome = .ok v) →
      let left := entered.leftBy calls
      let element := left.store.element receiver (.ofNat calls.length)
      (calls.length = n.toNat ∧ ending = (.ok receiver, left)) ∨
      (calls.length < n.toNat ∧ element.isNullish = true ∧
        ending = (.error (.typeError (Option.some ("Cannot read properties of " ++
          (if element = .null then "null" else "undefined") ++ " (reading '" ++ nodeKey ++ "')"))
          "loop_methods::value::Value::get"), left))) ∧
    ∀ second', legacy.call h receiver (.function r) second' =
        legacy.call h receiver (.function r) second ∧
      legacy.calls h receiver (.function r) second' w = calls := by
  intro calls ending n entered
  obtain ⟨f, o, w', hruns, hending, rfl, hcallback, hinvoker⟩ :=
    runs_legacy h w receiver (.function r) second
  have hending : ending = legacy.callLoop.leave o w' := hending
  have hworld : w' = entered.leftBy calls := eq_leftBy_of_runs hruns
  rw [hending]
  refine ⟨fun k x hk => ?_, fun k x e hk hx => ?_, fun hok => ?_, fun second' => ?_⟩
  · have hne : n ≠ 0 := ne_zero_of_runs hruns hk
    have hbound : f.invoker.binding? = Option.some f.receiver := by
      rw [hinvoker, Invoker.resolve_of_isTruthy (Store.isTruthy_of_length_ne_zero hne)]
      rfl
    have hstep := unwraps_of_runs hruns hcallback hk
    rw [UInt64.zero_add] at hstep
    rw [← hbound]
    exact hstep
  · obtain ⟨hlength, rfl, rfl⟩ := hruns.eq_of_failed hk hx
    exact ⟨hlength, rfl⟩
  · intro left element
    have hleft : w' = left := hworld
    rw [hleft] at hruns
    rw [hleft]
    rcases ends_of_runs hruns hcallback hok element (by rw [UInt64.zero_add]) with
      ⟨hlength, rfl⟩ | ⟨hlength, hnullish, rfl⟩
    · rw [leave_returnReceiver (by decide)]
      exact .inl ⟨hlength, rfl⟩
    · rw [Fault.unreadable_of_isNullish hnullish]
      exact .inr ⟨hlength, hnullish, rfl⟩
  · exact ⟨call_legacy_second h f.receiver (.function r) second second',
      calls_legacy_second h f.receiver (.function r) second second' w⟩

end Method

/-- An array that has an object twice, which wraps a string. -/
def wrappedTwice : World Unit :=
  ⟨⟨#[#[.object ⟨0⟩, .object ⟨0⟩]], #[Store.wrapped (.string "a")]⟩, #[], ()⟩

/-- The first call takes the second element away, which cannot be unwrapped any more. -/
theorem Method.call_legacy_unwraps_shrinking :
    let calls := legacy.calls shrinkingHost (.array ⟨0⟩) (.function ⟨.method, 0⟩) none wrappedTwice
    (∀ x ∈ calls, ∃ v, x.outcome = .ok v) ∧ calls.length = 1 ∧
      ∃ message w', (legacy.call shrinkingHost (.array ⟨0⟩) (.function ⟨.method, 0⟩) none).runOn
        wrappedTwice = (.error (.typeError message "loop_methods::value::Value::get"), w') := by
  intro calls
  have hok : ∀ x ∈ calls, ∃ v, x.outcome = .ok v := by
    intro x hx
    obtain ⟨⟨kind, i⟩, b, args, hx⟩ := legacy.exists_eq_callOf _ _ _ _ _ hx
    rw [hx]
    cases kind <;> exact ⟨_, rfl⟩
  obtain ⟨hcalls, -, hends, -⟩ :=
    call_legacy_unwraps shrinkingHost wrappedTwice (.array ⟨0⟩) ⟨.method, 0⟩ none
  have htwo : (wrappedTwice.store.length (.array ⟨0⟩)).toNat = 2 := by decide +kernel
  have hdef : calls = legacy.calls _ _ _ _ _ := rfl
  rw [← hdef] at hcalls hends
  refine ⟨hok, ?_⟩
  clear_value calls
  match calls, hends hok with
  | [], .inr ⟨_, hnullish, _⟩ => exact absurd hnullish (by decide +kernel)
  | [_], .inr ⟨_, _, hending⟩ => exact ⟨rfl, _, _, hending⟩
  | x :: y :: _, _ =>
    have hx := (hcalls 0 x rfl).2
    have hgone : (x.after.store.element (.array ⟨0⟩) 1).isNullish = true := by
      rw [hx, List.take_zero]
      decide +kernel
    exact absurd (hgone.symm.trans (hcalls 1 y rfl).1) (by decide)
  | [], .inl ⟨hlength, _⟩ | [_], .inl ⟨hlength, _⟩ =>
    rw [htwo] at hlength
    cases hlength

end CollectionLoops
