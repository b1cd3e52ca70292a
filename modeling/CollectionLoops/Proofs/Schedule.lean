import CollectionLoops.Proofs.Agreement
import CollectionLoops.Proofs.Binding

/-!
The order in which the visiting methods call their callback. The number of iterations is fixed when a
method is entered, and the elements are read when their turn comes. Main statement: whatever the calls
do, they are made at the indices 0, 1, 2, … in this order, as many as the receiver had elements, unless
one of them ends the loop.
-/
namespace CollectionLoops

variable {σ : Type}

/-- The methods that call the callback with each element, its index and the receiver. -/
def Method.visitors : List Method := [.each, .some, .every, .map, .filter]

/-- Whether the result under construction is not the receiver itself. -/
def Frame.OutApart (f : Frame) : Prop := ∀ r, f.out = .array r → f.receiver ≠ .array r

namespace Method

variable {m : Method}

section Step

variable {s : Store} {f g : Frame} {i : UInt64} {args : List Value} {v : Value}

theorem args_step (hm : m ∈ visitors) :
    m.step.args s f i = .ok [f.element s i, .number i.toFloat, f.receiver] := by
  cases m <;> first | rfl | exact absurd hm (by decide)

theorem binding_step (hm : m ∈ visitors) : m.step.binding f = f.invoker.binding? := by
  cases m <;> first | rfl | exact absurd hm (by decide)

/-- A method writes the array that it is making, and no other. -/
theorem agree_edit {u : Value} (hu : ∀ r, f.out = .array r → u ≠ .array r) :
    s.Agree (m.step.edit f i args v s) u := by
  cases m with
  | map =>
    cases hout : f.out with
    | array r =>
      have := s.agree_setItem i.toNat v (hu r hout)
      simpa only [step, CallStep.visit, place, hout] using this
    | _ => simpa only [step, CallStep.visit, place, hout] using Store.Agree.refl s u
  | filter =>
    cases hv : v.isTruthy with
    | false => simpa only [step, CallStep.visit, keep, hv] using Store.Agree.refl s u
    | true =>
      cases hout : f.out with
      | array r =>
        have := s.agree_push (args.headD .undefined) (hu r hout)
        simpa only [step, CallStep.visit, keep, hv, hout] using this
      | _ => simpa only [step, CallStep.visit, keep, hv, hout] using Store.Agree.refl s u
  | _ => exact .refl s u

theorem contains_edit {u : Value} (hu : s.Contains u) : (m.step.edit f i args v s).Contains u := by
  cases m with
  | map =>
    simp only [step, CallStep.visit, place]
    split
    · exact Store.contains_updateArray.2 hu
    · exact hu
  | filter =>
    simp only [step, CallStep.visit, keep]
    split
    · exact Store.contains_updateArray.2 hu
    · exact hu
  | _ => exact hu

/-- An array that a method is making after an iteration is the one that it was making before. -/
theorem out_of_flow (hflow : m.step.flow f v = .next g) {r : ArrayRef} (hr : g.out = .array r) :
    f.out = .array r := by
  cases m with
  | some =>
    simp only [step, CallStep.visit] at hflow
    split at hflow
    · cases hflow
    · cases hflow
      exact hr
  | every =>
    cases hflow
    cases hr
  | _ =>
    cases hflow
    exact hr

theorem outApart_of_flow (hflow : m.step.flow f v = .next g) (hf : f.OutApart) : g.OutApart := by
  intro r hr
  rw [(flow_eq_next hflow).2.receiver]
  exact hf r (out_of_flow hflow hr)

end Step

section Runs

variable {h : Host σ} {left : Nat} {i : UInt64} {f : Frame} {w w' : World σ}
  {calls : List (HostCall σ)} {o : Except Fault Flow}

theorem length_le_of_runs {c : CallStep} (run : c.Runs h left i f w calls o w') :
    calls.length ≤ left := by
  induction run with
  | continued _ _ _ _ _ _ ih => exact Nat.succ_le_succ ih
  | _ => simp

/-- Where there is a call there was something to count. -/
theorem ne_zero_of_runs {c : CallStep} {n : UInt64} (run : c.Runs h n.toNat i f w calls o w') {k : Nat}
    {x : HostCall σ} (hk : calls[k]? = Option.some x) : n ≠ 0 := by
  rintro rfl
  have hlt : k < calls.length := (List.getElem?_eq_some_iff.1 hk).1
  exact Nat.not_lt_zero k (Nat.lt_of_lt_of_le hlt (length_le_of_runs run))

/-- A call that ends the loop is the last one. -/
theorem length_of_ends (run : m.step.Runs h left i f w calls o w') {k : Nat} {x : HostCall σ}
    (hk : calls[k]? = Option.some x) (hx : m.Ends x.outcome) : calls.length = k + 1 := by
  induction run generalizing k with
  | failed | stopped =>
    have := (List.getElem?_eq_some_iff.1 hk).1
    simp_all
  | continued _ _ _ hout hflow _ ih =>
    cases k with
    | zero =>
      cases hk
      rw [hout] at hx
      exact absurd hx (flow_eq_next hflow).1
    | succ k => rw [List.length_cons, ih hk]
  | _ => simp at hk

theorem length_of_not_ends (run : m.step.Runs h left i f w calls o w') (hm : m ∈ visitors)
    {r : FunctionRef} (hcallback : f.callback = .function r)
    (hends : ∀ x ∈ calls, ¬ m.Ends x.outcome) :
    calls.length = left ∧ ∃ g, o = .ok (.next g) ∧ SameCall f g := by
  induction run with
  | finished i f w => exact ⟨rfl, f, rfl, rfl, rfl, rfl, rfl, rfl⟩
  | unready hargs => simp [args_step hm] at hargs
  | uncallable _ hcb => exact absurd hcallback (hcb r)
  | failed _ _ _ hout => exact absurd (hout ▸ trivial) (hends _ (List.mem_singleton_self _))
  | stopped _ _ _ hout hflow =>
    exact absurd (hout ▸ flow_eq_done hflow) (hends _ (List.mem_singleton_self _))
  | continued _ _ _ _ hflow _ ih =>
    have hg := (flow_eq_next hflow).2
    obtain ⟨hlength, g', ho, hg'⟩ := ih (hg.callback.trans hcallback)
      fun x hx => hends x (List.mem_cons_of_mem _ hx)
    refine ⟨by rw [List.length_cons, hlength], g', ho, ?_⟩
    exact hg.trans hg'

theorem element_leftBy_congr (w₁ w₂ : World σ) {v : Value} (hw : w₁.store.Agree w₂.store v)
    (calls : List (HostCall σ)) (j : UInt64) :
    (w₁.leftBy calls).store.element v j = (w₂.leftBy calls).store.element v j := by
  cases calls with
  | nil => exact hw.element_eq j
  | cons c calls => rw [World.leftBy_cons, World.leftBy_cons]

theorem eq_callOf_of_args (hm : m ∈ visitors) {r r' : FunctionRef} {args : List Value}
    {x : HostCall σ} (hcallback : f.callback = .function r)
    (hargs : m.step.args w.store f i = .ok args) (hcallback' : f.callback = .function r')
    (hx : x = h.callOf r' (m.step.binding f) args w) :
    x = h.callOf r f.invoker.binding? [w.store.element f.receiver i, .number i.toFloat, f.receiver]
      x.before := by
  rw [hcallback] at hcallback'
  rw [args_step hm] at hargs
  cases hcallback'
  cases hargs
  subst hx
  rw [binding_step hm]
  rfl

/-- The call at each place is the one that the schedule has there. -/
theorem eq_callOf_of_runs (run : m.step.Runs h left i f w calls o w') (hm : m ∈ visitors)
    {r : FunctionRef} (hcallback : f.callback = .function r) (hout : f.OutApart) {k : Nat}
    {x : HostCall σ} (hk : calls[k]? = Option.some x) :
    x = h.callOf r f.invoker.binding?
      [(w.leftBy (calls.take k)).store.element f.receiver (i + .ofNat k),
        .number (i + .ofNat k).toFloat, f.receiver] x.before := by
  have hzero (j : UInt64) : j + .ofNat 0 = j := UInt64.add_zero j
  induction run generalizing k with
  | failed hargs hcb hx | stopped hargs hcb hx =>
    cases k with
    | zero =>
      cases hk
      rw [hzero]
      exact eq_callOf_of_args hm hcallback hargs hcb hx
    | succ k => simp at hk
  | @continued left i f w args r' y v g calls o w' hargs hcb hy _ hflow _ ih =>
    cases k with
    | zero =>
      cases hk
      rw [hzero]
      exact eq_callOf_of_args hm hcallback hargs hcb hy
    | succ k =>
      have hg := (flow_eq_next hflow).2
      have hstep := ih (hg.callback.trans hcallback) (outApart_of_flow hflow hout) hk
      -- what the method writes between two calls is not seen by the later one
      have hseen := element_leftBy_congr y.after (y.after.update (m.step.edit f i args v))
        (agree_edit hout) (calls.take k) (i + .ofNat (k + 1))
      rw [hg.receiver, hg.invoker, CallStep.index_succ, ← hseen] at hstep
      rw [List.take_succ_cons, World.leftBy_cons]
      exact hstep
  | _ => simp at hk

end Runs

section Call

variable (receiver callback : Value) (context : Option Value) (s : Store)

/-- The prologue of a visiting method keeps what the receiver holds, and if there is anything to
visit, the result under construction is another container. -/
theorem run_prologue (hm : m ∈ visitors)
    (hlength : m = .map → s.length receiver ≤ maxArrayLength) :
    ∃ g s', (m.callLoop.prologue (.start receiver callback context)).run.run s = (.ok g, s') ∧
      g.receiver = receiver ∧ g.callback = callback ∧ g.that = context.getD .undefined ∧
      s.Agree s' receiver ∧ (s.length receiver ≠ 0 → g.OutApart) := by
  have hnew (h : s.length receiver ≠ 0) (r : ArrayRef)
      (hr : Value.array ⟨s.arrays.size⟩ = .array r) : receiver ≠ .array r := by
    cases hr
    exact Store.ne_array_of_length_ne_zero h
  cases m with
  | each | some | every => exact ⟨_, s, rfl, rfl, rfl, rfl, .refl s receiver, nofun⟩
  | map =>
    exact ⟨_, _, (run_preallocate _ s).trans (if_neg (UInt64.not_lt.2 (hlength rfl))), rfl, rfl, rfl,
      s.agree_newArray_replicate receiver .undefined, hnew⟩
  | filter =>
    exact ⟨_, _, run_startEmpty _ s, rfl, rfl, rfl, Store.agree_newArray _ fun _ => rfl, hnew⟩
  | _ => exact absurd hm (by decide)

theorem bindsCallback_of_mem (hm : m ∈ .legacy :: visitors) : m.callLoop.bindsCallback = true := by
  rw [bindsCallback_callLoop]
  revert hm
  cases m <;> decide

theorem enter_callLoop (hm : m ∈ .legacy :: visitors) (g : Frame) (s : Store) :
    m.callLoop.enter s g =
      { g with invoker := .resolve g.that, count := s.length g.receiver } := by
  have hcount : m.callLoop.count = fun s f => f.length s := by
    cases m <;> first | rfl | exact absurd hm (by decide)
  simp only [CallLoop.enter, bindsCallback_of_mem hm, hcount, if_true, Frame.length]

/-- The iterations of a visiting method: as many as the receiver has elements when it is entered, from
a world in which the receiver still holds the same. -/
theorem runs_of_mem_visitors (hm : m ∈ visitors) (h : Host σ) (w : World σ)
    (hlength : m = .map → w.store.length receiver ≤ maxArrayLength) :
    ∃ f w₁ o w', m.step.Runs h (w.store.length receiver).toNat 0 f w₁
        (m.calls h receiver callback context w) o w' ∧
      m.callLoop.leave o w' = (m.call h receiver callback context).runOn w ∧
      f.receiver = receiver ∧ f.callback = callback ∧
      f.invoker.binding? = context.filter Value.isTruthy ∧
      w.store.Agree w₁.store receiver ∧ (w.store.length receiver ≠ 0 → f.OutApart) := by
  obtain ⟨g, s, hprologue, hreceiver, hcallback, hthat, hagree, hout⟩ :=
    run_prologue receiver callback context w.store hm hlength
  obtain ⟨o, w', hruns, hleave⟩ := (m.runs_call h receiver callback context w).of_ok hprologue
  have hcount : (m.callLoop.enter s g).count = w.store.length receiver := by
    rw [enter_callLoop (List.mem_cons_of_mem _ hm), hreceiver, hagree.length_eq]
  refine ⟨m.callLoop.enter s g, m.callLoop.entered s g w, o, w', hcount ▸ hruns, hleave, ?_⟩
  rw [enter_callLoop (List.mem_cons_of_mem _ hm), hthat, Invoker.binding?_resolve_getD]
  exact ⟨hreceiver, hcallback, rfl, hagree, hout⟩

theorem length_calls_of_not_ends (hm : m ∈ visitors) (h : Host σ) (w : World σ) (r : FunctionRef)
    (hlength : m = .map → w.store.length receiver ≤ maxArrayLength)
    (hends : ∀ x ∈ m.calls h receiver (.function r) context w, ¬ m.Ends x.outcome) :
    (m.calls h receiver (.function r) context w).length = (w.store.length receiver).toNat := by
  obtain ⟨f, w₁, o, w', hruns, -, -, hcallback, -⟩ :=
    runs_of_mem_visitors receiver (.function r) context hm h w hlength
  exact (length_of_not_ends hruns hm hcallback hends).1

end Call

/-- Whatever the calls of a visiting method do, call number `k` is that of the callback with the
element that the receiver has at `k` once the earlier calls are done, with `k` and with the receiver,
bound to the context if that is truthy. There are as many calls as the receiver had elements when the
method was entered, unless one ends the loop, which is then the last. -/
theorem calls_of_mem_visitors (hm : m ∈ visitors) (h : Host σ) (w : World σ) (receiver : Value)
    (r : FunctionRef) (context : Option Value)
    (hlength : m = .map → w.store.length receiver ≤ maxArrayLength) :
    let calls := m.calls h receiver (.function r) context w
    (∀ k x, calls[k]? = Option.some x →
      x = h.callOf r (context.filter Value.isTruthy)
        [(w.leftBy (calls.take k)).store.element receiver (.ofNat k),
          .number (UInt64.ofNat k).toFloat, receiver] x.before) ∧
    calls.length ≤ (w.store.length receiver).toNat ∧
    (∀ k x, calls[k]? = Option.some x → m.Ends x.outcome → calls.length = k + 1) ∧
    ((∀ x ∈ calls, ¬ m.Ends x.outcome) →
      calls.length = (w.store.length receiver).toNat ∧
      (m = .each → ((m.call h receiver (.function r) context).runOn w).1 = .ok receiver)) := by
  intro calls
  obtain ⟨f, w₁, o, w', hruns, hleave, rfl, hcallback, hbinding, hagree, hout⟩ :=
    runs_of_mem_visitors receiver (.function r) context hm h w hlength
  have hle : calls.length ≤ (w.store.length f.receiver).toNat := length_le_of_runs hruns
  refine ⟨fun k x hk => ?_, hle, fun k x hk hx => length_of_ends hruns hk hx, fun hends => ?_⟩
  · have hn : w.store.length f.receiver ≠ 0 := by
      intro hzero
      have hpos := (List.getElem?_eq_some_iff.1 hk).1
      rw [hzero] at hle
      exact absurd (Nat.lt_of_lt_of_le hpos hle) (Nat.not_lt_zero _)
    have hx := eq_callOf_of_runs hruns hm hcallback (hout hn) hk
    rw [hbinding, UInt64.zero_add] at hx
    rw [element_leftBy_congr w w₁ hagree]
    exact hx
  · obtain ⟨hall, g, ho, hsame⟩ := length_of_not_ends hruns hm hcallback hends
    refine ⟨hall, ?_⟩
    rintro rfl
    rw [← hleave, ho]
    exact congrArg Except.ok hsame.receiver

end Method

/-- A host whose functions take the last item away from the first array and give back what they were
given first. -/
def shrinkingHost : Host Unit where
  plain _ args := do Run.updateStore (·.updateArray ⟨0⟩ (·.pop)); return args.headD .undefined
  method _ _ args := do Run.updateStore (·.updateArray ⟨0⟩ (·.pop)); return args.headD .undefined

def threeStrings : World Unit := ⟨⟨#[#[.string "a", .string "b", .string "c"]], #[]⟩, #[], ()⟩

/-- An array that loses an item with every call still gets a call for each item that it had. -/
theorem Method.calls_of_mem_visitors_shrinking :
    Method.map ∈ visitors ∧ threeStrings.store.length (.array ⟨0⟩) ≤ maxArrayLength ∧
      (Method.map.calls shrinkingHost (.array ⟨0⟩) (.function ⟨.method, 0⟩)
        (Option.some (.string "bound")) threeStrings).length = 3 := by
  have hlength : threeStrings.store.length (.array ⟨0⟩) ≤ maxArrayLength := by decide +kernel
  obtain ⟨hone, -, -, hall⟩ := calls_of_mem_visitors (m := .map) (by decide) shrinkingHost
    threeStrings (.array ⟨0⟩) ⟨.method, 0⟩ (Option.some (.string "bound")) fun _ => hlength
  refine ⟨by decide, hlength, (hall fun x hx hends => ?_).1.trans (by decide +kernel)⟩
  obtain ⟨k, hk⟩ := List.mem_iff_getElem?.1 hx
  rw [hone k x hk] at hends
  exact absurd hends.1 (by decide)

end CollectionLoops
