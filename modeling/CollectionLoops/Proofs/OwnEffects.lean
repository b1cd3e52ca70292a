import CollectionLoops.Proofs.Folds

/-!
What a method does of its own around the calls of its callback. Main statement: it writes no
container that there was before, it passes on the fault of a call, and it raises one itself only for
a receiver that `map` finds too long and for an element that `legacy` cannot unwrap.
-/
namespace CollectionLoops

variable {σ : Type}

/-- The first call that fails is the last one, and the run ends with what it left. -/
theorem CallStep.Runs.eq_of_failed {c : CallStep} {h : Host σ} {left : Nat} {i : UInt64} {f : Frame}
    {w w' : World σ} {calls : List (HostCall σ)} {o : Except Fault Flow}
    (run : c.Runs h left i f w calls o w') {k : Nat} {x : HostCall σ} {e : Fault}
    (hk : calls[k]? = some x) (hx : x.outcome = .error e) :
    calls.length = k + 1 ∧ o = .error e ∧ w' = x.after := by
  induction run generalizing k with
  | finished | unready | uncallable => simp at hk
  | failed _ _ _ hout =>
    cases k with
    | zero =>
      cases hk
      rw [hout] at hx
      cases hx
      exact ⟨rfl, rfl, rfl⟩
    | succ k => simp at hk
  | stopped _ _ _ hout =>
    cases k with
    | zero =>
      cases hk
      rw [hout] at hx
      cases hx
    | succ k => simp at hk
  | continued _ _ _ hout _ _ ih =>
    cases k with
    | zero =>
      cases hk
      rw [hout] at hx
      cases hx
    | succ k =>
      obtain ⟨hlength, ho, hw⟩ := ih hk
      exact ⟨congrArg Nat.succ hlength, ho, hw⟩

/-- What calls leave behind depends on the first world only if there are none. -/
theorem World.store_leftBy_congr {w₁ w₂ : World σ} (hw : w₁.store = w₂.store)
    (calls : List (HostCall σ)) : (w₁.leftBy calls).store = (w₂.leftBy calls).store := by
  cases calls with
  | nil => exact hw
  | cons x calls => rw [leftBy_cons, leftBy_cons]

namespace CallLoop

variable (l : CallLoop) (s : Store) (f : Frame)

theorem receiver_enter : (l.enter s f).receiver = f.receiver := by
  rw [enter]
  split <;> rfl

theorem callback_enter : (l.enter s f).callback = f.callback := by
  rw [enter]
  split <;> rfl

theorem out_enter : (l.enter s f).out = f.out := by
  rw [enter]
  split <;> rfl

end CallLoop

namespace Method

variable {m : Method}

section Runs

variable {h : Host σ} {left : Nat} {i : UInt64} {f : Frame} {w w' : World σ}
  {calls : List (HostCall σ)} {o : Except Fault Flow}

/-- What every call of a run leaves as it is, and is not the array under construction, the run
leaves as it is. -/
theorem agree_of_runs (run : m.step.Runs h left i f w calls o w') {v : Value}
    (hv : ∀ r, f.out = .array r → v ≠ .array r)
    (hkeeps : ∀ x ∈ calls, x.before.store.Agree x.after.store v) : w.store.Agree w'.store v := by
  have hedit {s : Store} {f : Frame} {i : UInt64} {args : List Value} {u : Value}
      (hv : ∀ r, f.out = .array r → v ≠ .array r) : s.Agree (m.step.edit f i args u s) v :=
    agree_edit hv
  induction run with
  | finished | unready | uncallable => exact .refl _ v
  | failed _ _ hx =>
    have hcall := hkeeps _ (List.mem_singleton_self _)
    rw [hx] at hcall ⊢
    exact hcall
  | stopped _ _ hx =>
    have hcall := hkeeps _ (List.mem_singleton_self _)
    rw [hx] at hcall ⊢
    exact hcall.trans (hedit hv)
  | continued _ _ hx _ hflow _ ih =>
    have hcall := hkeeps _ List.mem_cons_self
    have hrest := ih (fun r hr => hv r (out_of_flow hflow hr))
      fun y hy => hkeeps y (List.mem_cons_of_mem _ hy)
    rw [hx] at hcall hrest
    exact (hcall.trans (hedit hv)).trans hrest

/-- Only `legacy` reads an element before the call. -/
theorem eq_legacy_of_args_eq_error {s : Store} {e : Fault} (hargs : m.step.args s f i = .error e) :
    m = .legacy ∧ (s.element f.receiver i).isNullish ∧
      e = .unreadable (s.element f.receiver i) nodeKey := by
  cases m with
  | legacy =>
    refine ⟨rfl, Store.isNullish_of_read_eq_error (s := s) ?_⟩
    simp only [step, CallStep.unwrap, Frame.element] at hargs
    cases hread : s.read (s.element f.receiver i) nodeKey with
    | error e' =>
      rw [hread] at hargs
      cases hargs
      rfl
    | ok node =>
      rw [hread] at hargs
      cases hargs
  | _ => cases hargs

/-- A run whose calls all succeed fails only at an element that cannot be unwrapped. -/
theorem eq_legacy_of_runs (run : m.step.Runs h left i f w calls o w') {r : FunctionRef}
    (hcallback : f.callback = .function r) (hok : ∀ x ∈ calls, ∃ v, x.outcome = .ok v) {e : Fault}
    (ho : o = .error e) :
    m = .legacy ∧ calls.length < left ∧
      ((w.leftBy calls).store.element f.receiver (i + .ofNat calls.length)).isNullish ∧
      e = .unreadable
        ((w.leftBy calls).store.element f.receiver (i + .ofNat calls.length)) nodeKey := by
  induction run with
  | finished | stopped => cases ho
  | @unready left i f w e' hargs =>
    cases ho
    obtain ⟨hm, hnullish, he⟩ := eq_legacy_of_args_eq_error hargs
    have hzero : i + .ofNat 0 = i := UInt64.add_zero i
    rw [List.length_nil, World.leftBy_nil, hzero]
    exact ⟨hm, Nat.succ_pos left, hnullish, he⟩
  | uncallable _ hcb => exact absurd hcallback (hcb r)
  | failed _ _ _ hout =>
    obtain ⟨v, hv⟩ := hok _ (List.mem_singleton_self _)
    rw [hout] at hv
    cases hv
  | @continued left i f w args r' x v g calls o w' _ _ _ _ hflow _ ih =>
    have hg := (flow_eq_next hflow).2
    obtain ⟨rfl, hlength, hrest⟩ := ih (hg.callback.trans hcallback)
      (fun y hy => hok y (List.mem_cons_of_mem x hy)) ho
    -- between two calls `legacy` writes nothing
    rw [hg.receiver, CallStep.index_succ] at hrest
    rw [World.leftBy_cons]
    exact ⟨rfl, Nat.succ_lt_succ hlength, hrest⟩

end Runs

section Call

/-- The epilogue of a method writes nothing. -/
theorem leave_snd (o : Except Fault Flow) (w : World σ) : (m.callLoop.leave o w).2 = w := by
  rcases o with e | f | v
  · rfl
  · cases m <;> rfl
  · rfl

theorem leave_eq_error {o : Except Fault Flow} {w : World σ} {e : Fault}
    (h : (m.callLoop.leave o w).1 = .error e) : o = .error e := by
  rcases o with e' | f | v
  · exact congrArg Except.error (Except.error.inj h)
  · cases h
  · cases h

theorem ne_array_of_contains {s : Store} {v : Value} (hv : s.Contains v) :
    v ≠ .array ⟨s.arrays.size⟩ := by
  rintro rfl
  exact Nat.lt_irrefl _ hv

/-- The prologue of `map` may refuse a receiver; every other one comes to its end. It writes no
container that there was before, and what it makes is none of them. -/
theorem prologue_cases (m : Method) (receiver callback : Value) (second : Option Value)
    (s : Store) :
    (m = .map ∧ maxArrayLength < s.length receiver ∧
      (m.callLoop.prologue (.start receiver callback second)).run.run s =
        (.error .invalidLength, s)) ∨
    ∃ g s', (m.callLoop.prologue (.start receiver callback second)).run.run s = (.ok g, s') ∧
      g.receiver = receiver ∧ g.callback = callback ∧
      ∀ v, s.Contains v → s.Agree s' v ∧ ∀ r, g.out = .array r → v ≠ .array r := by
  have hnew (vs : Array Value) (v : Value) (hv : s.Contains v) :
      s.Agree (s.newArray vs).2 v ∧
        ∀ r, Value.array ⟨s.arrays.size⟩ = .array r → v ≠ .array r := by
    refine ⟨Store.agree_newArray vs fun h => absurd h (ne_array_of_contains hv), fun r hr => ?_⟩
    rw [← hr]
    exact ne_array_of_contains hv
  cases m with
  | map =>
    have hrun := run_preallocate (.start receiver callback second) s
    by_cases hlong : maxArrayLength < s.length receiver
    · exact .inl ⟨rfl, hlong, hrun.trans (if_pos hlong)⟩
    · exact .inr ⟨_, _, hrun.trans (if_neg hlong), rfl, rfl, hnew _⟩
  | filter => exact .inr ⟨_, _, run_startEmpty _ s, rfl, rfl, hnew _⟩
  | reduce =>
    exact .inr ⟨_, s, run_seedFirst receiver callback second s, rfl, rfl,
      fun v _ => ⟨.refl s v, nofun⟩⟩
  | reduceRight =>
    by_cases hseed : second = none → s.length receiver ≠ 0
    · exact .inr ⟨_, s, run_seedLast receiver callback second s hseed, rfl, rfl,
        fun v _ => ⟨.refl s v, nofun⟩⟩
    · obtain ⟨rfl, hlength⟩ := Classical.not_imp.1 hseed
      exact .inr ⟨_, s, run_seedLast_of_length_eq_zero callback (Classical.not_not.1 hlength), rfl,
        rfl, fun v _ => ⟨.refl s v, nofun⟩⟩
  | _ => exact .inr ⟨_, s, rfl, rfl, rfl, fun v _ => ⟨.refl s v, nofun⟩⟩

/-- A method adds no write and no fault to the calls of its callback. A container that there was
before, and that every call leaves as it is, is left as it is however the method ends. The fault of
a call ends the method at once. If the callback is a function and no call fails, `map` fails for a
receiver that is too long, before any call, `legacy` at an element that is undefined or null when
its turn comes, and no other method at all. -/
theorem call_adds_nothing (m : Method) (h : Host σ) (w : World σ) (receiver callback : Value)
    (second : Option Value) :
    let calls := m.calls h receiver callback second w
    let ending := (m.call h receiver callback second).runOn w
    (∀ v, w.store.Contains v → (∀ x ∈ calls, x.before.store.Agree x.after.store v) →
      w.store.Agree ending.2.store v) ∧
    (∀ (k : Nat) x e, calls[k]? = Option.some x → x.outcome = .error e →
      calls.length = k + 1 ∧ ending = (.error e, x.after)) ∧
    ∀ r e, callback = .function r → (∀ x ∈ calls, ∃ v, x.outcome = .ok v) → ending.1 = .error e →
      (m = .map ∧ maxArrayLength < w.store.length receiver ∧ calls = [] ∧ e = .invalidLength) ∨
      (m = .legacy ∧ calls.length < (w.store.length receiver).toNat ∧
        let s := (w.leftBy calls).store
        let element := s.element receiver (.ofNat calls.length)
        element.isNullish ∧ e = .unreadable element nodeKey) := by
  intro calls ending
  have hcall := m.runs_call h receiver callback second w
  rcases prologue_cases m receiver callback second w.store with
    ⟨hm, hlong, hprologue⟩ | ⟨g, s, hprologue, hreceiver, hcallback, hapart⟩
  · obtain ⟨hcalls, hend, hworld⟩ := hcall.of_error hprologue
    have hcalls : calls = [] := hcalls
    refine ⟨fun v _ _ => ?_, fun k x e hk => ?_, fun r e _ _ he => .inl ⟨hm, hlong, hcalls, ?_⟩⟩
    · have hstore : ending.2.store = w.store := congrArg World.store hworld
      rw [hstore]
      exact .refl w.store v
    · rw [hcalls] at hk
      simp at hk
    · exact (Except.error.inj (hend.symm.trans he)).symm
  · obtain ⟨o, w', hruns, hleave⟩ := hcall.of_ok hprologue
    have hending : m.callLoop.leave o w' = ending := hleave
    have hworld : ending.2 = w' := by rw [← hending, leave_snd]
    refine ⟨fun v hv hkeeps => ?_, fun k x e hk hx => ?_, fun r e hr hok he => .inr ?_⟩
    · obtain ⟨hagree, hout⟩ := hapart v hv
      have hrun := agree_of_runs hruns (v := v) (by rwa [CallLoop.out_enter]) hkeeps
      rw [hworld]
      exact hagree.trans hrun
    · obtain ⟨hlength, ho, hx⟩ := hruns.eq_of_failed hk hx
      refine ⟨hlength, ?_⟩
      rw [← hending, ho, hx]
      rfl
    · have ho : o = .error e := leave_eq_error (w := w') (by rw [hending]; exact he)
      obtain ⟨rfl, hlength, hnullish, he⟩ := eq_legacy_of_runs hruns
        ((m.callLoop.callback_enter s g).trans (hcallback.trans hr)) hok ho
      obtain rfl : w.store = s := congrArg Prod.snd hprologue
      have hentered : (legacy.callLoop.entered w.store g w).store = w.store := rfl
      rw [CallLoop.receiver_enter, hreceiver, UInt64.zero_add,
        World.store_leftBy_congr hentered] at hnullish he
      rw [enter_callLoop (by decide), hreceiver] at hlength
      exact ⟨rfl, hlength, hnullish, he⟩

end Call

end Method

/-- A host whose functions throw what they were given first. -/
def throwingHost : Host Unit where
  plain _ args := throw (.thrown (args.headD .undefined))
  method _ _ args := throw (.thrown (args.headD .undefined))

/-- The first call throws, no other one is made, and the receiver is as it was. -/
theorem Method.call_adds_nothing_throwing :
    let calls := Method.every.calls throwingHost (.array ⟨0⟩) (.function ⟨.plain, 0⟩) none
      threeStrings
    let ending := (Method.every.call throwingHost (.array ⟨0⟩) (.function ⟨.plain, 0⟩) none).runOn
      threeStrings
    threeStrings.store.Contains (.array ⟨0⟩) ∧ calls.length = 1 ∧ (∃ e, ending.1 = .error e) ∧
      threeStrings.store.Agree ending.2.store (.array ⟨0⟩) := by
  -- a method that is a variable has no source text to evaluate
  obtain ⟨m, hm⟩ : ∃ m, m = Method.every := ⟨_, rfl⟩
  rw [← hm]
  intro calls ending
  obtain ⟨hwrites, hfaults, -⟩ := m.call_adds_nothing throwingHost threeStrings
    (.array ⟨0⟩) (.function ⟨.plain, 0⟩) none
  have hcontains : threeStrings.store.Contains (.array ⟨0⟩) := Nat.zero_lt_one
  have hcall (x) (hx : x ∈ calls) :
      x.before.store.Agree x.after.store (.array ⟨0⟩) ∧ ∃ e, x.outcome = .error e := by
    obtain ⟨⟨kind, i⟩, b, args, hx⟩ := m.exists_eq_callOf _ _ _ _ _ hx
    rw [hx]
    cases kind <;> exact ⟨.refl _ _, _, rfl⟩
  have hne : calls ≠ [] := by
    intro hnil
    have hlength := length_calls_of_not_ends (m := m) (.array ⟨0⟩) none (by rw [hm]; decide)
      throwingHost threeStrings ⟨.plain, 0⟩ (by rw [hm]; nofun) fun x hx => by
        change x ∈ calls at hx
        rw [hnil] at hx
        cases hx
    change calls.length = _ at hlength
    rw [hnil] at hlength
    exact absurd hlength (by decide +kernel)
  obtain ⟨x, hfirst⟩ : ∃ x, calls[0]? = Option.some x :=
    ⟨_, List.getElem?_eq_getElem (List.length_pos_iff.2 hne)⟩
  obtain ⟨e, he⟩ := (hcall x (List.mem_of_getElem? hfirst)).2
  obtain ⟨hone, hending⟩ := hfaults 0 x e hfirst he
  exact ⟨hcontains, hone, ⟨e, congrArg Prod.fst hending⟩,
    hwrites _ hcontains fun x hx => (hcall x hx).1⟩

end CollectionLoops
