import CollectionLoops.Proofs.ArrayLike
import CollectionLoops.Proofs.OwnEffects

/-!
Two receivers that are the same collection. If the callback takes no notice of which of the two it
is given, and leaves them alone, a method does the same for both, one iteration after the other.
Main statement: an array and an object that is like it are interchangeable.
-/
namespace CollectionLoops

variable {σ : Type}

namespace Method

/-- The binding and the arguments that a method gives its callback for the one and for the other of
two receivers, when all but the receiver is the same. Only `legacy` binds the receiver. -/
inductive Given (m : Method) (v v' : Value) :
    Option Value → List Value → Option Value → List Value → Prop
  | visit (hm : m ∈ visitors) (binding : Option Value) (element index : Value) :
      Given m v v' binding [element, index, v] binding [element, index, v']
  | fold (hm : m = .reduce ∨ m = .reduceRight) (that element index : Value) :
      Given m v v' none [that, element, index, v] none [that, element, index, v']
  | unwrap (hm : m = .legacy) (node element index : Value) :
      Given m v v' (Option.some v) [node, element, index] (Option.some v') [node, element, index]

/-- Whether a callback does the same for both receivers, in every world. -/
def Ignores (m : Method) (h : Host σ) (callback v v' : Value) : Prop :=
  ∀ b args b' args', m.Given v v' b args b' args' →
    h.call callback b args = h.call callback b' args'

/-- Whether two calls are the same apart from the receivers. -/
structure Parallel (m : Method) (v v' : Value) (x x' : HostCall σ) : Prop where
  callee : x'.callee = x.callee
  given : ∃ b b', m.Given v v' b x.args b' x'.args ∧ x.binding = x.callee.sees b ∧
    x'.binding = x.callee.sees b'
  before : x'.before = x.before
  outcome : x'.outcome = x.outcome
  after : x'.after = x.after

/-- Whether two calls of a method end with one fault or value, or each with its own receiver. -/
inductive SameOutcome (m : Method) (v v' : Value) : Except Fault Value → Except Fault Value → Prop
  | failed (e : Fault) : SameOutcome m v v' (.error e) (.error e)
  | own (hm : m = .each ∨ m = .legacy) : SameOutcome m v v' (.ok v) (.ok v')
  | same (hm : m ≠ .each ∧ m ≠ .legacy) (u : Value) : SameOutcome m v v' (.ok u) (.ok u)

/-- The frame of a method that is at work on another receiver. -/
def handed (m : Method) (v : Value) (f : Frame) : Frame :=
  match m with
  | .legacy => { f with receiver := v, that := v, invoker := .bound v }
  | _ => { f with receiver := v }

/-- Whether a frame is one of a method at work on a receiver. -/
structure AtWork (m : Method) (v : Value) (f : Frame) : Prop where
  receiver : f.receiver = v
  bound : m = .legacy → f.invoker = .bound v

/-- Whether the iterations for two receivers end alike. -/
inductive SameFlow (m : Method) (v v' : Value) : Except Fault Flow → Except Fault Flow → Prop
  | failed (e : Fault) : SameFlow m v v' (.error e) (.error e)
  | stopped (hm : m = .some) (u : Value) : SameFlow m v v' (.ok (.done u)) (.ok (.done u))
  | finished {f : Frame} (hf : m.AtWork v f) :
      SameFlow m v v' (.ok (.next f)) (.ok (.next (m.handed v' f)))

variable {m : Method} {v v' : Value}

theorem kinds (m : Method) : m ∈ visitors ∨ (m = .reduce ∨ m = .reduceRight) ∨ m = .legacy := by
  cases m <;> decide

theorem SameOutcome.eq {o o' : Except Fault Value} (h : m.SameOutcome v v' o o')
    (hm : m ≠ .each ∧ m ≠ .legacy) : o' = o := by
  cases h with
  | failed | same => rfl
  | own hown =>
    rcases hown with rfl | rfl
    · exact absurd rfl hm.1
    · exact absurd rfl hm.2

theorem handed_of_ne_legacy (hm : m ≠ .legacy) (v : Value) (f : Frame) :
    m.handed v f = { f with receiver := v } := by
  cases m <;> first | rfl | exact absurd rfl hm

section Frame

variable (m) (v) (f : Frame)

@[simp] theorem receiver_handed : (m.handed v f).receiver = v := by cases m <;> rfl

@[simp] theorem callback_handed : (m.handed v f).callback = f.callback := by cases m <;> rfl

@[simp] theorem out_handed : (m.handed v f).out = f.out := by cases m <;> rfl

@[simp] theorem count_handed : (m.handed v f).count = f.count := by cases m <;> rfl

end Frame

section Step

variable {s : Store} {f g : Frame} {i : UInt64} {args : List Value} {u : Value}

theorem element_handed (hf : m.AtWork v f) (halike : s.Alike v v') (i : UInt64) :
    (m.handed v' f).element s i = f.element s i := by
  rw [Frame.element, Frame.element, receiver_handed, hf.receiver, halike.element]

theorem args_handed_of_error (hf : m.AtWork v f) (halike : s.Alike v v') {e : Fault}
    (hargs : m.step.args s f i = .error e) : m.step.args s (m.handed v' f) i = .error e := by
  obtain ⟨rfl, -⟩ := eq_legacy_of_args_eq_error hargs
  rw [← hargs]
  simp only [step, CallStep.unwrap, element_handed hf halike]

theorem args_fold (hm : m = .reduce ∨ m = .reduceRight) (v' : Value) (s : Store) (f : Frame)
    (i : UInt64) : ∃ j, m.step.args s f i = .ok [f.that, f.element s j, .number j.toFloat, f.receiver] ∧
      m.step.args s (m.handed v' f) i =
        .ok [f.that, (m.handed v' f).element s j, .number j.toFloat, v'] := by
  rcases hm with rfl | rfl <;> exact ⟨_, rfl, rfl⟩

/-- The two iterations give the callback the same but for the receivers, and make the same of a
result. -/
theorem given_handed (hf : m.AtWork v f) (halike : s.Alike v v')
    (hargs : m.step.args s f i = .ok args) :
    ∃ args', m.step.args s (m.handed v' f) i = .ok args' ∧
      m.Given v v' (m.step.binding f) args (m.step.binding (m.handed v' f)) args' ∧
      m.step.edit (m.handed v' f) i args' = m.step.edit f i args := by
  rcases m.kinds with hm | hm | rfl
  · have hinvoker : (m.handed v' f).invoker = f.invoker := by
      cases m <;> first | rfl | exact absurd hm (by decide)
    rw [args_step hm, hf.receiver] at hargs
    cases hargs
    refine ⟨[f.element s i, .number i.toFloat, v'], ?_, ?_, ?_⟩
    · rw [args_step hm, element_handed hf halike, receiver_handed]
    · rw [binding_step hm, binding_step hm, hinvoker]
      exact .visit hm _ _ _
    · cases m <;> rfl
  · obtain ⟨j, hj, hj'⟩ := args_fold hm v' s f i
    rw [hj, hf.receiver] at hargs
    cases hargs
    have hbinding (g : Frame) : m.step.binding g = none := by rcases hm with rfl | rfl <;> rfl
    refine ⟨_, hj', ?_, ?_⟩
    · rw [hbinding, hbinding, element_handed hf halike]
      exact .fold hm _ _ _
    · rcases hm with rfl | rfl <;> rfl
  · have hbinding : legacy.step.binding f = Option.some v := by
      simp only [step, CallStep.unwrap, hf.bound rfl, Invoker.binding?]
    refine ⟨args, ?_, ?_, rfl⟩
    · rw [← hargs]
      simp only [step, CallStep.unwrap, element_handed hf halike]
    · rw [hbinding]
      simp only [step, CallStep.unwrap] at hargs
      cases hread : s.read (f.element s i) nodeKey with
      | error e =>
        rw [hread] at hargs
        cases hargs
      | ok node =>
        rw [hread] at hargs
        cases hargs
        exact .unwrap rfl _ _ _

theorem flow_handed_of_next (v' : Value) (hflow : m.step.flow f u = .next g) :
    m.step.flow (m.handed v' f) u = .next (m.handed v' g) := by
  cases m with
  | some =>
    simp only [step, CallStep.visit] at hflow ⊢
    split at hflow
    · cases hflow
    · next hu =>
      cases hflow
      rw [if_neg hu]
  | _ =>
    cases hflow
    rfl

theorem flow_handed_of_done (v' : Value) {d : Value} (hflow : m.step.flow f u = .done d) :
    m = .some ∧ m.step.flow (m.handed v' f) u = .done d := by
  cases m with
  | some =>
    refine ⟨rfl, ?_⟩
    simp only [step, CallStep.visit] at hflow ⊢
    split at hflow
    · next hu =>
      cases hflow
      exact if_pos hu
    · cases hflow
  | _ => cases hflow

theorem AtWork.of_flow (hf : m.AtWork v f) (hflow : m.step.flow f u = .next g) : m.AtWork v g where
  receiver := (flow_eq_next hflow).2.receiver.trans hf.receiver
  bound hm := (flow_eq_next hflow).2.invoker.trans (hf.bound hm)

end Step

theorem parallel_callOf {h : Host σ} {r : FunctionRef} {b b' : Option Value}
    {args args' : List Value} (hignores : m.Ignores h (.function r) v v')
    (hgiven : m.Given v v' b args b' args') (w : World σ) :
    m.Parallel v v' (h.callOf r b args w) (h.callOf r b' args' w) where
  callee := rfl
  given := ⟨b, b', hgiven, rfl, rfl⟩
  before := rfl
  outcome := by simp only [Host.callOf, hignores b args b' args' hgiven]
  after := by simp only [Host.callOf, hignores b args b' args' hgiven]

section Runs

variable {h : Host σ} {left : Nat} {i : UInt64} {f : Frame} {w w₁ w₁' : World σ}
  {calls calls' : List (HostCall σ)} {o o' : Except Fault Flow}

/-- An iteration for the other receiver makes a parallel call, and does after it what the one for
the first receiver does. -/
theorem exists_parallel (run' : m.step.Runs h (left + 1) i (m.handed v' f) w calls' o' w₁')
    (hf : m.AtWork v f) (halike : w.store.Alike v v') (hignores : m.Ignores h f.callback v v')
    {args : List Value} {r : FunctionRef} {x : HostCall σ}
    (hargs : m.step.args w.store f i = .ok args) (hcallback : f.callback = .function r)
    (hx : x = h.callOf r (m.step.binding f) args w) :
    ∃ x' rest, calls' = x' :: rest ∧ m.Parallel v v' x x' ∧
      match x.outcome with
      | .error e => rest = [] ∧ o' = .error e ∧ w₁' = x.after
      | .ok u =>
        match m.step.flow f u with
        | .done d => m = .some ∧ rest = [] ∧ o' = .ok (.done d) ∧
            w₁' = x.after.update (m.step.edit f i args u)
        | .next g => m.step.Runs h left (i + 1) (m.handed v' g)
            (x.after.update (m.step.edit f i args u)) rest o' w₁' := by
  obtain ⟨args', hargs', hgiven, hedit⟩ := given_handed hf halike hargs
  have hcallback' : (m.handed v' f).callback = .function r :=
    (callback_handed m v' f).trans hcallback
  obtain ⟨rest, hcalls, hrest⟩ := run'.of_callOf hargs' hcallback' rfl
  rw [hcallback] at hignores
  have hparallel := parallel_callOf hignores hgiven w
  rw [← hx] at hparallel
  refine ⟨_, rest, hcalls, hparallel, ?_⟩
  rw [hparallel.outcome, hparallel.after, hedit] at hrest
  cases hout : x.outcome with
  | error e => rwa [hout] at hrest
  | ok u =>
    cases hflow : m.step.flow f u with
    | done d =>
      obtain ⟨hm, hflow'⟩ := flow_handed_of_done v' hflow
      simp only [hout, hflow, hflow'] at hrest ⊢
      exact ⟨hm, hrest⟩
    | next g =>
      simp only [hout, hflow, flow_handed_of_next v' hflow] at hrest ⊢
      exact hrest

/-- The iterations for the two receivers, one by one. -/
theorem runs_handed (run : m.step.Runs h left i f w calls o w₁)
    (run' : m.step.Runs h left i (m.handed v' f) w calls' o' w₁')
    (hf : m.AtWork v f) (halike : w.store.Alike v v')
    (hout : left ≠ 0 → f.OutApart ∧ (m.handed v' f).OutApart)
    (hignores : m.Ignores h f.callback v v')
    (hkeeps : ∀ x ∈ calls, x.before.store.Agree x.after.store v)
    (hkeeps' : ∀ x ∈ calls', x.before.store.Agree x.after.store v') :
    List.Forall₂ (m.Parallel v v') calls calls' ∧ m.SameFlow v v' o o' ∧ w₁' = w₁ := by
  -- on the first run; between two iterations both are in one world, where the receivers are alike
  induction run generalizing calls' o' w₁' with
  | finished i f w =>
    cases run'
    exact ⟨.nil, .finished hf, rfl⟩
  | unready hargs =>
    obtain ⟨rfl, rfl, rfl⟩ := run'.of_args_eq_error (args_handed_of_error hf halike hargs)
    exact ⟨.nil, .failed _, rfl⟩
  | uncallable hargs hcallback =>
    obtain ⟨args', hargs', -⟩ := given_handed hf halike hargs
    obtain ⟨rfl, rfl, rfl⟩ := run'.of_not_function hargs' (by rwa [callback_handed])
    rw [callback_handed]
    exact ⟨.nil, .failed _, rfl⟩
  | failed hargs hcallback hx houtcome =>
    obtain ⟨x', rest, rfl, hparallel, hrest⟩ :=
      exists_parallel run' hf halike hignores hargs hcallback hx
    rw [houtcome] at hrest
    obtain ⟨rfl, rfl, rfl⟩ := hrest
    exact ⟨.cons hparallel .nil, .failed _, rfl⟩
  | stopped hargs hcallback hx houtcome hflow =>
    obtain ⟨x', rest, rfl, hparallel, hrest⟩ :=
      exists_parallel run' hf halike hignores hargs hcallback hx
    simp only [houtcome, hflow] at hrest
    obtain ⟨hm, rfl, rfl, rfl⟩ := hrest
    exact ⟨.cons hparallel .nil, .stopped hm _, rfl⟩
  | @continued left i f w args r x u g calls o w₁ hargs hcallback hx houtcome hflow _ ih =>
    obtain ⟨x', rest, rfl, hparallel, hrest⟩ :=
      exists_parallel run' hf halike hignores hargs hcallback hx
    simp only [houtcome, hflow] at hrest
    obtain ⟨hf_out, hf_out'⟩ := hout (Nat.succ_ne_zero left)
    have hbefore : x.before = w := by rw [hx]; rfl
    have hkept : w.store.Agree (x.after.update (m.step.edit f i args u)).store v := by
      have hcall := hkeeps x List.mem_cons_self
      rw [hbefore] at hcall
      exact hcall.trans (agree_edit fun r hr => hf.receiver ▸ hf_out r hr)
    have hkept' : w.store.Agree (x.after.update (m.step.edit f i args u)).store v' := by
      have hcall := hkeeps' x' List.mem_cons_self
      rw [hparallel.before, hparallel.after, hbefore] at hcall
      refine hcall.trans (agree_edit fun r hr => ?_)
      have := hf_out' r ((out_handed m v' f).trans hr)
      rwa [receiver_handed] at this
    obtain ⟨hcalls, hend, hworld⟩ := ih hrest (hf.of_flow hflow) (halike.of_agree hkept hkept')
      (fun _ => ⟨outApart_of_flow hflow hf_out,
        outApart_of_flow (flow_handed_of_next v' hflow) hf_out'⟩)
      (by rwa [(flow_eq_next hflow).2.callback])
      (fun y hy => hkeeps y (List.mem_cons_of_mem x hy))
      fun y hy => hkeeps' y (List.mem_cons_of_mem x' hy)
    exact ⟨.cons hparallel hcalls, hend, hworld⟩

end Runs

section Call

variable {s : Store} {f f' : Frame}

theorem enter_fold (hm : m = .reduce ∨ m = .reduceRight) (s : Store) (f : Frame) :
    m.callLoop.enter s f = { f with count := foldCount.step s f } := by
  have hbinds : m.callLoop.bindsCallback = false := by
    rw [bindsCallback_callLoop]
    rcases hm with rfl | rfl <;> rfl
  have hcount : m.callLoop.count = foldCount.step := by rcases hm with rfl | rfl <;> rfl
  simp only [CallLoop.enter, hbinds, hcount, Bool.false_eq_true, if_false]

/-- Frames that the prologue left for the two receivers. -/
structure Prepared (m : Method) (v v' : Value) (f f' : Frame) : Prop where
  receiver : f.receiver = v
  context : m = .legacy → f.that = v
  other : f' =
    if m = .legacy then { f with receiver := v', that := v' } else { f with receiver := v' }

theorem enter_handed (hf : m.Prepared v v' f f') (halike : s.Alike v v') (hv : v.isTruthy)
    (hv' : v'.isTruthy) :
    m.AtWork v (m.callLoop.enter s f) ∧
      m.callLoop.enter s f' = m.handed v' (m.callLoop.enter s f) := by
  obtain ⟨rfl, hcontext, rfl⟩ := hf
  by_cases hlegacy : m = .legacy
  · subst hlegacy
    have hthat : f.that = f.receiver := hcontext rfl
    rw [enter_callLoop (by decide), enter_callLoop (by decide), if_pos rfl, hthat,
      Invoker.resolve_of_isTruthy hv, Invoker.resolve_of_isTruthy hv', halike.length]
    exact ⟨⟨rfl, fun _ => rfl⟩, rfl⟩
  · rw [if_neg hlegacy, handed_of_ne_legacy hlegacy]
    rcases m.kinds with hm | hm | hm
    · have hm : m ∈ .legacy :: visitors := List.mem_cons_of_mem _ hm
      rw [enter_callLoop hm, enter_callLoop hm, halike.length]
      exact ⟨⟨rfl, fun h => absurd h hlegacy⟩, rfl⟩
    · have hlength : Frame.length { f with receiver := v' } s = f.length s := halike.length.symm
      have hcount : foldCount.step s { f with receiver := v' } = foldCount.step s f := by
        simp only [foldCount, hlength]
      rw [enter_fold hm, enter_fold hm, hcount]
      exact ⟨⟨rfl, fun h => absurd h hlegacy⟩, rfl⟩
    · exact absurd hm hlegacy

theorem isBound_handed (hf : m.AtWork v f) :
    (m.handed v' f).invoker.isBound = f.invoker.isBound := by
  cases m with
  | legacy =>
    rw [hf.bound rfl]
    rfl
  | _ => rfl

theorem count_enter_of_length_eq_zero (hlength : s.length f.receiver = 0) :
    (m.callLoop.enter s f).count = 0 := by
  have hfold : foldCount.step s f = 0 := by
    simp only [foldCount, Frame.length, hlength, if_true, ite_self]
  rcases m.kinds with hm | hm | rfl
  · rw [enter_callLoop (List.mem_cons_of_mem _ hm), hlength]
  · rw [enter_fold hm, hfold]
  · rw [enter_callLoop (by decide), hlength]

theorem outApart_enter (hf : f.OutApart) : (m.callLoop.enter s f).OutApart := by
  intro r hr
  rw [CallLoop.receiver_enter]
  rw [CallLoop.out_enter] at hr
  exact hf r hr

theorem prologue_handed (m : Method) (callback : Value) (second : Option Value)
    (halike : s.Alike v v') :
    (∃ e s', (m.callLoop.prologue (.start v callback second)).run.run s = (.error e, s') ∧
      (m.callLoop.prologue (.start v' callback second)).run.run s = (.error e, s')) ∨
    ∃ f f' s', (m.callLoop.prologue (.start v callback second)).run.run s = (.ok f, s') ∧
      (m.callLoop.prologue (.start v' callback second)).run.run s = (.ok f', s') ∧
      m.Prepared v v' f f' ∧ f.callback = callback ∧ s.Agree s' v ∧ s.Agree s' v' ∧
      (s.length v ≠ 0 → f.OutApart ∧ f'.OutApart) := by
  have hnew {f : Frame} (hlength : s.length f.receiver ≠ 0)
      (hout : f.out = .array ⟨s.arrays.size⟩) : f.OutApart := by
    intro r hr
    rw [← hr, hout]
    exact Store.ne_array_of_length_ne_zero hlength
  cases m with
  | map =>
    have hrun := run_preallocate (.start v callback second) s
    have hrun' := run_preallocate (.start v' callback second) s
    have hlength : (Frame.start v' callback second).length s = s.length v := halike.length.symm
    rw [hlength] at hrun'
    by_cases hlong : maxArrayLength < s.length v
    · exact .inl ⟨_, s, hrun.trans (if_pos hlong), hrun'.trans (if_pos hlong)⟩
    · refine .inr ⟨_, _, _, hrun.trans (if_neg hlong), hrun'.trans (if_neg hlong),
        ⟨rfl, nofun, rfl⟩, rfl, s.agree_newArray_replicate v .undefined, ?_,
        fun hne => ⟨hnew hne rfl, hnew (halike.length ▸ hne) rfl⟩⟩
      have hagree := s.agree_newArray_replicate v' .undefined
      rwa [← halike.length] at hagree
  | filter =>
    exact .inr ⟨_, _, _, run_startEmpty _ s, run_startEmpty _ s, ⟨rfl, nofun, rfl⟩, rfl,
      Store.agree_newArray _ fun _ => rfl, Store.agree_newArray _ fun _ => rfl,
      fun hne => ⟨hnew hne rfl, hnew (halike.length ▸ hne) rfl⟩⟩
  | reduce =>
    have hrun' := run_seedFirst v' callback second s
    rw [← halike.element] at hrun'
    exact .inr ⟨_, _, s, run_seedFirst v callback second s, hrun', ⟨rfl, nofun, rfl⟩, rfl,
      .refl s v, .refl s v', fun _ => ⟨nofun, nofun⟩⟩
  | reduceRight =>
    by_cases hseed : second = none → s.length v ≠ 0
    · have hrun' := run_seedLast v' callback second s (by rwa [← halike.length])
      rw [← halike.element, ← halike.length] at hrun'
      exact .inr ⟨_, _, s, run_seedLast v callback second s hseed, hrun', ⟨rfl, nofun, rfl⟩, rfl,
        .refl s v, .refl s v', fun _ => ⟨nofun, nofun⟩⟩
    · obtain ⟨rfl, hzero⟩ := Classical.not_imp.1 hseed
      have hzero : s.length v = 0 := Classical.not_not.1 hzero
      exact .inr ⟨_, _, s, run_seedLast_of_length_eq_zero callback hzero,
        run_seedLast_of_length_eq_zero callback (halike.length.symm.trans hzero), ⟨rfl, nofun, rfl⟩,
        rfl, .refl s v, .refl s v', fun _ => ⟨nofun, nofun⟩⟩
  | legacy =>
    exact .inr ⟨_, _, s, rfl, rfl, ⟨rfl, fun _ => rfl, rfl⟩, rfl, .refl s v, .refl s v',
      fun _ => ⟨nofun, nofun⟩⟩
  | _ =>
    exact .inr ⟨_, _, s, rfl, rfl, ⟨rfl, nofun, rfl⟩, rfl, .refl s v, .refl s v',
      fun _ => ⟨nofun, nofun⟩⟩

theorem leave_handed {o o' : Except Fault Flow} (hflow : m.SameFlow v v' o o') (w : World σ) :
    m.SameOutcome v v' (m.callLoop.leave o w).1 (m.callLoop.leave o' w).1 := by
  cases hflow with
  | failed e => exact .failed e
  | stopped hm u =>
    subst hm
    exact .same (by decide) u
  | @finished f hf =>
    obtain ⟨rfl, -⟩ := hf
    cases m with
    | each | legacy => exact .own (by decide)
    | _ => exact .same (by decide) _

/-- A method does the same for two receivers that are the same collection. -/
theorem call_of_alike (m : Method) (h : Host σ) (w : World σ) (callback : Value)
    (second : Option Value) (halike : w.store.Alike v v') (hv : v.isTruthy) (hv' : v'.isTruthy)
    (hignores : m.Ignores h callback v v')
    (hkeeps : ∀ x ∈ m.calls h v callback second w, x.before.store.Agree x.after.store v)
    (hkeeps' : ∀ x ∈ m.calls h v' callback second w, x.before.store.Agree x.after.store v') :
    List.Forall₂ (m.Parallel v v') (m.calls h v callback second w)
        (m.calls h v' callback second w) ∧
      m.SameOutcome v v' ((m.call h v callback second).runOn w).1
        ((m.call h v' callback second).runOn w).1 ∧
      ((m.call h v' callback second).runOn w).2 = ((m.call h v callback second).runOn w).2 := by
  have hcall := m.runs_call h v callback second w
  have hcall' := m.runs_call h v' callback second w
  rcases m.prologue_handed callback second halike with
    ⟨e, s, hprologue, hprologue'⟩ |
      ⟨f, f', s, hprologue, hprologue', hprepared, hcallback, hagree, hagree', hout⟩
  · obtain ⟨hcalls, hend, hworld⟩ := hcall.of_error hprologue
    obtain ⟨hcalls', hend', hworld'⟩ := hcall'.of_error hprologue'
    rw [hcalls, hcalls', hend, hend', hworld, hworld']
    exact ⟨.nil, .failed e, rfl⟩
  · obtain ⟨o, w₁, hruns, hleave⟩ := hcall.of_ok hprologue
    obtain ⟨o', w₁', hruns', hleave'⟩ := hcall'.of_ok hprologue'
    have halike' : s.Alike v v' := halike.of_agree hagree hagree'
    obtain ⟨hwork, henter⟩ := enter_handed hprepared halike' hv hv'
    have hentered : m.callLoop.entered s f' w = m.callLoop.entered s f w := by
      simp only [CallLoop.entered, henter, count_handed, isBound_handed hwork]
    have hapart (hleft : (m.callLoop.enter s f).count.toNat ≠ 0) :
        (m.callLoop.enter s f).OutApart ∧ (m.handed v' (m.callLoop.enter s f)).OutApart := by
      have hne : w.store.length v ≠ 0 := by
        intro hzero
        rw [hagree.length_eq, ← hprepared.receiver] at hzero
        exact hleft (congrArg UInt64.toNat (count_enter_of_length_eq_zero hzero))
      obtain ⟨hf, hf'⟩ := hout hne
      rw [← henter]
      exact ⟨outApart_enter hf, outApart_enter hf'⟩
    rw [henter, hentered, count_handed] at hruns'
    obtain ⟨hcalls, hflow, rfl⟩ := runs_handed hruns hruns' hwork halike' hapart
      (by rwa [CallLoop.callback_enter, hcallback]) hkeeps hkeeps'
    have hend := leave_handed hflow w₁'
    rw [hleave, hleave'] at hend
    refine ⟨hcalls, hend, ?_⟩
    have hworld := leave_snd (m := m) o w₁'
    have hworld' := leave_snd (m := m) o' w₁'
    rw [hleave] at hworld
    rw [hleave'] at hworld'
    exact hworld'.trans hworld.symm

/-- An array and an object that is like it are interchangeable: from the same world, and for a
callback that takes no notice of which of the two it is given and leaves it alone, every method
makes the same calls in the same order, ends with the same fault or value, or with its own receiver,
and leaves the same world, with the same containers in it. As a collection, the object has the
length and the elements that it was made with. -/
theorem call_arrayLike (m : Method) (h : Host σ) (w : World σ) (vs : List Value) (a : ArrayRef)
    (o : ObjectRef) (callback : Value) (second : Option Value) (hlength : vs.length ≤ 2 ^ 53)
    (ha : w.store.items a = vs.toArray) (ho : w.store.properties o = Store.arrayLike vs)
    (hignores : m.Ignores h callback (.array a) (.object o))
    (hkeeps : ∀ x ∈ m.calls h (.array a) callback second w,
      x.before.store.Agree x.after.store (.array a))
    (hkeeps' : ∀ x ∈ m.calls h (.object o) callback second w,
      x.before.store.Agree x.after.store (.object o)) :
    List.Forall₂ (m.Parallel (.array a) (.object o)) (m.calls h (.array a) callback second w)
      (m.calls h (.object o) callback second w) ∧
    m.SameOutcome (.array a) (.object o) ((m.call h (.array a) callback second).runOn w).1
      ((m.call h (.object o) callback second).runOn w).1 ∧
    ((m.call h (.object o) callback second).runOn w).2 =
      ((m.call h (.array a) callback second).runOn w).2 ∧
    (w.store.length (.object o)).toNat = vs.length ∧
    ∀ i, w.store.element (.object o) i = vs[i.toNat]?.getD .undefined := by
  obtain ⟨hcalls, hend, hworld⟩ := m.call_of_alike h w callback second
    (Store.alike_of_properties_eq ha ho hlength) rfl rfl hignores hkeeps hkeeps'
  have hlt : vs.length < UInt64.size := Nat.lt_of_le_of_lt hlength (by decide)
  refine ⟨hcalls, hend, hworld, ?_, Store.element_of_properties_eq ho⟩
  rw [Store.length_of_properties_eq ho hlength, UInt64.toNat_ofNatClamp_of_lt hlt]

end Call

end Method

/-- A host whose functions give back what they were given first. -/
def echoHost : Host Unit where
  plain _ args := return args.headD .undefined
  method _ _ args := return args.headD .undefined

/-- An array of two strings, and an object that is like it. -/
def twoStrings : World Unit where
  store := ⟨#[#[.string "a", .string "b"]], #[Store.arrayLike [.string "a", .string "b"]]⟩
  log := #[]
  host := ()

/-- Both are filtered into the same new array. -/
theorem Method.call_arrayLike_twoStrings :
    twoStrings.store.items ⟨0⟩ = [.string "a", .string "b"].toArray ∧
      twoStrings.store.properties ⟨0⟩ = Store.arrayLike [.string "a", .string "b"] ∧
      Method.filter.Ignores echoHost (.function ⟨.plain, 0⟩) (.array ⟨0⟩) (.object ⟨0⟩) ∧
      (Method.filter.calls echoHost (.object ⟨0⟩) (.function ⟨.plain, 0⟩) none twoStrings).length =
        (Method.filter.calls echoHost (.array ⟨0⟩) (.function ⟨.plain, 0⟩) none twoStrings).length ∧
      (Method.filter.call echoHost (.object ⟨0⟩) (.function ⟨.plain, 0⟩) none).runOn twoStrings =
        (Method.filter.call echoHost (.array ⟨0⟩) (.function ⟨.plain, 0⟩) none).runOn
          twoStrings := by
  have hignores : Method.filter.Ignores echoHost (.function ⟨.plain, 0⟩) (.array ⟨0⟩)
      (.object ⟨0⟩) := by
    intro b args b' args' hgiven
    cases hgiven <;> rfl
  have hkeeps (v : Value) (x) (hx : x ∈ Method.filter.calls echoHost v (.function ⟨.plain, 0⟩) none
      twoStrings) : x.before.store.Agree x.after.store v := by
    obtain ⟨⟨kind, i⟩, b, args, hx⟩ := Method.filter.exists_eq_callOf _ _ _ _ _ hx
    rw [hx]
    cases kind <;> exact .refl _ _
  obtain ⟨hcalls, hend, hworld, -⟩ := Method.filter.call_arrayLike echoHost twoStrings
    [.string "a", .string "b"] ⟨0⟩ ⟨0⟩ (.function ⟨.plain, 0⟩) none (by decide) rfl rfl hignores
    (hkeeps _) (hkeeps _)
  exact ⟨rfl, rfl, hignores, hcalls.length_eq.symm, Prod.ext (hend.eq (by decide)) hworld⟩

end CollectionLoops
