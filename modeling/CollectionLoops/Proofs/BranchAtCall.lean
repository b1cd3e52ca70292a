import CollectionLoops.Proofs.Schedule

/-!
Loops that test the context anew at every call, as the branches in their sources do. Main statement:
a method that binds its callback makes the same run if it settles the invoker once, before the first
call.
-/
namespace CollectionLoops

variable {σ : Type}

/-- The branch `that ? cb.call(that, …) : cb(…)` in the source of a loop. -/
def Frame.branch (f : Frame) (h : Host σ) (args : List Value) : Run σ Value :=
  if f.that.isTruthy then h.call f.callback (some f.that) args else h.call f.callback none args

/-- The branch goes the way that was settled as long as the context is the one it was settled by. -/
theorem Frame.branch_eq_call {f : Frame} (hf : f.invoker = .resolve f.that) (h : Host σ)
    (args : List Value) : f.branch h args = h.call f.callback f.invoker.binding? args := by
  rw [branch, hf]
  cases hthat : f.that.isTruthy with
  | false => rw [Invoker.resolve_of_not_isTruthy hthat]; rfl
  | true => rw [Invoker.resolve_of_isTruthy hthat]; rfl

namespace CallStep

/-- One iteration with the branch in the place of the call. The invoker plays no part in it. -/
def branchBody (c : CallStep) : Body σ := fun h f i => do
  match c.args (← Run.store) f i with
  | .error e => throw e
  | .ok args =>
    let result ← f.branch h args
    Run.updateStore (c.edit f i args result)
    return c.flow f result

theorem branchBody_eq_body {c : CallStep} {f : Frame} (hbinding : c.binding f = f.invoker.binding?)
    (hf : f.invoker = .resolve f.that) (h : Host σ) (i : UInt64) :
    c.branchBody h f i = c.body h f i := by
  have hcall : f.branch h = h.call f.callback (c.binding f) := by
    funext args
    rw [Frame.branch_eq_call hf, hbinding]
  rw [branchBody, hcall]
  rfl

/-- An iteration after which the loop goes on got a result that lets it. -/
theorem exists_flow_eq_next {c : CallStep} {h : Host σ} {f g : Frame} {i : UInt64} {w w' : World σ}
    (hbody : (c.body h f i).runOn w = (.ok (.next g), w')) : ∃ v, c.flow f v = .next g := by
  cases hargs : c.args w.store f i with
  | error e =>
    rw [runOn_body_of_error hargs] at hbody
    cases hbody
  | ok args =>
    rw [runOn_body_of_args hargs] at hbody
    rcases hcall : (h.call f.callback (c.binding f) args).runOn w with ⟨e | v, w₁⟩
    · rw [hcall] at hbody
      cases hbody
    · rw [hcall] at hbody
      exact ⟨v, Except.ok.inj (Prod.mk.inj hbody).1⟩

end CallStep

namespace Method

variable {m : Method}

/-- No iteration of a method that binds its callback writes the context, or settles the invoker
again. -/
theorem invoker_of_flow (hm : m ∈ .legacy :: visitors) {f g : Frame} {v : Value}
    (hflow : m.step.flow f v = .next g) (hf : f.invoker = .resolve f.that) :
    g.invoker = .resolve g.that := by
  cases m with
  | reduce | reduceRight => exact absurd hm (by decide)
  | some =>
    simp only [step, CallStep.visit] at hflow
    split at hflow
    · cases hflow
    · cases hflow
      exact hf
  | _ =>
    cases hflow
    exact hf

theorem iterate_branchBody (hm : m ∈ .legacy :: visitors) (h : Host σ) (left : Nat) (i : UInt64)
    (f : Frame) (hf : f.invoker = .resolve f.that) :
    Loop.iterate m.step.branchBody h left i f = Loop.iterate m.step.body h left i f := by
  have hbinding (g : Frame) : m.step.binding g = g.invoker.binding? := by
    cases m <;> first | rfl | exact absurd hm (by decide)
  -- the invariant is that the invoker is what the context of the frame settles it to
  induction left generalizing i f with
  | zero => rfl
  | succ left ih =>
    refine Run.ext fun w => ?_
    rw [CallStep.runOn_iterate_succ, CallStep.runOn_iterate_succ,
      CallStep.branchBody_eq_body (hbinding f) hf]
    rcases hbody : (m.step.body h f i).runOn w with ⟨e | g | v, w'⟩
    · rfl
    · obtain ⟨v, hflow⟩ := CallStep.exists_flow_eq_next hbody
      simp only [ih (i + 1) g (invoker_of_flow hm hflow hf)]
    · rfl

/-- The loop of a method with the branch in the place of every call. -/
def branchLoop (m : Method) : Loop σ := { (m.loop : Loop σ) with body := m.step.branchBody }

theorem call_branchLoop_eq (hm : m ∈ .legacy :: visitors) (h : Host σ) (receiver callback : Value)
    (second : Option Value) :
    m.branchLoop.call h receiver callback second = m.call h receiver callback second := by
  have hbinds : (m.loop : Loop σ).bindsCallback = true := by
    rw [loop_eq]
    exact bindsCallback_of_mem hm
  have hproceed {f : Frame} (hf : f.invoker = .resolve f.that) :
      (m.branchLoop : Loop σ).proceed h f = (m.loop : Loop σ).proceed h f := by
    have hbody : (m.branchLoop : Loop σ).body = m.step.branchBody := rfl
    rw [Loop.proceed, Loop.proceed, hbody, body_loop, iterate_branchBody hm h _ 0 f hf]
    rfl
  -- up to the first iteration the two loops are one
  have henter : (m.branchLoop : Loop σ).enter h receiver callback second =
    (m.loop : Loop σ).enter h receiver callback second := rfl
  refine Run.ext fun w => ?_
  rw [Method.call, Loop.runOn_call, Loop.runOn_call, henter]
  rcases hrun : ((m.loop : Loop σ).enter h receiver callback second).runOn w with ⟨e | f, w'⟩
  · rfl
  · dsimp only
    rw [hproceed (Loop.invoker_of_enter hbinds hrun)]
    rfl

/-- To settle the invoker once, after the prologue, and to test the context at every call is the
same for a method that binds its callback, whatever the calls do: the runs end alike in the same
world, and the same calls are made on the way. -/
theorem call_branchLoop (hm : m ∈ .legacy :: visitors) (h : Host σ) (receiver callback : Value)
    (second : Option Value) :
    m.branchLoop.call h receiver callback second = m.call h receiver callback second ∧
      ∀ w, ((m.branchLoop.call h.recording receiver callback second).runOn
        (w.withCalls [])).2.host.calls = m.calls h receiver callback second w := by
  refine ⟨call_branchLoop_eq hm h receiver callback second, fun w => ?_⟩
  rw [call_branchLoop_eq hm, Method.calls]

/-- The receiver loses an item with every call, and is still what every call is bound to. -/
theorem call_branchLoop_legacy :
    Method.legacy ∈ .legacy :: visitors ∧
      (Method.legacy.branchLoop.call shrinkingHost (.array ⟨0⟩) (.function ⟨.method, 0⟩) none).runOn
          threeStrings =
        (Method.legacy.call shrinkingHost (.array ⟨0⟩) (.function ⟨.method, 0⟩) none).runOn
          threeStrings := by
  have hm : Method.legacy ∈ .legacy :: visitors := by decide
  obtain ⟨hcall, -⟩ := call_branchLoop hm shrinkingHost (.array ⟨0⟩) (.function ⟨.method, 0⟩) none
  exact ⟨hm, congrArg (Run.runOn · threeStrings) hcall⟩

end Method

end CollectionLoops
