import CollectionLoops.Proofs.LogIndependence
import CollectionLoops.Proofs.OwnEffects

/-!
What the context of a visiting method has an influence on. It stands in three fields of the frame: the
second argument, whether one was passed, and how the callback is invoked. No iteration lets any of them
into its arguments, its writes or its result. Main statement: a falsy context is none at all, and for a
plain callback every context is, but for one flag in the log.
-/
namespace CollectionLoops

variable {σ : Type}

/-- The frame of a call with another context. -/
def Frame.withContext (f : Frame) (that : Value) (seeded : Bool) (invoker : Invoker) : Frame :=
  { f with that, seeded, invoker }

/-- An iteration that ends alike, with another context in its frame. -/
def Flow.withContext (that : Value) (seeded : Bool) (invoker : Invoker) : Flow → Flow
  | .next f => .next (f.withContext that seeded invoker)
  | .done v => .done v

/-- The record with another flag for a bound callback. -/
def LogRecord.flagged (bound : Bool) : LogRecord → LogRecord
  | .iterations name count _ => .iterations name count bound
  | .compiled name source => .compiled name source

namespace World

/-- The world with another flag for a bound callback in one record of its log. -/
def flagged (w : World σ) (k : Nat) (bound : Bool) : World σ :=
  { w with log := w.log.modify k (.flagged bound) }

/-- Where there is no record there is no flag. -/
theorem flagged_of_size_le {w : World σ} {k : Nat} (hk : w.log.size ≤ k) (bound : Bool) :
    w.flagged k bound = w := by
  have hlog : w.log.modify k (.flagged bound) = w.log := by
    apply Array.ext_getElem?
    intro i
    rw [Array.getElem?_modify]
    split
    · next hi =>
      subst hi
      rw [Array.getElem?_eq_none hk]
      rfl
    · rfl
  rw [flagged, hlog]

/-- The flag of the last one of the earlier records. -/
theorem flagged_loggedAfter_push (w : World σ) (earlier : Array LogRecord) (r : LogRecord)
    (bound : Bool) : (w.loggedAfter (earlier.push r)).flagged earlier.size bound =
      w.loggedAfter (earlier.push (r.flagged bound)) := by
  have hlog : (earlier.push r ++ w.log).modify earlier.size (.flagged bound) =
      earlier.push (r.flagged bound) ++ w.log := by
    apply Array.ext_getElem?
    intro i
    rw [Array.getElem?_modify]
    rcases Nat.lt_trichotomy i earlier.size with hlt | rfl | hgt
    · simp [Array.getElem?_append, Array.getElem_push, Nat.lt_succ_of_lt hlt, hlt, Nat.ne_of_gt hlt]
    · simp [Array.getElem?_append]
    · have hnot : ¬ i < earlier.size + 1 := Nat.not_lt.2 hgt
      simp [Array.getElem?_append, hnot, Nat.ne_of_lt hgt]
  rw [flagged, loggedAfter, loggedAfter, hlog]

end World

/-- The call as it is made with another flag in one record of the log. -/
def HostCall.flagged (x : HostCall σ) (k : Nat) (bound : Bool) : HostCall σ :=
  { x with before := x.before.flagged k bound, after := x.after.flagged k bound }

namespace Method

section Context

variable {m : Method} (that : Value) (seeded : Bool) (invoker : Invoker)

theorem flow_withContext (hm : m ∈ visitors) (f : Frame) (v : Value) :
    m.step.flow (f.withContext that seeded invoker) v =
      (m.step.flow f v).withContext that seeded invoker := by
  cases m with
  | some =>
    simp only [step, CallStep.visit]
    split <;> rfl
  | reduce | reduceRight | legacy => exact absurd hm (by decide)
  | _ => rfl

theorem edit_withContext (f : Frame) :
    m.step.edit (f.withContext that seeded invoker) = m.step.edit f := by
  cases m <;> rfl

/-- The iterations of a visiting method for a frame with another context, if the callback is called
alike with the two bindings. -/
theorem runs_withContext {h : Host σ} {left : Nat} {i : UInt64} {f : Frame} {w w' : World σ}
    {calls : List (HostCall σ)} {o : Except Fault Flow} (run : m.step.Runs h left i f w calls o w')
    (hm : m ∈ visitors) (hcalled : ∀ r args w, f.callback = .function r →
      h.callOf r invoker.binding? args w = h.callOf r f.invoker.binding? args w) :
    m.step.Runs h left i (f.withContext that seeded invoker) w calls
      (o.map (.withContext that seeded invoker)) w' := by
  have hargs {s : Store} {f : Frame} {i : UInt64} {args : Except Fault (List Value)}
      (hargs : m.step.args s f i = args) :
      m.step.args s (f.withContext that seeded invoker) i = args := by
    rw [← hargs, args_step hm, args_step hm]
    rfl
  have hcall {f : Frame} {r : FunctionRef} {args : List Value} {x : HostCall σ} {w : World σ}
      (hcalled : h.callOf r invoker.binding? args w = h.callOf r f.invoker.binding? args w)
      (hx : x = h.callOf r (m.step.binding f) args w) :
      x = h.callOf r (m.step.binding (f.withContext that seeded invoker)) args w := by
    rw [hx, binding_step hm, binding_step hm]
    exact hcalled.symm
  have hends {f : Frame} {v : Value} {flow : Flow} (hflow : m.step.flow f v = flow) :
      m.step.flow (f.withContext that seeded invoker) v = flow.withContext that seeded invoker := by
    rw [flow_withContext that seeded invoker hm, hflow]
  induction run with
  | finished i f w => exact .finished i _ w
  | unready hready => exact .unready (hargs hready)
  | uncallable hready hnone => exact .uncallable (hargs hready) hnone
  | failed hready hfunction hx hout =>
    exact .failed (hargs hready) hfunction (hcall (hcalled _ _ _ hfunction) hx) hout
  | stopped hready hfunction hx hout hflow =>
    rw [← edit_withContext that seeded invoker]
    exact .stopped (hargs hready) hfunction (hcall (hcalled _ _ _ hfunction) hx) hout (hends hflow)
  | continued hready hfunction hx hout hflow _ ih =>
    obtain ⟨-, hsame⟩ := flow_eq_next hflow
    have hrest := ih (by rwa [hsame.callback, hsame.invoker])
    rw [← edit_withContext that seeded invoker] at hrest
    exact .continued (hargs hready) hfunction (hcall (hcalled _ _ _ hfunction) hx) hout (hends hflow)
      hrest

/-- The prologue of a visiting method passes the second argument on. -/
theorem prologue_withContext (hm : m ∈ visitors) (f : Frame) (s : Store) :
    (m.callLoop.prologue (f.withContext that seeded invoker)).run.run s =
      (((m.callLoop.prologue f).run.run s).1.map (·.withContext that seeded invoker),
        ((m.callLoop.prologue f).run.run s).2) := by
  cases m with
  | map =>
    have hrun := run_preallocate f s
    have hrun' := run_preallocate (f.withContext that seeded invoker) s
    have hlength : (f.withContext that seeded invoker).length s = f.length s := rfl
    rw [hlength] at hrun'
    change (preallocate _).run.run s = (((preallocate f).run.run s).1.map _,
      ((preallocate f).run.run s).2)
    rw [hrun, hrun']
    split <;> rfl
  | reduce | reduceRight | legacy => exact absurd hm (by decide)
  | _ => rfl

theorem leave_withContext (hm : m ∈ visitors) (o : Except Fault Flow) (w : World σ) :
    m.callLoop.leave (o.map (.withContext that seeded invoker)) w = m.callLoop.leave o w := by
  rcases o with e | f | v
  · rfl
  · cases m <;> first | rfl | exact absurd hm (by decide)
  · rfl

end Context

section Call

variable {m : Method}

/-- The log before the first iteration. -/
def logEntered (m : Method) (w : World σ) (n : UInt64) (context : Option Value) : Array LogRecord :=
  w.log.push (.iterations m.name n (context.any Value.isTruthy))

theorem isBound_resolve_getD (context : Option Value) :
    (Invoker.resolve (context.getD .undefined)).isBound = context.any Value.isTruthy := by
  rw [Invoker.isBound_resolve]
  cases context <;> rfl

/-- The iterations of a visiting method with any context, if its prologue does not refuse the receiver.
The context is in the frame, and its flag in the last record before the first iteration. -/
theorem runs_of_context (hm : m ∈ visitors) (h : Host σ) (receiver callback : Value) (w : World σ) :
    (∃ o w', ∀ context, m.calls h receiver callback context w = [] ∧
      (m.call h receiver callback context).runOn w = (o, w') ∧ w'.log = w.log) ∨
    ∃ (f : Frame) (s : Store), f.callback = callback ∧ ∀ context : Option Value, ∃ o w',
      m.step.Runs h f.count.toNat 0
        (f.withContext (context.getD .undefined) context.isSome (.resolve (context.getD .undefined)))
        (World.loggedAfter ⟨s, #[], w.host⟩ (m.logEntered w f.count context))
        (m.calls h receiver callback context w) o w' ∧
      m.callLoop.leave o w' = (m.call h receiver callback context).runOn w := by
  have hcall (context : Option Value) := m.runs_call h receiver callback context w
  rcases prologue_cases m receiver callback none w.store with
    ⟨-, -, hrefused⟩ | ⟨g, s, hrun, hreceiver, hcallback, -⟩
  · refine .inl ⟨.error .invalidLength, w.update fun _ => w.store, fun context => ?_⟩
    have hprologue := prologue_withContext (context.getD .undefined) context.isSome .unbound hm
      (.start receiver callback none) w.store
    rw [hrefused] at hprologue
    obtain ⟨hcalls, ho, hw⟩ := (hcall context).of_error hprologue
    exact ⟨hcalls, Prod.ext ho hw, rfl⟩
  · refine .inr ⟨{ g with count := s.length receiver }, s, hcallback, fun context => ?_⟩
    obtain ⟨that, hthat⟩ : ∃ that, that = context.getD .undefined := ⟨_, rfl⟩
    have hbound : context.any Value.isTruthy = (Invoker.resolve that).isBound := by
      rw [hthat, isBound_resolve_getD]
    have hprologue : (m.callLoop.prologue (.start receiver callback context)).run.run w.store =
        (.ok (g.withContext that context.isSome .unbound), s) := by
      have hprologue := prologue_withContext that context.isSome .unbound hm
        (.start receiver callback none) w.store
      rw [hrun, hthat] at hprologue
      rw [hthat]
      exact hprologue
    have henter : m.callLoop.enter s (g.withContext that context.isSome .unbound) =
        Frame.withContext { g with count := s.length receiver } that context.isSome
          (.resolve that) := by
      rw [enter_callLoop (List.mem_cons_of_mem _ hm), ← hreceiver]
      rfl
    obtain ⟨o, w', hruns, hleave⟩ := (hcall context).of_ok hprologue
    rw [CallLoop.entered_eq_loggedAfter, henter] at hruns
    rw [← hthat, logEntered, hbound]
    exact ⟨o, w', hruns, hleave⟩

theorem call_of_falsy (hm : m ∈ visitors) (h : Host σ) (receiver callback : Value) (w : World σ)
    {context : Value} (hfalsy : context.isTruthy = false) :
    m.calls h receiver callback (Option.some context) w = m.calls h receiver callback none w ∧
      (m.call h receiver callback (Option.some context)).runOn w =
        (m.call h receiver callback none).runOn w := by
  rcases runs_of_context hm h receiver callback w with
    ⟨o, w', hrefused⟩ | ⟨f, s, hcallback, hruns⟩
  · rw [(hrefused (Option.some context)).1, (hrefused none).1, (hrefused (Option.some context)).2.1,
      (hrefused none).2.1]
    exact ⟨rfl, rfl⟩
  · obtain ⟨o, w', hnone, hleave⟩ := hruns none
    obtain ⟨o', w'', hsome, hleave'⟩ := hruns (Option.some context)
    have hbound : (Option.some context).any Value.isTruthy = (none : Option Value).any Value.isTruthy :=
      hfalsy
    have hunbound : Invoker.resolve context = .unbound := Invoker.resolve_of_not_isTruthy hfalsy
    rw [logEntered, hbound] at hsome
    have hcontext := runs_withContext context true (.resolve context) hnone hm fun r args w _ => by
      rw [hunbound]
      rfl
    obtain ⟨hcalls, rfl, rfl⟩ := hcontext.unique hsome
    rw [← hleave, ← hleave', leave_withContext _ _ _ hm]
    exact ⟨hcalls, rfl⟩

/-- For a plain callback, every context makes one and the same run, after a log that tells whether the
context is truthy. -/
theorem exists_run_of_plain (hm : m ∈ visitors) (h : Host σ) (receiver : Value) {i : Nat}
    (hignores : ∀ args, (h.plain i args).IgnoresLog) (w : World σ) {f : Frame} {s : Store}
    (hcallback : f.callback = .function ⟨.plain, i⟩)
    (hruns : ∀ context : Option Value, ∃ o w',
      m.step.Runs h f.count.toNat 0
        (f.withContext (context.getD .undefined) context.isSome (.resolve (context.getD .undefined)))
        (World.loggedAfter ⟨s, #[], w.host⟩ (m.logEntered w f.count context))
        (m.calls h receiver (.function ⟨.plain, i⟩) context w) o w' ∧
      m.callLoop.leave o w' = (m.call h receiver (.function ⟨.plain, i⟩) context).runOn w) :
    ∃ (calls : List (HostCall σ)) (o : Except Fault Value) (w' : World σ), ∀ context,
      m.calls h receiver (.function ⟨.plain, i⟩) context w =
        calls.map (·.loggedAfter (m.logEntered w f.count context)) ∧
      (m.call h receiver (.function ⟨.plain, i⟩) context).runOn w =
        (o, w'.loggedAfter (m.logEntered w f.count context)) := by
  obtain ⟨calls, o, w', hplain, -⟩ := m.step.exists_runs h f.count.toNat 0 f ⟨s, #[], w.host⟩
  refine ⟨calls, (m.callLoop.leave o w').1, (m.callLoop.leave o w').2, fun context => ?_⟩
  obtain ⟨o', w'', hrun, hleave⟩ := hruns context
  have hlogged := runs_loggedAfter hplain (by rw [hcallback]; exact fun _ => hignores)
    (m.logEntered w f.count context)
  have hcontext := runs_withContext (context.getD .undefined) context.isSome
    (.resolve (context.getD .undefined)) hlogged hm fun r args w hr => by
      rw [hcallback] at hr
      cases hr
      rfl
  obtain ⟨hcalls, rfl, rfl⟩ := hcontext.unique hrun
  rw [← hleave, leave_withContext _ _ _ hm, CallLoop.leave_loggedAfter]
  exact ⟨hcalls, rfl⟩

theorem call_of_plain (hm : m ∈ visitors) (h : Host σ) (receiver : Value) {i : Nat}
    (hignores : ∀ args, (h.plain i args).IgnoresLog) (w : World σ) (context context' : Option Value) :
    let bound := context'.any Value.isTruthy
    let ending := (m.call h receiver (.function ⟨.plain, i⟩) context).runOn w
    m.calls h receiver (.function ⟨.plain, i⟩) context' w =
      (m.calls h receiver (.function ⟨.plain, i⟩) context w).map (·.flagged w.log.size bound) ∧
    (m.call h receiver (.function ⟨.plain, i⟩) context').runOn w =
      (ending.1, ending.2.flagged w.log.size bound) := by
  intro bound ending
  rcases runs_of_context hm h receiver (.function ⟨.plain, i⟩) w with
    ⟨o, w', hrefused⟩ | ⟨f, s, hcallback, hruns⟩
  · obtain ⟨hcalls, hrun, hlog⟩ := hrefused context
    have hending : ending = (o, w') := hrun
    rw [(hrefused context').1, (hrefused context').2.1, hcalls, hending,
      World.flagged_of_size_le (Nat.le_of_eq (congrArg Array.size hlog))]
    exact ⟨rfl, rfl⟩
  · obtain ⟨calls, o, w', hrun⟩ := exists_run_of_plain hm h receiver hignores w hcallback hruns
    have hending : ending = _ := (hrun context).2
    have hflagged (w₁ : World σ) : (w₁.loggedAfter (m.logEntered w f.count context)).flagged
        w.log.size bound = w₁.loggedAfter (m.logEntered w f.count context') :=
      w₁.flagged_loggedAfter_push w.log _ bound
    rw [(hrun context').1, (hrun context').2, (hrun context).1, hending, List.map_map, hflagged]
    refine ⟨List.map_congr_left fun x _ => ?_, rfl⟩
    simp only [Function.comp_apply, HostCall.flagged, HostCall.loggedAfter, hflagged]

end Call

/-- A context has an influence on nothing but the binding of the callback. A falsy one makes the same
run as none: the same calls, arguments and bindings, and the same store, log and outcome. For a plain
callback, which does not see its binding, all contexts make the same run, in which one record of the log
tells whether the context is truthy. -/
theorem call_noninterference {m : Method} (hm : m ∈ visitors) (h : Host σ)
    (receiver callback : Value) (w : World σ) :
    (∀ context : Value, context.isTruthy = false →
      m.calls h receiver callback (Option.some context) w = m.calls h receiver callback none w ∧
      (m.call h receiver callback (Option.some context)).runOn w =
        (m.call h receiver callback none).runOn w) ∧
    ∀ i, callback = .function ⟨.plain, i⟩ → (∀ args, (h.plain i args).IgnoresLog) →
      ∀ context context' : Option Value,
        let bound := context'.any Value.isTruthy
        let ending := (m.call h receiver callback context).runOn w
        m.calls h receiver callback context' w =
          (m.calls h receiver callback context w).map (·.flagged w.log.size bound) ∧
        (m.call h receiver callback context').runOn w =
          (ending.1, ending.2.flagged w.log.size bound) := by
  constructor
  · intro context hfalsy
    exact call_of_falsy hm h receiver callback w hfalsy
  · rintro i rfl hignores context context'
    exact call_of_plain hm h receiver hignores w context context'

/-- Calls that shorten the receiver do so with every context. -/
theorem call_noninterference_shrinking :
    let calls := fun context => map.calls shrinkingHost (.array ⟨0⟩) (.function ⟨.plain, 0⟩) context
      threeStrings
    Method.map ∈ visitors ∧ (Value.string "").isTruthy = false ∧
      (∀ args, (shrinkingHost.plain 0 args).IgnoresLog) ∧
      calls (Option.some (.string "")) = calls none ∧
      calls (Option.some (.string "bound")) = (calls none).map (·.flagged 0 true) := by
  intro calls
  have hm : Method.map ∈ visitors := by decide
  have hignores (args : List Value) : (shrinkingHost.plain 0 args).IgnoresLog := fun _ _ => rfl
  obtain ⟨hfalsy, hplain⟩ := call_noninterference hm shrinkingHost (.array ⟨0⟩)
    (.function ⟨.plain, 0⟩) threeStrings
  have hbound := (hplain 0 rfl hignores none (Option.some (.string "bound"))).1
  exact ⟨hm, rfl, hignores, (hfalsy (.string "") rfl).1, hbound⟩

end Method

end CollectionLoops
