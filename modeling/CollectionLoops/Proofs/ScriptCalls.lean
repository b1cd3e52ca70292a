import CollectionLoops.Proofs.CallTree
import CollectionLoops.Proofs.LogIndependence
import CollectionLoops.Script

/-!
Scripts make forests of calls. Main statements: every function of a script makes one, however deep it
calls other functions and loops, and none of the loops that it calls settles the invoker in its prologue;
and what makes a forest of calls takes no notice of what was logged before.
-/
namespace CollectionLoops

variable {σ : Type} {α : Type}

section Log

/-- The call as it is made with records from earlier in the log. -/
def LoopCall.loggedAfter (c : LoopCall σ) (earlier : Array LogRecord) : LoopCall σ :=
  { c with before := c.before.loggedAfter earlier }

theorem LoopCall.logged_loggedAfter (c : LoopCall σ) (f : Frame) (w : World σ)
    (earlier : Array LogRecord) :
    c.logged f (w.loggedAfter earlier) = (c.logged f w).loggedAfter earlier := by
  simp only [logged, World.loggedAfter, Array.append_push]

theorem Run.Makes.runOn_loggedAfter {x : Run σ α} {w : World σ} {calls : List (CallTree σ)}
    (hx : x.Makes w calls) (earlier : Array LogRecord) :
    x.runOn (w.loggedAfter earlier) = ((x.runOn w).1, (x.runOn w).2.loggedAfter earlier) := by
  induction hx with
  | quiet hx w =>
    rw [World.loggedAfter, hx w, World.loggedAfter, hx.log_runOn]
  | compiled => exact ignoresLog_record _ _ earlier
  | bind _ hx _ ih ih' =>
    rw [hx] at ih
    rw [runOn_bind_of_ok ih, ih', runOn_bind_of_ok hx]
  | bindFailed _ hx ih =>
    rw [hx] at ih
    rw [runOn_bind_of_error ih, runOn_bind_of_error hx]
  | uncaught _ hx ih =>
    rw [hx] at ih
    rw [runOn_tryCatch_of_ok ih, runOn_tryCatch_of_ok hx]
  | caught _ hx _ ih ih' =>
    rw [hx] at ih
    rw [runOn_tryCatch_of_error ih, ih', runOn_tryCatch_of_error hx]
  | @refused c _ _ _ _ henter ih =>
    rw [henter] at ih
    rw [LoopCall.runOn_of_error henter]
    exact LoopCall.runOn_of_error (c := c.loggedAfter earlier) ih
  | @entered c f w _ _ _ hstart _ ih ih' =>
    obtain ⟨v, henter, rfl⟩ := LoopCall.exists_enter_of_start? hstart
    rw [henter] at ih
    have hstart' : (c.loggedAfter earlier).start? = some (f, (c.logged f v).loggedAfter earlier) := by
      rw [← LoopCall.logged_loggedAfter]
      exact LoopCall.start?_of_ok ih
    rw [LoopCall.runOn_of_start? hstart]
    exact (LoopCall.runOn_of_start? hstart').trans ih'

/-- What makes forests of calls takes no notice of what was logged before. -/
theorem Run.Traceable.ignoresLog {x : Run σ α} (hx : x.Traceable) : x.IgnoresLog := by
  intro w earlier
  obtain ⟨calls, hcalls⟩ := hx w
  exact hcalls.runOn_loggedAfter earlier

end Log

namespace Script

variable {h : Host State} {a : Activation}

section Loops

theorem traceable_prologueStep (p : PrologueStep) {h : Host σ} (hh : h.Traceable) (f : Frame) :
    ((p.step : Prologue σ) h f).Traceable := by
  cases p with
  | ofMethod m => exact (m.traceable hh).prologue f
  | _ => exact Run.Quiet.traceable fun _ _ => rfl

theorem traceable_countStep (c : CountStep) {h : Host σ} (hh : h.Traceable) (f : Frame) :
    Run.Traceable (ExceptT.lift ((c.step : Count σ) h f)) := by
  cases c with
  | ofMethod m => exact (m.traceable hh).count f
  | _ => exact Run.Quiet.traceable fun _ _ => rfl

theorem traceable_bodyStep (b : BodyStep) {h : Host σ} (hh : h.Traceable) (f : Frame) (i : UInt64) :
    ((b.step : Body σ) h f i).Traceable := by
  cases b with
  | tally => exact Run.traceable_pure _
  | returnTruthy | rebind => exact (f.traceable_visit hh i).bind fun _ => Run.traceable_pure _
  | plain =>
    exact Run.traceable_store.bind fun _ => (hh f.callback none _).bind fun _ => Run.traceable_pure _
  | ofMethod m => exact (m.traceable hh).body f i

theorem traceable_epilogueStep (e : EpilogueStep) {h : Host σ} (hh : h.Traceable) (f : Frame) :
    Run.Traceable (ExceptT.lift ((e.step : Epilogue σ) h f)) := by
  cases e with
  | ofMethod m => exact (m.traceable hh).epilogue f
  | _ => exact Run.Quiet.traceable fun _ _ => rfl

theorem traceable_custom (t : LoopText) {h : Host σ} (hh : h.Traceable) (name : String) :
    (t.spec.compile name : Loop σ).Traceable h := by
  obtain ⟨p, hp⟩ := t.exists_prologueStep (σ := σ)
  obtain ⟨c, hc⟩ := t.exists_countStep (σ := σ)
  obtain ⟨e, he⟩ := t.exists_epilogueStep (σ := σ)
  refine ⟨fun f => ?_, fun f => ?_, fun f i => ?_, fun f => ?_⟩ <;> dsimp only [LoopSpec.compile]
  · rw [hp]
    exact traceable_prologueStep p hh f
  · rw [hc]
    exact traceable_countStep c hh f
  · rcases t.exists_bodyStep (σ := σ) with hb | ⟨b, hb⟩
    · rw [hb]
      exact Run.traceable_pure _
    · rw [hb]
      exact traceable_bodyStep b hh f i
  · rw [he]
    exact traceable_epilogueStep e hh f

theorem leavesUnbound_prologueStep (p : PrologueStep) :
    Prologue.LeavesUnbound (p.step : Prologue σ) := by
  cases p with
  | ofMethod m =>
    have hm : Prologue.LeavesUnbound (m.loop : Loop σ).prologue := m.leavesUnbound
    exact hm
  | fail =>
    intro h receiver callback second w f w' hrun
    cases hrun
  | _ =>
    intro h receiver callback second w f w' hrun
    cases hrun
    rfl

/-- No loop that a script can put together settles the invoker in its prologue. -/
theorem leavesUnbound_custom (t : LoopText) (name : String) :
    Prologue.LeavesUnbound (t.spec.compile name : Loop σ).prologue := by
  obtain ⟨p, hp⟩ := t.exists_prologueStep (σ := σ)
  rw [LoopSpec.compile, hp]
  exact leavesUnbound_prologueStep p

theorem traceable_target (t : Target) (hh : h.Traceable) (receiver callback : Value)
    (second : Option Value) : (t.call h receiver callback second).Traceable := by
  have hcall (m : Method) (second : Option Value) := (m.traceable hh).call receiver callback second
  have htruthy (m : Method) : (do return (← m.call h receiver callback second).isTruthy :
      Run State Bool).Traceable := (hcall m second).bind fun _ => Run.traceable_pure _
  cases t with
  | named name =>
    rw [Target.call, Method.invoke]
    cases Method.find name with
    | error e => exact Run.Quiet.traceable fun _ _ => rfl
    | ok m => exact hcall m second
  | typed name =>
    rw [Target.call]
    cases Method.find name with
    | error e => exact Run.Quiet.traceable fun _ _ => rfl
    | ok m =>
      rw [Target.call.liftExcept, pure_bind]
      cases m with
      | some => exact (htruthy .some).bind fun _ => Run.traceable_pure _
      | every => exact (htruthy .every).bind fun _ => Run.traceable_pure _
      | legacy => exact hcall .legacy none
      | each => exact hcall .each second
      | map => exact hcall .map second
      | filter => exact hcall .filter second
      | reduce => exact hcall .reduce second
      | reduceRight => exact hcall .reduceRight second
  | custom text =>
    exact (Run.traceable_compiled _ _).bind fun _ =>
      (traceable_custom text hh "custom").call receiver callback second

end Loops

section Operations

theorem traceable_ofText (t : Option String) : (ofText t).Traceable := by
  apply Run.Quiet.traceable
  cases t <;> exact fun _ _ => rfl

theorem traceable_unary (op : Unary) (v : Value) : (op.apply v).Traceable := by
  cases op with
  | text | quotedText | invokerText => exact Run.traceable_store.bind fun _ => traceable_ofText _
  | snapshot | pop => cases v <;> exact Run.Quiet.traceable fun _ _ => rfl
  | read key =>
    refine Run.Quiet.traceable fun w log => ?_
    rw [Unary.apply, Run.runOn_read, Run.runOn_read]
  | _ => exact Run.Quiet.traceable fun _ _ => rfl

theorem traceable_binary (op : Binary) (v u : Value) : (op.apply v u).Traceable := by
  cases op with
  | lockedText => exact Run.traceable_store.bind fun _ => traceable_ofText _
  | push => cases v <;> exact Run.Quiet.traceable fun _ _ => rfl
  | delete => cases v <;> cases u <;> exact Run.Quiet.traceable fun _ _ => rfl
  | _ => exact Run.Quiet.traceable fun _ _ => rfl

theorem traceable_write (v key u : Value) : (write v key u).Traceable := by
  apply Run.Quiet.traceable
  cases v <;> cases key <;> exact fun _ _ => rfl

theorem traceable_setVariable (name : String) (v : Value) : (setVariable name v).Traceable :=
  Run.Quiet.traceable fun _ _ => rfl

theorem traceable_describe (e : Fault) : (describe e).Traceable :=
  Run.traceable_store.bind fun _ => (traceable_ofText _).bind fun _ => (traceable_ofText _).bind
    fun _ => (traceable_ofText _).bind fun _ => Run.Quiet.traceable fun _ _ => rfl

end Operations

section Eval

mutual

theorem traceable_eval (hh : h.Traceable) : ∀ e : Expr, (e.eval h a).Traceable
  | .constant _ | .repeated _ _ | .range _ | .function _ _ _ | .argument _ | .argumentCount | .binding
  | .variable _ | .raise _ => Run.Quiet.traceable fun _ _ => rfl
  | .array items => by
    rw [Expr.eval]
    exact (traceable_evalList hh items).bind fun _ => Run.Quiet.traceable fun _ _ => rfl
  | .object properties => by
    rw [Expr.eval]
    exact (traceable_evalProperties hh properties).bind fun _ => Run.Quiet.traceable fun _ _ => rfl
  | .arrayLike items => by
    rw [Expr.eval]
    exact (traceable_evalList hh items).bind fun _ => Run.Quiet.traceable fun _ _ => rfl
  | .assign name e => by
    rw [Expr.eval]
    exact (traceable_eval hh e).bind fun v => (traceable_setVariable name v).bind fun _ =>
      Run.traceable_pure v
  | .sequence es => by
    rw [Expr.eval]
    exact (traceable_evalList hh es).bind fun _ => Run.traceable_pure _
  | .cond c t e => by
    rw [Expr.eval]
    apply (traceable_eval hh c).bind
    intro v
    split
    · exact traceable_eval hh t
    · exact traceable_eval hh e
  | .throw e => by
    rw [Expr.eval]
    exact (traceable_eval hh e).bind fun _ => Run.Quiet.traceable fun _ _ => rfl
  | .attempt e handler => by
    rw [Expr.eval]
    apply (traceable_eval hh e).tryCatch
    intro fault
    by_cases hendless : fault.isEndless
    · rw [if_pos hendless]
      exact Run.Quiet.traceable fun _ _ => rfl
    rw [if_neg hendless]
    exact (traceable_describe fault).bind fun v => (traceable_setVariable _ v).bind fun _ =>
      traceable_eval hh handler
  | .unary op e => by
    rw [Expr.eval]
    exact (traceable_eval hh e).bind fun v => traceable_unary op v
  | .binary op e₁ e₂ => by
    rw [Expr.eval]
    exact (traceable_eval hh e₁).bind fun v => (traceable_eval hh e₂).bind fun u =>
      traceable_binary op v u
  | .put container key value => by
    rw [Expr.eval]
    exact (traceable_eval hh container).bind fun c => (traceable_eval hh key).bind fun k =>
      (traceable_eval hh value).bind fun v => traceable_write c k v
  | .concat es => by
    rw [Expr.eval]
    exact (traceable_evalList hh es).bind fun _ => Run.traceable_store.bind fun _ =>
      traceable_ofText _
  | .call callee args => by
    rw [Expr.eval]
    exact (traceable_eval hh callee).bind fun f => (traceable_evalList hh args).bind fun vs =>
      hh f none vs
  | .callBound callee bound args => by
    rw [Expr.eval]
    exact (traceable_eval hh callee).bind fun f => (traceable_eval hh bound).bind fun b =>
      (traceable_evalList hh args).bind fun vs => hh f (some b) vs
  | .invoke context callback args => by
    rw [Expr.eval]
    exact (traceable_eval hh context).bind fun c => (traceable_eval hh callback).bind fun f =>
      (traceable_evalList hh args).bind fun vs => hh f _ vs
  | .loop target receiver callback second => by
    rw [Expr.eval]
    exact (traceable_eval hh receiver).bind fun r => (traceable_eval hh callback).bind fun f =>
      (traceable_evalOption hh second).bind fun o => traceable_target target hh r f o

theorem traceable_evalList (hh : h.Traceable) : ∀ es : List Expr, (evalList h a es).Traceable
  | [] => Run.traceable_pure _
  | e :: es => by
    rw [evalList]
    exact (traceable_eval hh e).bind fun v => (traceable_evalList hh es).bind fun _ =>
      Run.traceable_pure _

theorem traceable_evalProperties (hh : h.Traceable) :
    ∀ es : List (String × Expr), (evalProperties h a es).Traceable
  | [] => Run.traceable_pure _
  | (k, e) :: es => by
    rw [evalProperties]
    exact (traceable_eval hh e).bind fun v =>
      (traceable_evalProperties hh es).bind fun _ => Run.traceable_pure _

theorem traceable_evalOption (hh : h.Traceable) :
    ∀ e : Option Expr, (evalOption h a e).Traceable
  | none => Run.traceable_pure _
  | some e => by
    rw [evalOption]
    exact (traceable_eval hh e).bind fun _ => Run.traceable_pure _

end

end Eval

theorem traceable_perform (hh : h.Traceable) (index : Nat) (binding : Option Value)
    (args : List Value) : (perform h index binding args).Traceable := by
  have hhost : (Run.host : Run State State).Traceable := Run.Quiet.traceable fun _ _ => rfl
  rw [perform]
  apply hhost.bind
  intro b
  cases b.functions[index]? with
  | none => exact Run.traceable_pure _
  | some f =>
    have hbody := traceable_eval (a := ⟨args, binding.getD .undefined⟩) hh f.body
    cases htag : f.tag with
    | none =>
      simp only [htag]
      exact hbody
    | some tag =>
      have hrecord (g : State → State) : (Run.updateHost g).Traceable :=
        Run.Quiet.traceable fun _ _ => rfl
      simp only [htag]
      exact (hrecord _).bind fun _ => hbody

/-- The functions of a script make forests of calls, however deep they call each other. -/
theorem traceable_host (depth : Nat) : (host depth).Traceable := by
  induction depth with
  | zero =>
    exact Host.traceable_of_functions (fun _ _ => Run.Quiet.traceable fun _ _ => rfl) fun _ _ _ =>
      Run.Quiet.traceable fun _ _ => rfl
  | succ depth ih =>
    exact Host.traceable_of_functions (fun i args => traceable_perform ih i none args)
      fun i b args => traceable_perform ih i (some b) args

/-- The functions of a script take no notice of the log. -/
theorem ignoresLog_host (depth : Nat) (callee : Value) (b : Option Value) (args : List Value) :
    ((host depth).call callee b args).IgnoresLog :=
  (traceable_host depth callee b args).ignoresLog

end Script

end CollectionLoops
