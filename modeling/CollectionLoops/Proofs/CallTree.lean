import CollectionLoops.Proofs.BranchFlag
import CollectionLoops.Proofs.Folds
import CollectionLoops.Proofs.Locality
import CollectionLoops.Proofs.LoopCalls

/-!
The calls of loops that a computation makes, as a forest: below each call stand those that its prologue
and its count make, and apart from these those of its iterations and its epilogue. Main statement: what a
computation logs of the loops is the forest, each call between the two groups below it, where a call
whose prologue failed leaves nothing; it is the forest in pre-order if no custom loop logs anything
before it has its count.
-/
namespace CollectionLoops

variable {σ : Type} {α β : Type}

/-- A call of a loop with the calls that are made before it is logged and those that are made after
that, in their order. -/
inductive CallTree (σ : Type)
  | node (call : LoopCall σ) (opening inner : List (CallTree σ))

namespace CallTree

mutual

/-- The calls of a tree, if `arrange` puts a call among those below it. -/
def list (arrange : LoopCall σ → List (LoopCall σ) → List (LoopCall σ) → List (LoopCall σ)) :
    CallTree σ → List (LoopCall σ)
  | .node c opening inner => arrange c (listAll arrange opening) (listAll arrange inner)

def listAll (arrange : LoopCall σ → List (LoopCall σ) → List (LoopCall σ) → List (LoopCall σ)) :
    List (CallTree σ) → List (LoopCall σ)
  | [] => []
  | t :: ts => t.list arrange ++ listAll arrange ts

end

section List

variable (arrange : LoopCall σ → List (LoopCall σ) → List (LoopCall σ) → List (LoopCall σ))

@[simp] theorem listAll_nil : listAll arrange [] = [] := rfl

theorem listAll_singleton (c : LoopCall σ) (opening inner : List (CallTree σ)) :
    listAll arrange [.node c opening inner] =
      arrange c (listAll arrange opening) (listAll arrange inner) := by
  rw [listAll, list, listAll_nil, List.append_nil]

theorem listAll_append (ts us : List (CallTree σ)) :
    listAll arrange (ts ++ us) = listAll arrange ts ++ listAll arrange us := by
  induction ts with
  | nil => rfl
  | cons t ts ih => rw [List.cons_append, listAll, listAll, ih, List.append_assoc]

end List

/-- The calls of a forest, each before all calls below it. -/
def preorder (ts : List (CallTree σ)) : List (LoopCall σ) :=
  listAll (fun c opening inner => c :: (opening ++ inner)) ts

/-- The calls of a forest in the order in which they are logged, if their prologues succeed. -/
def logOrder (ts : List (CallTree σ)) : List (LoopCall σ) :=
  listAll (fun c opening inner => opening ++ c :: inner) ts

variable (c : LoopCall σ) (opening inner ts us : List (CallTree σ))

@[simp] theorem preorder_nil : preorder ([] : List (CallTree σ)) = [] := rfl

@[simp] theorem logOrder_nil : logOrder ([] : List (CallTree σ)) = [] := rfl

@[simp] theorem preorder_singleton :
    preorder [.node c opening inner] = c :: (preorder opening ++ preorder inner) :=
  listAll_singleton ..

@[simp] theorem logOrder_singleton :
    logOrder [.node c opening inner] = logOrder opening ++ c :: logOrder inner :=
  listAll_singleton ..

@[simp] theorem preorder_append : preorder (ts ++ us) = preorder ts ++ preorder us :=
  listAll_append ..

@[simp] theorem logOrder_append : logOrder (ts ++ us) = logOrder ts ++ logOrder us :=
  listAll_append ..

end CallTree

def LogRecord.isIterations : LogRecord → Bool
  | .iterations .. => true
  | .compiled .. => false

/-- The records of loops that began their iterations. -/
def World.trace (w : World σ) : List LogRecord := w.log.toList.filter (·.isIterations)

namespace Run

/-- Whether a computation has nothing to do with the log: it is the same with any other. -/
def Quiet (x : Run σ α) : Prop :=
  ∀ w log, x.runOn { w with log } = ((x.runOn w).1, { (x.runOn w).2 with log })

theorem Quiet.log_runOn {x : Run σ α} (hx : x.Quiet) (w : World σ) :
    (x.runOn w).2.log = w.log := by
  have hsame : x.runOn w = _ := hx w w.log
  rw [hsame]

/-- The calls of loops that a computation makes from a world on. Apart from these calls it may do
whatever has nothing to do with the log, compile loops, and catch faults. The prologue of a call and its
count, and then its iterations and its epilogue, may in their turn make calls. -/
inductive Makes : {α : Type} → Run σ α → World σ → List (CallTree σ) → Prop
  | quiet {α : Type} {x : Run σ α} (hx : x.Quiet) (w : World σ) : Makes x w []
  | compiled (name source : String) (w : World σ) : Makes (record (.compiled name source)) w []
  | bind {α β : Type} {x : Run σ α} {f : α → Run σ β} {w w' : World σ} {a : α}
      {calls calls' : List (CallTree σ)} (first : Makes x w calls) (hx : x.runOn w = (.ok a, w'))
      (second : Makes (f a) w' calls') : Makes (x >>= f) w (calls ++ calls')
  | bindFailed {α β : Type} {x : Run σ α} {f : α → Run σ β} {w w' : World σ} {e : Fault}
      {calls : List (CallTree σ)} (first : Makes x w calls) (hx : x.runOn w = (.error e, w')) :
      Makes (x >>= f) w calls
  | uncaught {α : Type} {x : Run σ α} {f : Fault → Run σ α} {w w' : World σ} {a : α}
      {calls : List (CallTree σ)} (first : Makes x w calls) (hx : x.runOn w = (.ok a, w')) :
      Makes (tryCatch x f) w calls
  | caught {α : Type} {x : Run σ α} {f : Fault → Run σ α} {w w' : World σ} {e : Fault}
      {calls calls' : List (CallTree σ)} (first : Makes x w calls)
      (hx : x.runOn w = (.error e, w')) (second : Makes (f e) w' calls') :
      Makes (tryCatch x f) w (calls ++ calls')
  | refused {c : LoopCall σ} {e : Fault} {w : World σ} {opening : List (CallTree σ)}
      (first : Makes c.enter c.before opening) (henter : c.enter.runOn c.before = (.error e, w)) :
      Makes c.code c.before [.node c opening []]
  | entered {c : LoopCall σ} {f : Frame} {w : World σ} {opening inner : List (CallTree σ)}
      (first : Makes c.enter c.before opening) (hstart : c.start? = some (f, w))
      (rest : Makes (c.loop.proceed c.host f) w inner) :
      Makes c.code c.before [.node c opening inner]

variable {x : Run σ α} {w : World σ} {calls : List (CallTree σ)}

theorem runOn_bind_of_ok {f : α → Run σ β} {w' : World σ} {a : α} (hx : x.runOn w = (.ok a, w')) :
    (x >>= f).runOn w = (f a).runOn w' := by
  rw [runOn_bind, hx]

theorem runOn_bind_of_error {f : α → Run σ β} {w' : World σ} {e : Fault}
    (hx : x.runOn w = (.error e, w')) : (x >>= f).runOn w = (.error e, w') := by
  rw [runOn_bind, hx]

theorem runOn_tryCatch_of_ok {f : Fault → Run σ α} {w' : World σ} {a : α}
    (hx : x.runOn w = (.ok a, w')) : (tryCatch x f).runOn w = (.ok a, w') := by
  rw [runOn_tryCatch, hx]

theorem runOn_tryCatch_of_error {f : Fault → Run σ α} {w' : World σ} {e : Fault}
    (hx : x.runOn w = (.error e, w')) : (tryCatch x f).runOn w = (f e).runOn w' := by
  rw [runOn_tryCatch, hx]

end Run

/-- What a forest of calls leaves in the log: nothing is taken away, the records of loops are those of
the forest in its order, and what was logged when a call had just been logged stands in front of the
rest. Where no call logs anything before it has its count, the order is the pre-order. -/
structure World.LogsCalls (w : World σ) (calls : List (CallTree σ)) (w' : World σ) : Prop where
  grows : w.log.toList <+: w'.log.toList
  trace : w'.trace = w.trace ++ (CallTree.logOrder calls).filterMap LoopCall.record?
  starts : ∀ c ∈ CallTree.preorder calls, ∀ f v, c.start? = some (f, v) →
    v.log.toList <+: w'.log.toList
  preorder : (∀ c ∈ CallTree.preorder calls, (c.enter.runOn c.before).2.log = c.before.log) →
    (CallTree.logOrder calls).filterMap LoopCall.record? =
      (CallTree.preorder calls).filterMap LoopCall.record?

namespace World.LogsCalls

variable {w w' w'' v : World σ} {calls calls' opening inner : List (CallTree σ)} {c : LoopCall σ}

theorem of_log_eq (hlog : w'.log = w.log) : w.LogsCalls [] w' where
  grows := hlog ▸ List.prefix_rfl
  trace := by simp [World.trace, hlog]
  starts _ hc := by cases hc
  preorder _ := rfl

theorem trans (h : w.LogsCalls calls w') (h' : w'.LogsCalls calls' w'') :
    w.LogsCalls (calls ++ calls') w'' where
  grows := h.grows.trans h'.grows
  trace := by
    rw [h'.trace, h.trace, CallTree.logOrder_append, List.filterMap_append, List.append_assoc]
  starts c hc f v hstart := by
    rw [CallTree.preorder_append] at hc
    rcases List.mem_append.1 hc with hc | hc
    · exact (h.starts c hc f v hstart).trans h'.grows
    · exact h'.starts c hc f v hstart
  preorder hsilent := by
    rw [CallTree.preorder_append, List.forall_mem_append] at hsilent
    rw [CallTree.logOrder_append, CallTree.preorder_append, List.filterMap_append,
      List.filterMap_append, h.preorder hsilent.1, h'.preorder hsilent.2]

/-- A call whose prologue fails logs what its prologue logs. -/
theorem refused {e : Fault} (h : c.before.LogsCalls opening w)
    (henter : c.enter.runOn c.before = (.error e, w)) :
    c.before.LogsCalls [.node c opening []] w where
  grows := h.grows
  trace := by
    rw [h.trace, CallTree.logOrder_singleton, List.filterMap_append,
      List.filterMap_cons_none (LoopCall.record?_of_error henter)]
    simp
  starts c' hc' f v hstart := by
    rw [CallTree.preorder_singleton, CallTree.preorder_nil, List.append_nil] at hc'
    rcases List.mem_cons.1 hc' with rfl | hc'
    · rw [LoopCall.start?_of_error henter] at hstart
      cases hstart
    · exact h.starts c' hc' f v hstart
  preorder hsilent := by
    rw [CallTree.preorder_singleton, CallTree.preorder_nil, List.append_nil] at hsilent
    rw [CallTree.logOrder_singleton, CallTree.preorder_singleton, CallTree.logOrder_nil,
      CallTree.preorder_nil, List.append_nil, List.filterMap_append,
      List.filterMap_cons_none (LoopCall.record?_of_error henter),
      List.filterMap_cons_none (LoopCall.record?_of_error henter),
      h.preorder fun c' hc' => hsilent c' (List.mem_cons_of_mem c hc')]
    exact List.append_nil _

/-- A call is logged after what its prologue and its count log, and before anything else. -/
theorem entered {f : Frame} (h : c.before.LogsCalls opening v)
    (henter : c.enter.runOn c.before = (.ok f, v)) (h' : (c.logged f v).LogsCalls inner w') :
    c.before.LogsCalls [.node c opening inner] w' := by
  have hstart := LoopCall.start?_of_ok henter
  have hrecord := LoopCall.record?_of_start? hstart
  have hlog : (c.logged f v).log.toList = v.log.toList ++ [c.recordOf f] := Array.toList_push
  have hgrows : v.log.toList <+: w'.log.toList := by
    refine List.IsPrefix.trans ?_ h'.grows
    rw [hlog]
    exact List.prefix_append _ _
  refine ⟨h.grows.trans hgrows, ?_, fun c' hc' g u hstart' => ?_, fun hsilent => ?_⟩
  · have hpushed : (c.logged f v).trace = v.trace ++ [c.recordOf f] := by
      rw [World.trace, hlog, List.filter_append]
      rfl
    rw [h'.trace, hpushed, h.trace, CallTree.logOrder_singleton, List.filterMap_append,
      List.filterMap_cons_some hrecord]
    simp
  · rw [CallTree.preorder_singleton] at hc'
    rcases List.mem_cons.1 hc' with rfl | hc'
    · rw [hstart] at hstart'
      cases hstart'
      exact h'.grows
    · rcases List.mem_append.1 hc' with hc' | hc'
      · exact (h.starts c' hc' g u hstart').trans hgrows
      · exact h'.starts c' hc' g u hstart'
  · rw [CallTree.preorder_singleton, List.forall_mem_cons, List.forall_mem_append] at hsilent
    obtain ⟨hself, hopening, hinner⟩ := hsilent
    rw [henter] at hself
    -- what the prologue and the count call leaves no record, so that its place does not matter
    have hnone : (CallTree.logOrder opening).filterMap LoopCall.record? = [] := by
      have htrace := h.trace
      rw [World.trace, hself] at htrace
      exact List.self_eq_append_right.1 htrace
    rw [CallTree.logOrder_singleton, CallTree.preorder_singleton, List.filterMap_append,
      List.filterMap_cons_some hrecord, List.filterMap_cons_some hrecord, List.filterMap_append,
      ← h.preorder hopening, hnone, ← h'.preorder hinner]
    rfl

end World.LogsCalls

namespace Run.Makes

variable {x : Run σ α} {w : World σ} {calls : List (CallTree σ)}

theorem logsCalls (hx : x.Makes w calls) : w.LogsCalls calls (x.runOn w).2 := by
  induction hx with
  | quiet hx w => exact .of_log_eq (hx.log_runOn w)
  | compiled name source w =>
    refine ⟨?_, ?_, fun c hc => absurd hc List.not_mem_nil, fun _ => rfl⟩
    · rw [runOn_record, Array.toList_push]
      exact List.prefix_append _ _
    · simp [World.trace, LogRecord.isIterations]
  | bind _ hx _ ih ih' =>
    rw [hx] at ih
    rw [runOn_bind_of_ok hx]
    exact ih.trans ih'
  | bindFailed _ hx ih =>
    rw [hx] at ih
    rwa [runOn_bind_of_error hx]
  | uncaught _ hx ih =>
    rw [hx] at ih
    rwa [runOn_tryCatch_of_ok hx]
  | caught _ hx _ ih ih' =>
    rw [hx] at ih
    rw [runOn_tryCatch_of_error hx]
    exact ih.trans ih'
  | refused _ henter ih =>
    rw [henter] at ih
    rw [LoopCall.runOn_of_error henter]
    exact ih.refused henter
  | entered _ hstart _ ih ih' =>
    obtain ⟨v, henter, rfl⟩ := LoopCall.exists_enter_of_start? hstart
    rw [henter] at ih
    rw [LoopCall.runOn_of_start? hstart]
    exact ih.entered henter ih'

end Run.Makes

/-- Whether a prologue leaves it to the call to settle the invoker. -/
def Prologue.LeavesUnbound (p : Prologue σ) : Prop :=
  ∀ h receiver callback second w f w',
    (p h (.start receiver callback second)).runOn w = (.ok f, w') → f.invoker = .unbound

theorem StorePrologue.leavesUnbound_lift {p : StorePrologue}
    (hp : ∀ receiver callback second s f s',
      (p (.start receiver callback second)).run.run s = (.ok f, s') → f.invoker = .unbound) :
    Prologue.LeavesUnbound (p.lift : Prologue σ) := by
  intro h receiver callback second w f w' hrun
  rw [StorePrologue.runOn_lift] at hrun
  exact hp receiver callback second w.store f _ (Prod.ext (Prod.mk.inj hrun).1 rfl)

namespace Method

variable (m : Method)

theorem leavesUnbound : Prologue.LeavesUnbound (m.loop : Loop σ).prologue := by
  rw [loop_eq]
  apply StorePrologue.leavesUnbound_lift
  intro receiver callback second s f s' hrun
  cases m with
  | map =>
    have hrun := (run_preallocate (.start receiver callback second) s).symm.trans hrun
    split at hrun
    · cases hrun
    · cases hrun
      rfl
  | reduce =>
    have hrun := (run_seedFirst receiver callback second s).symm.trans hrun
    cases hrun
    rfl
  | reduceRight =>
    obtain ⟨start, hstart⟩ := exists_run_seedLast receiver second s
    have hrun := (hstart callback).symm.trans hrun
    cases hrun
    rfl
  | _ =>
    cases hrun
    rfl

/-- A method logs nothing before it has its count. -/
theorem log_runOn_enter (h : Host σ) (receiver callback : Value) (second : Option Value)
    (w : World σ) : (((m.loop : Loop σ).enter h receiver callback second).runOn w).2.log = w.log := by
  rw [loop_eq, CallLoop.runOn_enter]
  rcases (m.callLoop.prologue (.start receiver callback second)).run.run w.store with ⟨e | g, s⟩ <;>
    rfl

end Method

/-- The flag in the log: whether a binding loop found a context that it can bind to. -/
theorem Loop.isBound_settle (l : Loop σ) {f : Frame} (hunbound : f.invoker = .unbound) :
    (l.settle f).invoker.isBound = (l.bindsCallback && f.that.isTruthy) := by
  cases hbinds : l.bindsCallback with
  | false =>
    rw [settle, hbinds, if_neg Bool.false_ne_true, hunbound]
    rfl
  | true =>
    rw [settle, hbinds, if_pos rfl, Bool.true_and]
    exact Invoker.isBound_resolve f.that

theorem Method.isBound_settle (m : Method) {f : Frame} (hunbound : f.invoker = .unbound) :
    ((m.loop : Loop σ).settle f).invoker.isBound =
      (m != .reduce && m != .reduceRight && f.that.isTruthy) := by
  have hbinds : (m.loop : Loop σ).bindsCallback = (m != .reduce && m != .reduceRight) := by
    rw [Method.loop_eq]
    exact m.bindsCallback_callLoop
  rw [m.loop.isBound_settle hunbound, hbinds]

namespace Run

/-- Whether a computation makes some forest of calls from every world on. -/
def Traceable (x : Run σ α) : Prop := ∀ w, ∃ calls, x.Makes w calls

theorem Quiet.traceable {x : Run σ α} (hx : x.Quiet) : x.Traceable := fun w => ⟨[], .quiet hx w⟩

theorem traceable_pure (a : α) : (pure a : Run σ α).Traceable := Quiet.traceable fun _ _ => rfl

theorem traceable_store : (store : Run σ Store).Traceable := Quiet.traceable fun _ _ => rfl

theorem traceable_compiled (name source : String) :
    (record (.compiled name source) : Run σ Unit).Traceable := fun w => ⟨[], .compiled name source w⟩

theorem Traceable.bind {x : Run σ α} {f : α → Run σ β} (hx : x.Traceable)
    (hf : ∀ a, (f a).Traceable) : (x >>= f).Traceable := by
  intro w
  obtain ⟨calls, hcalls⟩ := hx w
  rcases hrun : x.runOn w with ⟨e | a, w'⟩
  · exact ⟨calls, .bindFailed hcalls hrun⟩
  · obtain ⟨calls', hcalls'⟩ := hf a w'
    exact ⟨calls ++ calls', .bind hcalls hrun hcalls'⟩

theorem Traceable.tryCatch {x : Run σ α} {f : Fault → Run σ α} (hx : x.Traceable)
    (hf : ∀ e, (f e).Traceable) : (tryCatch x f : Run σ α).Traceable := by
  intro w
  obtain ⟨calls, hcalls⟩ := hx w
  rcases hrun : x.runOn w with ⟨e | a, w'⟩
  · obtain ⟨calls', hcalls'⟩ := hf e w'
    exact ⟨calls ++ calls', .caught hcalls hrun hcalls'⟩
  · exact ⟨calls, .uncaught hcalls hrun⟩

/-- How a computation ends, as a value. -/
def outcome (x : Run σ α) : Run σ (Except Fault α) :=
  tryCatch (x >>= fun a => pure (.ok a)) fun e => pure (.error e)

theorem runOn_outcome (x : Run σ α) (w : World σ) :
    x.outcome.runOn w = (.ok (x.runOn w).1, (x.runOn w).2) := by
  rw [outcome, runOn_tryCatch, runOn_bind]
  rcases x.runOn w with ⟨e | a, w'⟩ <;> rfl

/-- What cannot fail may still call what can: it sees how that ended, and goes on. -/
theorem Traceable.lift_bind {x : Run σ α} {f : Except Fault α → StateM (World σ) β}
    (hx : x.Traceable) (hf : ∀ o, Run.Traceable (ExceptT.lift (f o))) :
    Run.Traceable (ExceptT.lift (x.run >>= f)) := by
  have hlift : (ExceptT.lift (x.run >>= f) : Run σ β) = x.outcome >>= fun o => ExceptT.lift (f o) := by
    refine Run.ext fun w => ?_
    rw [runOn_bind, runOn_outcome, runOn_lift, StateT.run_bind]
    rfl
  rw [hlift]
  exact ((hx.bind fun _ => traceable_pure _).tryCatch fun _ => traceable_pure _).bind hf

end Run

/-- Whether the functions of a host make forests of calls. -/
def Host.Traceable (h : Host σ) : Prop := ∀ callee b args, (h.call callee b args).Traceable

theorem Host.traceable_of_functions {h : Host σ} (hplain : ∀ i args, (h.plain i args).Traceable)
    (hmethod : ∀ i b args, (h.method i b args).Traceable) : h.Traceable := by
  intro callee b args
  cases callee with
  | function r =>
    obtain ⟨kind, i⟩ := r
    cases kind with
    | plain => exact hplain i args
    | method => exact hmethod i _ args
  | _ => exact Run.Quiet.traceable fun _ _ => rfl

namespace Loop

variable {h : Host σ}

theorem traceable_iterate {body : Body σ} (hbody : ∀ f i, (body h f i).Traceable) (left : Nat)
    (i : UInt64) (f : Frame) : (iterate body h left i f).Traceable := by
  induction left generalizing i f with
  | zero => exact Run.traceable_pure _
  | succ left ih =>
    rw [iterate_succ]
    apply (hbody f i).bind
    rintro (g | v)
    · exact ih (i + 1) g
    · exact Run.traceable_pure _

/-- Whether the steps of a loop make forests of calls with the functions of a host. -/
structure Traceable (l : Loop σ) (h : Host σ) : Prop where
  prologue : ∀ f, (l.prologue h f).Traceable
  count : ∀ f, Run.Traceable (ExceptT.lift (l.count h f))
  body : ∀ f i, (l.body h f i).Traceable
  epilogue : ∀ f, Run.Traceable (ExceptT.lift (l.epilogue h f))

variable {l : Loop σ}

theorem Traceable.enter (hl : l.Traceable h) (receiver callback : Value) (second : Option Value) :
    (l.enter h receiver callback second).Traceable :=
  (hl.prologue _).bind fun f => (hl.count (l.settle f)).bind fun _ => Run.traceable_pure _

theorem Traceable.proceed (hl : l.Traceable h) (f : Frame) : (l.proceed h f).Traceable := by
  apply (traceable_iterate hl.body f.count.toNat 0 f).bind
  rintro (g | v)
  · exact hl.epilogue g
  · exact Run.traceable_pure v

/-- A call of a loop stands at the root of one tree. -/
theorem Traceable.exists_makes {c : LoopCall σ} (hc : c.loop.Traceable c.host) :
    ∃ opening inner, c.code.Makes c.before [.node c opening inner] := by
  obtain ⟨opening, hopening⟩ := hc.enter c.receiver c.callback c.second c.before
  rcases henter : c.enter.runOn c.before with ⟨e | f, w⟩
  · exact ⟨opening, [], .refused hopening henter⟩
  · obtain ⟨inner, hinner⟩ := hc.proceed f (c.logged f w)
    exact ⟨opening, inner, .entered hopening (LoopCall.start?_of_ok henter) hinner⟩

theorem Traceable.call (hl : l.Traceable h) (receiver callback : Value) (second : Option Value) :
    (l.call h receiver callback second).Traceable := by
  intro w
  obtain ⟨opening, inner, hmakes⟩ :=
    Traceable.exists_makes (c := ⟨l, h, receiver, callback, second, w⟩) hl
  exact ⟨_, hmakes⟩

end Loop

theorem StorePrologue.traceable_lift (p : StorePrologue) (h : Host σ) (f : Frame) :
    (p.lift h f).Traceable := Run.Quiet.traceable fun _ _ => rfl

theorem StoreCount.traceable_lift (c : StoreCount) (h : Host σ) (f : Frame) :
    Run.Traceable (ExceptT.lift (c.lift h f)) := Run.Quiet.traceable fun _ _ => rfl

theorem StoreEpilogue.traceable_lift (e : StoreEpilogue) (h : Host σ) (f : Frame) :
    Run.Traceable (ExceptT.lift (e.lift h f)) := Run.Quiet.traceable fun _ _ => rfl

theorem CallStep.traceable_body (c : CallStep) {h : Host σ} (hh : h.Traceable) (f : Frame)
    (i : UInt64) : (c.body h f i).Traceable := by
  apply Run.traceable_store.bind
  intro s
  cases c.args s f i with
  | error e => exact Run.Quiet.traceable fun _ _ => rfl
  | ok args =>
    apply (hh f.callback (c.binding f) args).bind
    exact fun _ => Run.Quiet.traceable fun _ _ => rfl

theorem Frame.traceable_visit {h : Host σ} (hh : h.Traceable) (f : Frame) (i : UInt64) :
    (f.visit h i).Traceable :=
  Run.traceable_store.bind fun _ => hh f.callback f.invoker.binding? _

/-- A method makes a tree of calls if its callback makes forests. -/
theorem Method.traceable (m : Method) {h : Host σ} (hh : h.Traceable) : m.loop.Traceable h := by
  rw [loop_eq]
  exact ⟨m.callLoop.prologue.traceable_lift h, m.callLoop.count.traceable_lift h,
    m.step.traceable_body hh, m.callLoop.epilogue.traceable_lift h⟩

/-- What a computation logs of the loops is the forest of its calls, each one after the calls that its
prologue and its count make and before all others below it. If no custom loop logs anything before it
has its count, this is the pre-order. A call whose prologue fails leaves no record, and runs no step.
Any other one leaves one record, at the end of the log as its count leaves it, where the first step finds
it; the record tells how many steps there are at most, which is how many there are unless one of them
ends the loop, and whether the callback is bound. The steps are runs of the body, and the iterations do
what the last one does. A fold never binds its callback. -/
theorem Run.Makes.trace_eq_logOrder {x : Run σ α} {w : World σ} {calls : List (CallTree σ)}
    (hx : x.Makes w calls) :
    let trace := (x.runOn w).2.trace
    trace = w.trace ++ (CallTree.logOrder calls).filterMap LoopCall.record? ∧
    ((∀ c ∈ CallTree.preorder calls, (∀ m : Method, c.loop ≠ m.loop) →
        (c.enter.runOn c.before).2.log = c.before.log) →
      trace = w.trace ++ (CallTree.preorder calls).filterMap LoopCall.record?) ∧
    ∀ c ∈ CallTree.preorder calls,
      (∀ e v, c.prologue.runOn c.before = (.error e, v) →
        c.record? = none ∧ c.steps = [] ∧ c.code.runOn c.before = (.error e, v)) ∧
      ∀ f v, c.prologue.runOn c.before = (.ok f, v) → ∃ n bound u,
        let g : Frame := { c.loop.settle f with count := n }
        let record := LogRecord.iterations c.loop.name n bound
        let start : World σ := { u with log := u.log.push record }
        (c.loop.count c.host (c.loop.settle f)).run v = (n, u) ∧
        c.record? = some record ∧ start.log.toList <+: (x.runOn w).2.log.toList ∧
        c.code.runOn c.before = (c.loop.proceed c.host g).runOn start ∧
        (∀ y ∈ c.steps.head?, y.before = start) ∧
        (∀ y ∈ c.steps, (c.loop.body c.host y.frame y.index).runOn y.before = (y.outcome, y.after)) ∧
        (Loop.iterate c.loop.body c.host n.toNat 0 g).runOn start =
          c.steps.getLast?.elim (.ok (.next g), start) (fun y => (y.outcome, y.after)) ∧
        c.steps.length ≤ n.toNat ∧ ((∀ y ∈ c.steps, y.Continues) → c.steps.length = n.toNat) ∧
        (f.invoker = .unbound → bound = (c.loop.bindsCallback && f.that.isTruthy)) ∧
        ∀ m : Method, c.loop = m.loop →
          bound = (m != .reduce && m != .reduceRight && f.that.isTruthy) := by
  intro trace
  have hlogs := hx.logsCalls
  refine ⟨hlogs.trace, fun hsilent => ?_, fun c hc => ⟨fun e v hprologue => ?_,
    fun f v hprologue => ?_⟩⟩
  · have hpreorder := hlogs.preorder fun c hc => by
      by_cases hm : ∃ m : Method, c.loop = m.loop
      · obtain ⟨m, hm⟩ := hm
        rw [LoopCall.enter, hm]
        exact m.log_runOn_enter c.host c.receiver c.callback c.second c.before
      · exact hsilent c hc fun m hloop => hm ⟨m, hloop⟩
    exact hlogs.trace.trans (congrArg _ hpreorder)
  · have henter := LoopCall.runOn_enter_of_prologue_error hprologue
    refine ⟨LoopCall.record?_of_error henter, ?_, LoopCall.runOn_of_error henter⟩
    rw [LoopCall.steps, LoopCall.start?_of_error henter]
    rfl
  · have hstart := LoopCall.start?_of_ok (LoopCall.runOn_enter_of_prologue_ok hprologue)
    refine ⟨_, _, _, rfl, LoopCall.record?_of_start? hstart, hlogs.starts c hc _ _ hstart,
      LoopCall.runOn_of_start? hstart, ?_⟩
    rw [LoopCall.steps_of_start? hstart]
    refine ⟨fun y hy => Loop.before_of_mem_head? hy, fun y hy => Loop.runOn_body_of_mem_steps hy,
      Loop.runOn_iterate_eq_getLast? .., Loop.length_steps_le .., Loop.length_steps_eq,
      c.loop.isBound_settle, fun m hm => ?_⟩
    have hunbound : f.invoker = .unbound := by
      rw [LoopCall.prologue, hm] at hprologue
      exact m.leavesUnbound _ _ _ _ _ _ _ hprologue
    have hbound := m.isBound_settle (σ := σ) hunbound
    rwa [← hm] at hbound

/-- A loop that fails if its receiver is too long for an array. -/
def preallocating : Loop Unit where
  name := "inner"
  source := ""
  bindsCallback := false
  prologue := StorePrologue.lift Method.preallocate
  count := Fragment.receiverLength.step.lift
  body := Fragment.noBody.step
  epilogue := Fragment.returnReceiver.step.lift

/-- Functions that call this loop for their first argument, and drop the fault. -/
def reentrantHost : Host Unit where
  plain _ _ := pure .undefined
  method _ _ args :=
    tryCatch (preallocating.call ⟨fun _ _ => pure .undefined, fun _ _ _ => pure .undefined⟩
      (args.headD .undefined) .null none) fun _ => pure .undefined

/-- An array of an array of two items and an object that is too long. -/
def shortAndLong : World Unit :=
  ⟨⟨#[#[.array ⟨1⟩, .object ⟨0⟩], #[.null, .null]], #[.ofList [("length", .number 5000000000)]]⟩,
    #[], ()⟩

/-- Calls the callback for the receiver, and leaves the frame as it is. -/
def announce : Prologue σ := fun h f => do
  let _ ← f.callPlain h [f.receiver]
  return f

/-- Calls the callback for the receiver once more, whatever comes of it, and counts the elements. -/
def announcedLength : Count σ := fun h f => do
  let _ ← (f.callPlain h [f.receiver]).run
  Fragment.receiverLength.step.lift h f

/-- Two calls for the first array, and then the visit of each of its items. -/
def visitShortAndLong : LoopCall Unit where
  loop :=
    { preallocating with
      name := "outer", bindsCallback := true, prologue := announce, count := announcedLength
      body := Method.eachBody }
  host := reentrantHost
  receiver := .array ⟨0⟩
  callback := .function ⟨.method, 0⟩
  second := some (.boolean true)
  before := shortAndLong

theorem traceable_reentrantHost : reentrantHost.Traceable := by
  have hinner (h : Host Unit) : preallocating.Traceable h :=
    ⟨StorePrologue.traceable_lift Method.preallocate h,
      StoreCount.traceable_lift Fragment.receiverLength.step h, fun _ _ => Run.traceable_pure _,
      StoreEpilogue.traceable_lift Fragment.returnReceiver.step h⟩
  refine Host.traceable_of_functions (fun _ _ => Run.traceable_pure _) fun _ _ args => ?_
  exact ((hinner _).call _ _ _).tryCatch fun _ => Run.traceable_pure _

theorem exists_makes_visitShortAndLong :
    ∃ opening inner, visitShortAndLong.code.Makes shortAndLong
      [.node visitShortAndLong opening inner] := by
  refine Loop.Traceable.exists_makes (c := visitShortAndLong) ⟨fun f => ?_, fun f => ?_,
    fun f i => ?_, StoreEpilogue.traceable_lift Fragment.returnReceiver.step reentrantHost⟩
  · exact (traceable_reentrantHost f.callback none _).bind fun _ => Run.traceable_pure f
  · exact (traceable_reentrantHost f.callback none _).lift_bind fun _ =>
      StoreCount.traceable_lift Fragment.receiverLength.step reentrantHost f
  · exact (f.traceable_visit traceable_reentrantHost i).bind fun _ => Run.traceable_pure _

/-- The loops that its prologue and its count call are logged before the outer one, the one for the first
item after it, and the call for the object is not logged. -/
theorem Run.Makes.trace_eq_logOrder_visitShortAndLong :
    ∃ opening inner, visitShortAndLong.code.Makes shortAndLong
        [.node visitShortAndLong opening inner] ∧
      (CallTree.logOrder [.node visitShortAndLong opening inner]).filterMap LoopCall.record? =
        [.iterations "inner" 2 false, .iterations "inner" 2 false, .iterations "outer" 2 true,
          .iterations "inner" 2 false] := by
  obtain ⟨opening, inner, hmakes⟩ := exists_makes_visitShortAndLong
  refine ⟨opening, inner, hmakes, hmakes.trace_eq_logOrder.1.symm.trans ?_⟩
  decide +kernel

/-- A visit by a loop whose one call stood in its branch before. -/
def visitBranched : LoopCall Unit where
  loop := LoopSpec.branched.compile "custom"
  host := reentrantHost
  receiver := .array ⟨0⟩
  callback := .function ⟨.plain, 0⟩
  second := some (.boolean true)
  before := shortAndLong

/-- A prologue that leaves the frame alone and a count, both of which call a function that calls a loop:
the log is not the forest in pre-order. And a loop with a branch in its source and a truthy context whose
record says that the callback is not bound. -/
theorem LoopCall.trace_ne_preorder_of_announce :
    visitShortAndLong.loop.prologue.LeavesUnbound ∧
    (∃ opening inner,
      visitShortAndLong.code.Makes shortAndLong [.node visitShortAndLong opening inner]) ∧
    (∀ opening inner, (visitShortAndLong.code.runOn shortAndLong).2.trace ≠ shortAndLong.trace ++
      (CallTree.preorder [.node visitShortAndLong opening inner]).filterMap record?) ∧
    Source.HasBranch visitBranched.loop.source.toList ∧
    visitBranched.second = some (.boolean true) ∧
    visitBranched.record? = some (.iterations "custom" 2 false) := by
  refine ⟨?_, exists_makes_visitShortAndLong, fun opening inner => ?_,
    LoopSpec.hasBranch_branched "custom", rfl, ?_⟩
  · intro h receiver callback second w f w' hrun
    obtain ⟨v, w₁, hrun⟩ := Run.exists_of_runOn_bind hrun
    cases hrun
    rfl
  · have houter : visitShortAndLong.record? = some (.iterations "outer" 2 true) := by decide +kernel
    have htrace : (visitShortAndLong.code.runOn shortAndLong).2.trace =
        [.iterations "inner" 2 false, .iterations "inner" 2 false, .iterations "outer" 2 true,
          .iterations "inner" 2 false] := by
      decide +kernel
    intro hpreorder
    rw [htrace, CallTree.preorder_singleton, List.filterMap_cons_some houter] at hpreorder
    have hfirst : LogRecord.iterations "inner" 2 false = .iterations "outer" 2 true :=
      (List.cons.inj hpreorder).1
    exact absurd hfirst (by decide)
  · have hbinds : visitBranched.loop.bindsCallback = false := LoopSpec.bindsCallback_branched "custom"
    have hlength : shortAndLong.store.length (.array ⟨0⟩) = 2 := by decide +kernel
    have henter := runOn_enter_of_prologue_ok (c := visitBranched) (w := shortAndLong)
      (f := .start (.array ⟨0⟩) (.function ⟨.plain, 0⟩) (some (.boolean true))) rfl
    rw [Loop.settle, hbinds, if_neg Bool.false_ne_true] at henter
    refine (record?_of_start? (start?_of_ok henter)).trans ?_
    change some (LogRecord.iterations "custom" (shortAndLong.store.length (.array ⟨0⟩)) false) = _
    rw [hlength]

end CollectionLoops
