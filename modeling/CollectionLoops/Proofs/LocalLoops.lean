import CollectionLoops.Proofs.Locality
import CollectionLoops.Proofs.MethodLoops

/-!
Loops that act only on what can be reached from their receiver, their callback and their second
argument. Main statement: every method does so if its callback does.
-/
namespace CollectionLoops

variable {σ : Type}

def Frame.values (f : Frame) : Set Value :=
  {f.receiver, f.callback, f.that, f.out} ∪ {v | v ∈ f.invoker.binding?}

def Flow.values : Flow → Set Value
  | .next f => f.values
  | .done v => {v}

/-- Whether a value, when it is called, acts only on what can be reached from its arguments, its
binding and the state of the host. -/
def Host.CallsLocally (h : Host σ) (roots : σ → Set Value) (callback : Value) : Prop :=
  ∀ (binding : Option Value) (args : List Value), (h.call callback binding args).Local roots
    ({callback} ∪ {v | v ∈ binding} ∪ {v | v ∈ args}) ({·})

/-- Whether a prologue whose callback acts only on what can be reached does so too, and keeps the
callback. -/
structure Prologue.Local (roots : σ → Set Value) (p : Prologue σ) : Prop where
  values : ∀ {h : Host σ} {f : Frame}, h.CallsLocally roots f.callback →
    (p h f).Local roots f.values Frame.values
  callback : ∀ {h : Host σ} {f g : Frame} {w w' : World σ},
    (p h f).runOn w = (.ok g, w') → g.callback = f.callback

def Count.Local (roots : σ → Set Value) (c : Count σ) : Prop :=
  ∀ ⦃h : Host σ⦄ ⦃f : Frame⦄, h.CallsLocally roots f.callback →
    Run.Local roots f.values (fun _ => ∅) (ExceptT.lift (c h f))

/-- Whether a body whose callback acts only on what can be reached does so too. -/
structure Body.Local (roots : σ → Set Value) (body : Body σ) : Prop where
  values : ∀ {h : Host σ} {f : Frame}, h.CallsLocally roots f.callback →
    ∀ i, (body h f i).Local roots f.values Flow.values
  callback : ∀ {h : Host σ} {f g : Frame} {i : UInt64} {w w' : World σ},
    (body h f i).runOn w = (.ok (.next g), w') → g.callback = f.callback

def Epilogue.Local (roots : σ → Set Value) (e : Epilogue σ) : Prop :=
  ∀ ⦃h : Host σ⦄ ⦃f : Frame⦄, h.CallsLocally roots f.callback →
    Run.Local roots f.values ({·}) (ExceptT.lift (e h f))

structure Loop.Local (roots : σ → Set Value) (l : Loop σ) : Prop where
  prologue : Prologue.Local roots l.prologue
  count : Count.Local roots l.count
  body : Body.Local roots l.body
  epilogue : Epilogue.Local roots l.epilogue

/-- Whether the steps in the slots do so; an empty slot has its default. -/
structure LoopSpec.Local (roots : σ → Set Value) (p : LoopSpec σ) : Prop where
  prologue : Prologue.Local roots p.prologueFragment.step
  count : Count.Local roots p.countFragment.step
  body : Body.Local roots p.bodyFragment.step
  epilogue : Epilogue.Local roots p.epilogueFragment.step

variable {roots : σ → Set Value} {h : Host σ} {known : Set Value}

theorem LoopSpec.Local.compile {p : LoopSpec σ} (hp : p.Local roots) (name : String) :
    (p.compile name).Local roots :=
  ⟨hp.prologue, hp.count, hp.body, hp.epilogue⟩

@[simp] theorem Value.isContainer_number (n : Float) : (Value.number n).isContainer = false := rfl

namespace Frame

variable {f : Frame}

@[simp] theorem receiver_mem_values : f.receiver ∈ f.values := by simp [values]

theorem values_that_subset {P : Set Value} {that : Value} (hf : f.values ⊆ P) (hthat : {that} ⊆ P) :
    { f with that }.values ⊆ P := by
  grind [Frame.values]

@[simp] theorem callback_mem_values : f.callback ∈ f.values := by simp [values]

@[simp] theorem that_mem_values : f.that ∈ f.values := by simp [values]

@[simp] theorem out_mem_values : f.out ∈ f.values := by simp [values]

theorem local_invoke (hcallback : h.CallsLocally roots f.callback) {args : List Value}
    (hargs : ∀ v ∈ args, v.isContainer → v ∈ f.values ∨ v ∈ known) :
    (f.invoke h args).Local roots (f.values ∪ known) ({·}) := by
  refine (hcallback _ _).of_known ?_
  grind [Frame.values]

theorem local_visit (hcallback : h.CallsLocally roots f.callback) (i : UInt64) :
    (f.visit h i).Local roots f.values ({·}) := by
  refine Run.local_store_bind (f := fun e => f.invoke h [e, .number i.toFloat, f.receiver])
    (Store.readWithin_element receiver_mem_values i) fun e => local_invoke hcallback ?_
  grind [receiver_mem_values, Value.isContainer_number]

end Frame

namespace Loop

theorem local_iterate {body : Body σ} (hbody : Body.Local roots body) {f : Frame}
    (hcallback : h.CallsLocally roots f.callback) (left : Nat) (i : UInt64) :
    (iterate body h left i f).Local roots f.values Flow.values := by
  induction left generalizing i f with
  | zero => exact Run.local_pure fun v hv _ => hv
  | succ left ih =>
    rw [iterate_succ]
    refine (hbody.values hcallback i).bind fun flow hflow => ?_
    cases flow with
    | done v => exact Run.local_pure fun u hu _ => .inr hu
    | next g =>
      obtain ⟨w, w', hrun⟩ := hflow
      rw [← hbody.callback hrun] at hcallback
      exact (ih hcallback (i + 1)).of_known fun v hv _ => .inr hv

theorem callback_of_iterate {body : Body σ} (hbody : Body.Local roots body) {left : Nat} {i : UInt64}
    {f g : Frame} {w w' : World σ} (hrun : (iterate body h left i f).runOn w = (.ok (.next g), w')) :
    g.callback = f.callback := by
  induction left generalizing i f w with
  | zero =>
    cases hrun
    rfl
  | succ left ih =>
    rw [CallStep.runOn_iterate_succ] at hrun
    rcases hstep : (body h f i).runOn w with ⟨e | k | v, w₁⟩
    · rw [hstep] at hrun
      cases hrun
    · rw [hstep] at hrun
      exact (ih hrun).trans (hbody.callback hstep)
    · rw [hstep] at hrun
      cases hrun

theorem callback_settle (l : Loop σ) (f : Frame) : (l.settle f).callback = f.callback := by
  rw [settle]
  split <;> rfl

/-- The invoker that a loop settles binds what the frame has already. -/
theorem values_settle (l : Loop σ) (f : Frame) : (l.settle f).values ⊆ f.values := by
  intro v hv
  rw [settle] at hv
  split at hv
  · cases hthat : f.that.isTruthy with
    | true =>
      simp only [Frame.values, Invoker.resolve_of_isTruthy hthat, Invoker.binding?] at hv ⊢
      grind
    | false =>
      simp only [Frame.values, Invoker.resolve_of_not_isTruthy hthat, Invoker.binding?] at hv ⊢
      grind
  · exact hv

theorem Local.finish {l : Loop σ} (hl : l.Local roots) {flow : Flow}
    (hcallback : ∀ f, flow = .next f → h.CallsLocally roots f.callback) :
    (l.finish h flow).Local roots flow.values ({·}) := by
  cases flow with
  | next f => exact hl.epilogue (hcallback f rfl)
  | done v => exact Run.local_pure fun u hu _ => hu

/-- The values of a frame at the beginning of a call are those that the call was given. -/
theorem values_start (receiver callback : Value) (second : Option Value) {v : Value}
    (hv : v ∈ (Frame.start receiver callback second).values) (hcontainer : v.isContainer) :
    v ∈ {receiver, callback} ∪ {v | v ∈ second} := by
  cases second <;> grind [Frame.values, Frame.start, Invoker.binding?, Value.isContainer]

theorem callback_of_enter {l : Loop σ} (hl : l.Local roots) {receiver callback : Value}
    {second : Option Value} {f : Frame} {w w' : World σ}
    (hrun : (l.enter h receiver callback second).runOn w = (.ok f, w')) : f.callback = callback := by
  rw [runOn_enter] at hrun
  rcases hprologue : (l.prologue h (.start receiver callback second)).runOn w with ⟨e | g, w₁⟩
  · rw [hprologue] at hrun
    cases hrun
  · rw [hprologue] at hrun
    cases hrun
    exact (l.callback_settle g).trans (hl.prologue.callback hprologue)

theorem Local.enter {l : Loop σ} (hl : l.Local roots) {receiver callback : Value}
    (hcallback : h.CallsLocally roots callback) (second : Option Value) :
    (l.enter h receiver callback second).Local roots ({receiver, callback} ∪ {v | v ∈ second})
      Frame.values := by
  have hprologue := hl.prologue.values (f := .start receiver callback second) hcallback
  refine (hprologue.of_known fun _ => values_start receiver callback second).bind
    fun g ⟨w, w', hrun⟩ => ?_
  have hg : (l.settle g).callback = callback :=
    (l.callback_settle g).trans (hl.prologue.callback hrun)
  have hsettled := values_settle l g
  refine ((hl.count (hg ▸ hcallback)).of_known fun v hv _ => .inr (hsettled hv)).bind fun n _ => ?_
  exact Run.local_pure fun v hv _ => .inl (.inr (hsettled hv))

theorem Local.proceed {l : Loop σ} (hl : l.Local roots) {f : Frame}
    (hcallback : h.CallsLocally roots f.callback) :
    (l.proceed h f).Local roots f.values ({·}) := by
  refine (local_iterate hl.body hcallback f.count.toNat 0).bind fun flow ⟨w, w', hrun⟩ => ?_
  refine (hl.finish ?_).of_known fun v hv _ => .inr hv
  rintro g rfl
  rwa [callback_of_iterate hl.body hrun]

theorem Local.call {l : Loop σ} (hl : l.Local roots) {receiver callback : Value}
    (hcallback : h.CallsLocally roots callback) (second : Option Value) :
    (l.call h receiver callback second).Local roots
      ({receiver, callback} ∪ {v | v ∈ second}) ({·}) := by
  refine (hl.enter hcallback second).bind fun f ⟨w, w', hrun⟩ => ?_
  rw [← callback_of_enter hl hrun] at hcallback
  refine (Run.local_record _).bind fun _ _ => ?_
  exact (hl.proceed hcallback).of_known fun v hv _ => .inl (.inr hv)

end Loop

section Slots

/-- A prologue that only changes the frame. -/
theorem Prologue.local_of_pure {e : Frame → Frame}
    (hvalues : ∀ f, ∀ v ∈ (e f).values, v.isContainer → v ∈ f.values)
    (hcallback : ∀ f, (e f).callback = f.callback) :
    Prologue.Local roots (StorePrologue.lift fun f => pure (e f)) where
  values {h f} _ := Run.local_pure (hvalues f)
  callback {h f g w w'} hrun := by
    cases hrun
    exact hcallback f

/-- A prologue that only reads the store. -/
theorem Prologue.local_of_read {p : StorePrologue} {r : Store → Frame → Frame}
    (hrun : ∀ f s, (p f).run.run s = (.ok (r s f), s))
    (hread : ∀ f, Store.ReadWithin f.values Frame.values (r · f))
    (hcallback : ∀ s f, (r s f).callback = f.callback) : Prologue.Local roots p.lift where
  values {h f} _ := by
    have heq : (p.lift h f : Run σ Frame) = Run.store >>= fun s => pure (r s f) :=
      Run.ext fun w => by rw [StorePrologue.runOn_lift, hrun]; rfl
    rw [heq]
    exact Run.local_store_bind (hread f) fun g => Run.local_pure fun v hv _ => .inr hv
  callback {h f g w w'} hp := by
    rw [StorePrologue.runOn_lift, hrun] at hp
    cases hp
    exact hcallback w.store f

/-- A count that only reads the store. -/
theorem Count.local_of_read {c : StoreCount}
    (hread : ∀ f : Frame, Store.ReadWithin f.values (fun _ => ∅) (c · f)) :
    Count.Local roots c.lift := by
  intro h f _
  exact Run.local_store_bind (f := pure) (hread f) fun n => Run.local_pure nofun

/-- A body that visits an element and makes something of the result without another look at the
store. -/
theorem Body.local_of_visit {k : Frame → Value → Flow}
    (hvalues : ∀ f v, ∀ u ∈ (k f v).values, u.isContainer → u ∈ f.values ∨ u = v)
    (hcallback : ∀ f v g, k f v = .next g → g.callback = f.callback) :
    Body.Local roots fun h f i => (do return k f (← f.visit h i) : Run σ Flow) where
  values {h f} hlocal i := by
    refine (Frame.local_visit hlocal i).bind fun v _ => Run.local_pure ?_
    exact hvalues f v
  callback {h f g i w w'} hrun := by
    obtain ⟨v, w₁, hrun⟩ := Run.exists_of_runOn_bind hrun
    cases hflow : k f v with
    | next g =>
      rw [hflow] at hrun
      cases hrun
      exact hcallback f v g hflow
    | done u =>
      rw [hflow] at hrun
      cases hrun

/-- An epilogue that only looks at the frame. -/
theorem Epilogue.local_of_pure {r : Frame → Value}
    (hresult : ∀ f : Frame, (r f).isContainer → r f ∈ f.values) :
    Epilogue.Local roots (StoreEpilogue.lift fun f => pure (r f)) := by
  intro h f _
  refine Run.local_pure (a := r f) fun v hv hcontainer => ?_
  obtain rfl := Set.mem_singleton_iff.1 hv
  exact hresult f hcontainer

theorem Epilogue.local_returnReceiver : Epilogue.Local roots Fragment.returnReceiver.step.lift :=
  Epilogue.local_of_pure fun f _ => f.receiver_mem_values

namespace Method

/-- An array with a place for each result, if there may be so many. -/
def allocate (f : Frame) (n : UInt64) : Run σ Frame :=
  if maxArrayLength < n then throw .invalidLength
  else do
    let v ← Run.newArray (Array.replicate n.toNat .undefined)
    return { f with out := v }

theorem onStore_preallocate (f : Frame) :
    (Run.onStore (preallocate f) : Run σ Frame) = Run.store >>= fun s => allocate f (f.length s) := by
  refine Run.ext fun w => ?_
  rw [Run.runOn_onStore, run_preallocate, Run.runOn_bind, Run.runOn_store]
  dsimp only
  rw [allocate]
  split <;> rfl

theorem local_preallocate : Prologue.Local roots preallocate.lift where
  values {h f} _ := by
    rw [StorePrologue.lift, onStore_preallocate]
    refine Run.local_store_bind (Store.readWithin_length f.receiver_mem_values) fun n => ?_
    rw [allocate]
    split
    · exact Run.local_throw nofun
    · refine (Run.local_newArray ?_).bind fun v _ => Run.local_pure ?_
      · grind [Value.isContainer]
      · grind [Frame.values]
  callback {h f g w w'} hrun := by
    rw [StorePrologue.runOn_lift, run_preallocate] at hrun
    split at hrun <;> cases hrun
    rfl

theorem local_startEmpty : Prologue.Local roots startEmpty.lift where
  values {h f} _ := by
    have hempty : (Run.newArray #[] : Run σ Value).Local roots f.values ({·}) :=
      Run.local_newArray (by simp)
    refine hempty.bind (f := fun v => pure { f with out := v }) fun v _ => Run.local_pure ?_
    grind [Frame.values]
  callback hrun := by
    cases hrun
    rfl

theorem local_seedFirst : Prologue.Local roots seedFirst.lift := by
  refine Prologue.local_of_read (r := fun s f => if f.seeded then f else { f with that := f.element s 0 })
    (fun f s => ?_) (fun f => ?_) fun s f => by split <;> rfl
  · rw [seedFirst]
    split <;> rfl
  · have helement := Store.readWithin_element f.receiver_mem_values 0
    refine ⟨fun s P hP hknown => ?_, fun s t P hP hknown h => ?_⟩
    · split
      · exact hknown
      · exact Frame.values_that_subset hknown (helement.values s P hP hknown)
    · have hsame : f.element t 0 = f.element s 0 := helement.same s t P hP hknown h
      rw [hsame]

theorem local_seedLast : Prologue.Local roots seedLast.lift := by
  refine Prologue.local_of_read (r := fun s f => if f.seeded || f.length s == 0 then f
    else { f with that := f.element s (f.length s - 1) }) (fun f s => ?_) (fun f => ?_)
    fun s f => by split <;> rfl
  · have hrun : (seedLast f).run.run s = (ExceptT.run (m := StateM Store)
        (if f.seeded || f.length s == 0 then return f
        else return { f with that := f.element (← get) (f.length s - 1) })).run s := rfl
    rw [hrun]
    split <;> rfl
  · refine ⟨fun s P hP hknown => ?_, fun s t P hP hknown h => ?_⟩
    · split
      · exact hknown
      · exact Frame.values_that_subset hknown
          ((Store.readWithin_element f.receiver_mem_values _).values s P hP hknown)
    · have hagree := h.agree f.receiver (hknown f.receiver_mem_values)
      have hlength : f.length t = f.length s := hagree.length_eq.symm
      have helement (i : UInt64) : f.element t i = f.element s i := (hagree.element_eq i).symm
      rw [hlength, helement]

theorem local_foldCount : Count.Local roots foldCount.step.lift := by
  refine Count.local_of_read fun f => ?_
  have hlength := Store.readWithin_length f.receiver_mem_values
  refine ⟨fun _ _ _ _ => Set.empty_subset _, fun s t P hP hknown h => ?_⟩
  have hsame : f.length t = f.length s := hlength.same s t P hP hknown h
  simp only [foldCount, hsame]

theorem local_receiverLength : Count.Local roots Fragment.receiverLength.step.lift :=
  Count.local_of_read fun f => Store.readWithin_length f.receiver_mem_values

end Method

/-- Whether an iteration acts only on what can be reached from the frame. -/
structure CallStep.Local (roots : σ → Set Value) (c : CallStep) : Prop where
  args : ∀ f i, Store.ReadWithin f.values (Run.outcomeValues fun vs : List Value => {v | v ∈ vs})
    (c.args · f i)
  binding : ∀ f, ∀ v ∈ c.binding f, v ∈ f.values
  edit : ∀ f i args v, (Run.updateStore (c.edit f i args v)).Local roots
    (f.values ∪ {u | u ∈ args} ∪ {v}) fun _ => ∅
  flow : ∀ f v, ∀ u ∈ (c.flow f v).values, u.isContainer → u ∈ f.values ∨ u = v
  callback : ∀ f v g, c.flow f v = .next g → g.callback = f.callback

/-- What an iteration does once it has its arguments, or not. -/
def CallStep.proceed (c : CallStep) (h : Host σ) (f : Frame) (i : UInt64) :
    Except Fault (List Value) → Run σ Flow
  | .error e => throw e
  | .ok args => do
    let result ← h.call f.callback (c.binding f) args
    Run.updateStore (c.edit f i args result)
    return c.flow f result

theorem CallStep.Local.body {c : CallStep} (hc : c.Local roots) : Body.Local roots c.body where
  values {h f} hlocal i := by
    refine Run.local_store_bind (f := c.proceed h f i) (hc.args f i) fun o => ?_
    cases o with
    | error e => exact Run.local_throw fun v hv _ => .inr hv
    | ok args =>
      have hcall : (h.call f.callback (c.binding f) args).Local roots
          (f.values ∪ {v | v ∈ args}) ({·}) := by
        have hbinding := hc.binding f
        refine (hlocal _ _).of_known ?_
        grind [f.callback_mem_values]
      refine hcall.bind fun v _ => (hc.edit f i args v).bind fun _ _ => Run.local_pure fun u hu hu' => ?_
      rcases hc.flow f v u hu hu' with hu | rfl
      · exact .inl (.inl (.inl hu))
      · exact .inl (.inr rfl)
  callback {h f g i w w'} hrun := by
    cases hargs : c.args w.store f i with
    | error e =>
      rw [CallStep.runOn_body_of_error hargs] at hrun
      cases hrun
    | ok args =>
      rw [CallStep.runOn_body_of_args hargs] at hrun
      generalize (h.call f.callback (c.binding f) args).runOn w = ending at hrun
      rcases ending with ⟨e | v, w₁⟩
      · cases hrun
      · exact hc.callback f v g (Except.ok.inj (Prod.mk.inj hrun).1)

theorem CallStep.local_visit {edit : Frame → UInt64 → List Value → Value → Store → Store}
    {flow : Frame → Value → Flow}
    (hedit : ∀ f i args v, (Run.updateStore (edit f i args v)).Local roots
      (f.values ∪ {u | u ∈ args} ∪ {v}) fun _ => ∅)
    (hflow : ∀ f v, ∀ u ∈ (flow f v).values, u.isContainer → u ∈ f.values ∨ u = v)
    (hcallback : ∀ f v g, flow f v = .next g → g.callback = f.callback) :
    (CallStep.visit edit flow).Local roots where
  args f i := by
    have helement := Store.readWithin_element f.receiver_mem_values i
    refine ⟨fun s P hP hknown => ?_, fun s t P hP hknown h => ?_⟩
    · have hargs : ∀ v ∈ [f.element s i, .number i.toFloat, f.receiver], v ∈ P := by
        simp only [List.forall_mem_cons]
        exact ⟨Set.singleton_subset_iff.1 (helement.values s P hP hknown), hP.plain _ rfl,
          hknown f.receiver_mem_values, nofun⟩
      exact hargs
    · have hsame : f.element t i = f.element s i := helement.same s t P hP hknown h
      simp only [visit, hsame]
  binding f v hv := .inr hv
  edit := hedit
  flow := hflow
  callback := hcallback

theorem CallStep.local_fold (index : Frame → UInt64 → UInt64) : (CallStep.fold index).Local roots where
  args f i := by
    have helement := Store.readWithin_element f.receiver_mem_values (index f i)
    refine ⟨fun s P hP hknown => ?_, fun s t P hP hknown h => ?_⟩
    · have hargs : ∀ v ∈ [f.that, f.element s (index f i), .number (index f i).toFloat, f.receiver],
          v ∈ P := by
        simp only [List.forall_mem_cons]
        exact ⟨hknown f.that_mem_values, Set.singleton_subset_iff.1 (helement.values s P hP hknown),
          hP.plain _ rfl, hknown f.receiver_mem_values, nofun⟩
      exact hargs
    · have hsame : f.element t (index f i) = f.element s (index f i) :=
        helement.same s t P hP hknown h
      simp only [fold, hsame]
  binding f v hv := by cases hv
  edit f i args v := Run.local_updateStore_id
  flow f v u hu _ := by
    simp only [fold, Flow.values] at hu
    grind [Frame.values]
  callback f v g hg := by
    cases hg
    rfl

theorem CallStep.local_unwrap : CallStep.unwrap.Local roots where
  args f i := by
    have helement := Store.readWithin_element f.receiver_mem_values i
    refine ⟨fun s P hP hknown => ?_, fun s t P hP hknown h => ?_⟩
    · have hmem : f.element s i ∈ P := Set.singleton_subset_iff.1 (helement.values s P hP hknown)
      cases hread : s.read (f.element s i) nodeKey with
      | error e =>
        obtain ⟨-, rfl⟩ := Store.isNullish_of_read_eq_error hread
        simp only [unwrap, hread, Except.map]
        exact Set.empty_subset _
      | ok node =>
        have hargs : ∀ v ∈ [node, f.element s i, .number i.toFloat], v ∈ P := by
          simp only [List.forall_mem_cons]
          exact ⟨hP.read_mem hmem hread, hmem, hP.plain _ rfl, List.forall_mem_nil _⟩
        simp only [unwrap, hread, Except.map]
        exact hargs
    · have hsame : f.element t i = f.element s i := helement.same s t P hP hknown h
      have hmem : f.element s i ∈ P := Set.singleton_subset_iff.1 (helement.values s P hP hknown)
      simp only [unwrap, hsame, (h.agree _ hmem).read_eq nodeKey]
  binding f v hv := .inr hv
  edit f i args v := Run.local_updateStore_id
  flow f v u hu _ := .inl hu
  callback f v g hg := by
    cases hg
    rfl

namespace Method

theorem local_place (f : Frame) (i : UInt64) (args : List Value) (v : Value) :
    (Run.updateStore (place f i args v)).Local roots (f.values ∪ {u | u ∈ args} ∪ {v}) fun _ => ∅ := by
  cases hout : f.out with
  | array r =>
    have hplace : place f i args v = (·.setItem r i.toNat v) := by
      funext s
      simp only [place, hout]
    rw [hplace]
    refine Run.local_updateArray (.inl (.inl (hout ▸ f.out_mem_values))) fun vs u hu => ?_
    rcases Array.mem_or_eq_of_mem_setIfInBounds hu with hu | rfl
    · exact .inl hu
    · exact .inr fun _ => .inr rfl
  | _ =>
    have hplace : place f i args v = id := by
      funext s
      simp only [place, hout, id]
    rw [hplace]
    exact Run.local_updateStore_id

theorem local_keep (f : Frame) (i : UInt64) (args : List Value) (v : Value) :
    (Run.updateStore (keep f i args v)).Local roots (f.values ∪ {u | u ∈ args} ∪ {v}) fun _ => ∅ := by
  by_cases hkeeps : v.isTruthy ∧ ∃ r, f.out = .array r
  · obtain ⟨hv, r, hout⟩ := hkeeps
    have hkeep : keep f i args v = (·.push r (args.headD .undefined)) := by
      funext s
      simp only [keep, hv, hout]
    rw [hkeep]
    refine Run.local_updateArray (.inl (.inl (hout ▸ f.out_mem_values))) fun vs u hu => ?_
    rcases Array.mem_push.1 hu with hu | rfl
    · exact .inl hu
    · refine .inr fun hcontainer => .inl (.inr ?_)
      cases args with
      | nil => cases hcontainer
      | cons a args => exact List.mem_cons_self
  · have hkeep : keep f i args v = id := by
      funext s
      rw [keep]
      split
      · next r hv hout => exact absurd ⟨hv, r, hout⟩ hkeeps
      · rfl
    rw [hkeep]
    exact Run.local_updateStore_id

theorem local_step (m : Method) : m.step.Local roots := by
  have hkeeps (f : Frame) (v u : Value) (hu : u ∈ (Flow.next f).values) (_ : u.isContainer) :
      u ∈ f.values ∨ u = v := .inl hu
  have hframe (m : Method) (f : Frame) (v : Value) (g : Frame) (hflow : m.step.flow f v = .next g) :
      g.callback = f.callback := (flow_eq_next hflow).2.callback
  have hnone (f : Frame) (_ : UInt64) (args : List Value) (v : Value) :
      (Run.updateStore (σ := σ) fun s => s).Local roots (f.values ∪ {u | u ∈ args} ∪ {v})
        fun _ => ∅ := Run.local_updateStore_id
  cases m with
  | each => exact CallStep.local_visit hnone hkeeps (hframe .each)
  | some =>
    refine CallStep.local_visit hnone (fun f v u hu hcontainer => ?_) (hframe .some)
    split at hu
    · cases hu
      cases hcontainer
    · exact .inl hu
  | every =>
    refine CallStep.local_visit hnone (fun f v u hu hcontainer => ?_) (hframe .every)
    simp only [Flow.values] at hu
    grind [Frame.values, Value.isContainer]
  | map => exact CallStep.local_visit local_place hkeeps (hframe .map)
  | filter => exact CallStep.local_visit local_keep hkeeps (hframe .filter)
  | reduce | reduceRight => exact CallStep.local_fold _
  | legacy => exact CallStep.local_unwrap

theorem local_prologue (m : Method) :
    Prologue.Local roots (m.spec : LoopSpec σ).prologueFragment.step := by
  have hnone : Prologue.Local roots Fragment.noPrologue.step.lift :=
    Prologue.local_of_pure (e := id) (fun _ _ hv _ => hv) fun _ => rfl
  cases m with
  | each | some => exact hnone
  | every =>
    refine Prologue.local_of_pure (e := fun f => { f with out := .boolean true }) ?_ fun _ => rfl
    grind [Frame.values, Value.isContainer]
  | map => exact local_preallocate
  | filter => exact local_startEmpty
  | reduce => exact local_seedFirst
  | reduceRight => exact local_seedLast
  | legacy =>
    refine Prologue.local_of_pure (e := fun f => { f with that := f.receiver }) ?_ fun _ => rfl
    grind [Frame.values]

theorem local_count (m : Method) : Count.Local roots (m.spec : LoopSpec σ).countFragment.step := by
  cases m with
  | reduce | reduceRight => exact local_foldCount
  | _ => exact local_receiverLength

theorem local_body (m : Method) : Body.Local roots (m.spec : LoopSpec σ).bodyFragment.step := by
  have hbody : (m.spec : LoopSpec σ).bodyFragment.step = m.step.body := m.body_loop
  rw [hbody]
  exact m.local_step.body

theorem local_epilogue (m : Method) :
    Epilogue.Local roots (m.spec : LoopSpec σ).epilogueFragment.step := by
  cases m with
  | each | legacy => exact Epilogue.local_returnReceiver
  | some =>
    exact Epilogue.local_of_pure (r := fun _ => .boolean false) fun f hcontainer => by
      cases hcontainer
  | every | map | filter => exact Epilogue.local_of_pure (r := Frame.out) fun f _ => f.out_mem_values
  | reduce | reduceRight =>
    exact Epilogue.local_of_pure (r := Frame.that) fun f _ => f.that_mem_values

/-- A method acts only on what can be reached from its receiver, its callback, its second argument and
the state of the host, if its callback does so. -/
theorem local_call (m : Method) {callback : Value} (hcallback : h.CallsLocally roots callback)
    (receiver : Value) (second : Option Value) :
    (m.call h receiver callback second).Local roots
      ({receiver, callback} ∪ {v | v ∈ second}) ({·}) := by
  have hspec : (m.spec : LoopSpec σ).Local roots :=
    ⟨m.local_prologue, m.local_count, m.local_body, m.local_epilogue⟩
  have hloop : (m.loop : Loop σ).Local roots := hspec.compile m.name
  rw [call]
  exact hloop.call hcallback second

end Method

end Slots

end CollectionLoops
