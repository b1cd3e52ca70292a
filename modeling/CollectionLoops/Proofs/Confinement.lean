import CollectionLoops.Proofs.LocalScripts
import CollectionLoops.Proofs.FilterResults
import CollectionLoops.Proofs.OwnEffects

/-!
The array that `map` and `filter` make is theirs alone until they hand it out. Main statement: if the
callback acts only on what can be reached, then no call can reach this array, so that none can see or
change what it holds, and after a fault nothing leads to it.
-/
namespace CollectionLoops

variable {σ : Type}

/-- The values that calls gave. -/
def results (calls : List (HostCall σ)) : Set Value := {v | ∃ x ∈ calls, x.outcome = .ok v}

/-- A function sees no container as its binding but the one that it was bound to. -/
theorem FunctionRef.mem_of_mem_sees {r : FunctionRef} {binding : Option Value} {v : Value}
    (hv : v ∈ r.sees binding) (hcontainer : v.isContainer) : v ∈ binding := by
  obtain ⟨kind, i⟩ := r
  cases kind with
  | plain => cases hv
  | method => exact Value.mem_of_eq_getD (Option.some.inj hv).symm hcontainer

theorem results_nil_subset {P : Set Value} : results ([] : List (HostCall σ)) ⊆ P := by
  rintro v ⟨x, hx, -⟩
  cases hx

theorem results_cons_subset {x : HostCall σ} {calls : List (HostCall σ)} {P : Set Value}
    (hx : Run.outcomeValues ({·}) x.outcome ⊆ P) (hcalls : results calls ⊆ P) :
    results (x :: calls) ⊆ P := by
  rintro v ⟨y, hy, hv⟩
  rcases List.mem_cons.1 hy with rfl | hy
  · rw [hv] at hx
    exact Set.singleton_subset_iff.1 hx
  · exact hcalls ⟨y, hy, hv⟩

/-- What the known values and the host give access to in a world, and an array of the store that they
do not lead to. -/
structure Secluded (roots : σ → Set Value) (P : Set Value) (out : ArrayRef) (w : World σ) : Prop where
  closed : w.store.Closed P
  roots : roots w.host ⊆ P
  contains : w.store.Contains (.array out)
  notMem : .array out ∉ P

/-- A store in which an array holds something else. -/
def Store.refill (s : Store) (r : ArrayRef) (vs : Array Value) : Store := s.updateArray r fun _ => vs

variable {roots : σ → Set Value} {h : Host σ} {P : Set Value} {out : ArrayRef} {w : World σ}

namespace Store

variable {s t : Store}

theorem eq_of_agree (hcontains : ∀ v, s.Contains v ↔ t.Contains v)
    (hagree : ∀ v, s.Contains v → s.Agree t v) : s = t := by
  have hsame : s.SameOn ∅ t := ⟨hcontains, nofun⟩
  have harrays : s.arrays = t.arrays := by
    refine Array.ext hsame.arrays_size_eq fun i hi hi' => ?_
    have hitems : s.items ⟨i⟩ = t.items ⟨i⟩ := hagree (.array ⟨i⟩) hi
    simpa [items, hi, hi'] using hitems
  have hobjects : s.objects = t.objects := by
    refine Array.ext hsame.objects_size_eq fun i hi hi' => ?_
    have hproperties : s.properties ⟨i⟩ = t.properties ⟨i⟩ := hagree (.object ⟨i⟩) hi
    simpa [properties, hi, hi'] using hproperties
  cases s
  cases t
  cases harrays
  cases hobjects
  rfl

theorem sameOn_refill (hout : .array out ∉ P) (vs : Array Value) :
    s.SameOn P (s.refill out vs) where
  contains _ := contains_updateArray.symm
  agree _ hv := agree_updateArray _ fun h => hout (h ▸ hv)

theorem items_refill (hcontains : s.Contains (.array out)) (vs : Array Value) :
    (s.refill out vs).items out = vs := items_updateArray_self s _ hcontains

theorem agree_refill (vs : Array Value) {v : Value} (hv : v ≠ .array out) :
    s.Agree (s.refill out vs) v := agree_updateArray _ hv

/-- What goes on out of reach of an array does so whatever the array holds. -/
theorem eq_refill_of_evolves {s' t' : Store} {vs : Array Value} (hout : .array out ∉ P)
    (hcontains : s.Contains (.array out)) (hs : s.Evolves P s') (ht : (s.refill out vs).Evolves P t')
    (hsame : s'.SameOn (s.grown P s') t') : t' = s'.refill out vs := by
  have hrefill {v : Value} : (s.refill out vs).Contains v ↔ s.Contains v := contains_updateArray
  refine eq_of_agree (fun v => (hsame.contains v).symm.trans contains_updateArray.symm) fun v hv => ?_
  by_cases hvout : v = .array out
  · have hkept := ht.keeps _ (hrefill.2 hcontains) hout
    have hitems : t'.items out = (s'.refill out vs).items out := by
      rw [items_refill (hs.contains _ hcontains), ← items_refill hcontains vs]
      exact hkept.symm
    rw [hvout]
    exact hitems
  have hs' : s'.Agree (s'.refill out vs) v := agree_refill vs hvout
  by_cases hgrown : v ∈ s.grown P s'
  · exact (hsame.agree v hgrown).symm.trans hs'
  · have hvP : v ∉ P := fun h => hgrown (.inl h)
    have hvs : s.Contains v :=
      Classical.not_not.1 fun hnew => hgrown (.inr ⟨hnew, (hsame.contains v).2 hv⟩)
    have hkept := hs.keeps v hvs hvP
    have hkept' := ht.keeps v (hrefill.2 hvs) hvP
    exact hkept'.symm.trans ((agree_refill vs hvout).symm.trans (hkept.trans hs'))

end Store

/-- A call of a function that acts only on what can be reached leaves what is secluded as it is, and
makes no way to it. -/
theorem Secluded.call (hw : Secluded roots P out w) {r : FunctionRef}
    (hlocal : h.CallsLocally roots (.function r)) {b : Option Value} {args : List Value}
    (hb : ∀ v ∈ b, v ∈ P) (hargs : ∀ v ∈ args, v ∈ P) {x : HostCall σ}
    (hx : x = h.callOf r b args w) :
    ∃ Q, P ⊆ Q ∧ Secluded roots Q out x.after ∧ Run.outcomeValues ({·}) x.outcome ⊆ Q ∧
      x.after.store.items out = w.store.items out ∧
      ∀ vs, h.callOf r b args (w.update (·.refill out vs)) =
        { x with before := w.update (·.refill out vs), after := x.after.update (·.refill out vs) } := by
  have hknown : {.function r} ∪ {v | v ∈ b} ∪ {v | v ∈ args} ⊆ P := by
    rintro v ((rfl | hv) | hv)
    · exact hw.closed.plain _ rfl
    · exact hb v hv
    · exact hargs v hv
  obtain ⟨o, w', hrun, hevolves, hsame⟩ := (hlocal b args).localAt hw.closed hknown hw.roots
  have houtcome : x.outcome = o := by rw [hx, Host.callOf, hrun]
  have hafter : x.after = w' := by rw [hx, Host.callOf, hrun]
  have hkept := hevolves.store.keeps _ hw.contains hw.notMem
  rw [houtcome, hafter]
  refine ⟨w.store.grown P w'.store, w.store.subset_grown P _, ⟨hevolves.store.closed, hevolves.roots,
    hevolves.store.contains _ hw.contains, (Store.mem_grown_iff hw.contains).not.2 hw.notMem⟩,
    hevolves.gained, hkept.symm, fun vs => ?_⟩
  have hrefill : w.store.SameOn P (w.store.refill out vs) := Store.sameOn_refill hw.notMem vs
  obtain ⟨t', hrun', ht'⟩ := hsame _ hrefill
  obtain ⟨o', w'', hrun'', hevolves', -⟩ := (hlocal b args).localAt
    (w := w.update (·.refill out vs)) (hrefill.closed hw.closed) hknown hw.roots
  obtain ⟨rfl, rfl⟩ := Prod.mk.inj (hrun'.symm.trans hrun'')
  obtain rfl : t' = w'.store.refill out vs :=
    Store.eq_refill_of_evolves hw.notMem hw.contains hevolves.store hevolves'.store ht'
  have hrun' : (h.call (.function r) b args).runOn (w.update (·.refill out vs)) =
    (o, w'.update (·.refill out vs)) := hrun'
  rw [Host.callOf, hrun', hx]
  rfl

namespace Method

/-- What `map` and `filter` do between two calls keeps the array under construction secluded. -/
theorem secluded_edit {m : Method} (hw : Secluded roots P out w) {f : Frame}
    (hout : f.out = .array out) (i : UInt64) (args : List Value) (v : Value) :
    Secluded roots P out (w.update (m.step.edit f i args v)) where
  closed := hw.closed.of_agree (fun _ => contains_edit) fun u hu => agree_edit fun r hr hur => by
    rw [hout] at hr
    cases hr
    exact hw.notMem (hur ▸ hu)
  roots := hw.roots
  contains := contains_edit hw.contains
  notMem := hw.notMem

/-- What a call of a run has to do with: a closed set without the array under construction. -/
structure Sees (roots : σ → Set Value) (h : Host σ) (callback : Value) (P : Set Value)
    (out : ArrayRef) (earlier : List (HostCall σ)) (x : HostCall σ) : Prop where
  secluded : Secluded roots P out x.before
  callee : ∃ r b, callback = .function r ∧ x = h.callOf r b x.args x.before ∧ ∀ v ∈ b, v ∈ P
  args : ∀ v ∈ x.args, v ∈ P
  earlier : results earlier ⊆ P

/-- What such a call leaves is seen by a larger set, which has its result and still not the array. -/
theorem Sees.exists_secluded {callback : Value} {earlier : List (HostCall σ)} {x : HostCall σ}
    (hx : Sees roots h callback P out earlier x) (hlocal : h.CallsLocally roots callback) :
    ∃ Q, P ⊆ Q ∧ Secluded roots Q out x.after ∧ Run.outcomeValues ({·}) x.outcome ⊆ Q := by
  obtain ⟨r, b, rfl, hcall, hb⟩ := hx.callee
  obtain ⟨Q, hPQ, hQ, hgained, -⟩ := hx.secluded.call hlocal hb hx.args hcall
  exact ⟨Q, hPQ, hQ, hgained⟩

section Runs

variable {m : Method} {left : Nat} {i : UInt64} {f : Frame} {w' : World σ}
  {calls : List (HostCall σ)} {o : Except Fault Flow}

theorem mem_visitors (hm : m ∈ [.map, .filter]) : m ∈ visitors := by
  cases m <;> first | decide | exact absurd hm (by decide)

theorem flow_step (hm : m ∈ [.map, .filter]) (f : Frame) (v : Value) :
    m.step.flow f v = .next f := by
  cases m <;> first | rfl | exact absurd hm (by decide)

theorem sees_of_callOf (hm : m ∈ [.map, .filter]) (hw : Secluded roots P out w)
    (hreceiver : f.receiver ∈ P) (hbinding : ∀ v ∈ f.invoker.binding?, v ∈ P) {args : List Value}
    {r : FunctionRef} {x : HostCall σ} (hready : m.step.args w.store f i = .ok args)
    (hcallback : f.callback = .function r) (hx : x = h.callOf r (m.step.binding f) args w) :
    Sees roots h f.callback P out [] x := by
  rw [args_step (mem_visitors hm)] at hready
  rw [binding_step (mem_visitors hm)] at hx
  cases hready
  subst hx
  refine ⟨hw, ⟨r, _, hcallback, rfl, hbinding⟩, ?_, results_nil_subset⟩
  change ∀ v ∈ [f.element w.store i, .number i.toFloat, f.receiver], v ∈ P
  simp only [List.forall_mem_cons]
  exact ⟨hw.closed.element_mem hreceiver i, hw.closed.plain _ rfl, hreceiver, nofun⟩

/-- The first call of a run, and later ones that see what it gave. -/
theorem sees_of_cons {x : HostCall σ} {callback : Value} {Q : Set Value} (hPQ : P ⊆ Q)
    (hfirst : Sees roots h callback P out [] x) (hx : Run.outcomeValues ({·}) x.outcome ⊆ Q)
    (hrest : ∀ (k : Nat) y, calls[k]? = Option.some y →
      ∃ R, Q ⊆ R ∧ Sees roots h callback R out (calls.take k) y) (k : Nat) (y : HostCall σ)
    (hk : (x :: calls)[k]? = Option.some y) :
    ∃ R, P ⊆ R ∧ Sees roots h callback R out ((x :: calls).take k) y := by
  cases k with
  | zero =>
    cases hk
    exact ⟨P, subset_rfl, hfirst⟩
  | succ k =>
    obtain ⟨R, hQR, hsees⟩ := hrest k y hk
    exact ⟨R, hPQ.trans hQR, hsees.secluded, hsees.callee, hsees.args,
      results_cons_subset (hx.trans hQR) hsees.earlier⟩

/-- A run keeps the array under construction out of what its calls see and give, and out of what it
leaves behind. -/
theorem secluded_of_runs (run : m.step.Runs h left i f w calls o w') (hm : m ∈ [.map, .filter])
    (hlocal : h.CallsLocally roots f.callback) (hout : f.out = .array out)
    (hw : Secluded roots P out w) (hreceiver : f.receiver ∈ P)
    (hbinding : ∀ v ∈ f.invoker.binding?, v ∈ P) :
    (∃ Q, P ⊆ Q ∧ Secluded roots Q out w' ∧ results calls ⊆ Q ∧
      ∀ e, o = .error e → e.values ⊆ Q) ∧
    ∀ (k : Nat) (x : HostCall σ), calls[k]? = Option.some x →
      ∃ Q, P ⊆ Q ∧ Sees roots h f.callback Q out (calls.take k) x := by
  -- on the run; each call makes the set larger by what it made and gave
  induction run generalizing P with
  | finished => exact ⟨⟨P, subset_rfl, hw, results_nil_subset, nofun⟩, fun k x hk => by simp at hk⟩
  | unready hready =>
    rw [args_step (mem_visitors hm)] at hready
    cases hready
  | uncallable =>
    refine ⟨⟨P, subset_rfl, hw, results_nil_subset, fun e he => ?_⟩, fun k x hk => by simp at hk⟩
    cases he
    exact Set.empty_subset _
  | failed hready hcallback hx hfail =>
    have hfirst := sees_of_callOf hm hw hreceiver hbinding hready hcallback hx
    obtain ⟨Q, hPQ, hQ, hgained⟩ := hfirst.exists_secluded hlocal
    refine ⟨⟨Q, hPQ, hQ, results_cons_subset hgained results_nil_subset, fun e he => ?_⟩,
      sees_of_cons hPQ hfirst hgained fun k y hk => by simp at hk⟩
    cases he
    rwa [hfail] at hgained
  | stopped _ _ _ _ hdone =>
    rw [flow_step hm] at hdone
    cases hdone
  | @continued left i f w args r x v g calls o w' hready hcallback hx hok hnext _ ih =>
    rw [flow_step hm] at hnext
    cases hnext
    have hfirst := sees_of_callOf hm hw hreceiver hbinding hready hcallback hx
    obtain ⟨Q, hPQ, hQ, hgained⟩ := hfirst.exists_secluded hlocal
    obtain ⟨⟨R, hQR, hR, hresults, herror⟩, hrest⟩ := ih hlocal hout (secluded_edit hQ hout i args v)
      (hPQ hreceiver) fun u hu => hPQ (hbinding u hu)
    exact ⟨⟨R, hPQ.trans hQR, hR, results_cons_subset (hgained.trans hQR) hresults, herror⟩,
      sees_of_cons hPQ hfirst hgained hrest⟩

end Runs

/-- The prologues of `map` and `filter` put a new array in the place of the result, if they do not
refuse the receiver. -/
theorem run_prologue_cases {m : Method} (hm : m ∈ [.map, .filter]) (f : Frame) (s : Store) :
    (m.callLoop.prologue f).run.run s = (.error .invalidLength, s) ∨
      ∃ vs, (m.callLoop.prologue f).run.run s =
        (.ok { f with out := .array ⟨s.arrays.size⟩ }, (s.newArray vs).2) := by
  cases m with
  | map =>
    have hrun := run_preallocate f s
    by_cases hlong : maxArrayLength < f.length s
    · exact .inl (hrun.trans (if_pos hlong))
    · exact .inr ⟨_, hrun.trans (if_neg hlong)⟩
  | filter => exact .inr ⟨_, run_startEmpty f s⟩
  | _ => exact absurd hm (by decide)

/-- Before the first call the new array is secluded from all that the method was given. -/
theorem secluded_entered {m : Method} {f : Frame} (vs : Array Value)
    (hP : w.store.Closed P) (hroots : roots w.host ⊆ P) :
    Secluded roots P ⟨w.store.arrays.size⟩ (m.callLoop.entered (w.store.newArray vs).2 f w) where
  closed := by
    have hedited := w.store.edited_newArray vs
    refine hP.of_agree (fun v hv => (hedited.contains v).2 (.inl hv)) fun v hv => ?_
    have hv := hP.contains v hv
    exact hedited.keeps v hv fun hnew => Nat.lt_irrefl _ (hnew ▸ hv : w.store.Contains (.array _))
  roots := hroots
  contains := ((w.store.edited_newArray vs).contains _).2 (.inr rfl)
  notMem hmem := Nat.lt_irrefl _ (hP.contains _ hmem)

/-- What a call of a run sees does not lead to the array under construction, before the call and after
it, and the call does not depend on the array. -/
theorem Sees.confined {known : Set Value} {callback : Value} {earlier : List (HostCall σ)}
    {x : HostCall σ} (hx : Sees roots h callback P out earlier x) (hknown : known ⊆ P)
    (hlocal : h.CallsLocally roots callback) :
    let seen := known ∪ results earlier ∪ {v | v ∈ x.binding} ∪ {v | v ∈ x.args}
    x.before.store.Contains (.array out) ∧
    .array out ∉ x.before.store.reachable (seen ∪ roots x.before.host) ∧
    .array out ∉ x.after.store.reachable
      (seen ∪ roots x.after.host ∪ Run.outcomeValues ({·}) x.outcome) ∧
    x.after.store.items out = x.before.store.items out ∧
    ∀ vs, h.callOf x.callee x.binding x.args (x.before.update (·.refill out vs)) =
      { x with
        before := x.before.update (·.refill out vs)
        after := x.after.update (·.refill out vs) } := by
  intro seen
  obtain ⟨r, b, rfl, hcall, hb⟩ := hx.callee
  obtain ⟨Q, hPQ, hQ, hgained, hitems, hrefill⟩ := hx.secluded.call hlocal hb hx.args hcall
  have hcallee : x.callee = r := by rw [hcall]; rfl
  have hbinding : x.binding = r.sees b := by rw [hcall]; rfl
  have hseen : seen ⊆ P := by
    rintro v (((hv | hv) | hv) | hv)
    · exact hknown hv
    · exact hx.earlier hv
    · rw [hbinding] at hv
      exact hx.secluded.closed.mem fun hcontainer => hb v (FunctionRef.mem_of_mem_sees hv hcontainer)
    · exact hx.args v hv
  refine ⟨hx.secluded.contains, fun hmem => ?_, fun hmem => ?_, hitems, fun vs => ?_⟩
  · exact hx.secluded.notMem (hx.secluded.closed.reachable_subset
      (Set.union_subset hseen hx.secluded.roots) hmem)
  · exact hQ.notMem (hQ.closed.reachable_subset
      (Set.union_subset (Set.union_subset (hseen.trans hPQ) hQ.roots) hgained) hmem)
  · rw [← hrefill vs, hcallee, hbinding, Host.callOf_sees]

/-- What a run of `map` or `filter` sees, gives and leaves is in closed sets without the array that it
makes. -/
theorem sees_of_call {m : Method} (hm : m ∈ [.map, .filter]) {receiver callback : Value}
    {context : Option Value} (hlocal : h.CallsLocally roots callback) (hP : w.store.Closed P)
    (hknown : {receiver, callback} ∪ {v | v ∈ context} ⊆ P) (hroots : roots w.host ⊆ P)
    {result : Except Fault Value} {w' : World σ}
    (hrun : (m.call h receiver callback context).runOn w = (result, w')) :
    let calls := m.calls h receiver callback context w
    let out : ArrayRef := ⟨w.store.arrays.size⟩
    (∀ (k : Nat) (x : HostCall σ), calls[k]? = Option.some x →
      ∃ Q, P ⊆ Q ∧ Sees roots h callback Q out (calls.take k) x) ∧
    (∃ Q, P ⊆ Q ∧ w'.store.Closed Q ∧ roots w'.host ⊆ Q ∧ .array out ∉ Q ∧ results calls ⊆ Q ∧
      ∀ e, result = .error e → e.values ⊆ Q) ∧
    ∀ v, result = .ok v → v = .array out := by
  intro calls out
  have hnew : .array out ∉ P := fun hmem => Nat.lt_irrefl _ (hP.contains _ hmem)
  obtain ⟨result', w'', hcall, hrun', -⟩ := m.exists_runs_call h receiver callback context w
  obtain ⟨rfl, rfl⟩ := Prod.mk.inj (hrun'.symm.trans hrun)
  rcases run_prologue_cases hm (.start receiver callback context) w.store with
    hrefused | ⟨vs, hprologue⟩
  · obtain ⟨hcalls, rfl, rfl⟩ := hcall.of_error hrefused
    have hcalls : calls = [] := hcalls
    rw [hcalls]
    refine ⟨fun k x hk => by simp at hk, ⟨P, subset_rfl, hP, hroots, hnew, results_nil_subset,
      fun e he => ?_⟩, nofun⟩
    cases he
    exact Set.empty_subset _
  · obtain ⟨o, w₁, hruns, hleave⟩ := hcall.of_ok hprologue
    have hsecluded := secluded_entered (m := m) (f := { Frame.start receiver callback context with
      out := .array out }) vs hP hroots
    rw [enter_callLoop (List.mem_cons_of_mem _ (mem_visitors hm))] at hruns
    have hbinding : ∀ v ∈ (Invoker.resolve (context.getD .undefined)).binding?, v ∈ P := by
      rw [Invoker.binding?_resolve_getD]
      exact fun v hv => hknown (.inr (Option.filter_eq_some_iff.1 hv).1)
    have hreceiver : receiver ∈ P := hknown (.inl (.inl rfl))
    obtain ⟨⟨Q, hPQ, hQ, hresults, herror⟩, hsees⟩ :=
      secluded_of_runs hruns hm hlocal rfl hsecluded hreceiver hbinding
    have hworld : w'' = w₁ := by rw [← leave_snd (m := m) o w₁, hleave]
    have hends (e : Fault) (he : result' = .error e) : o = .error e :=
      leave_eq_error (m := m) (w := w₁) (by rw [hleave, he])
    refine ⟨hsees, ⟨Q, hPQ, ?_⟩, fun v hv => ?_⟩
    · rw [hworld]
      exact ⟨hQ.closed, hQ.roots, hQ.notMem, hresults, fun e he => herror e (hends e he)⟩
    · rcases o with e | flow
      · obtain ⟨he, -⟩ := Prod.mk.inj hleave
        rw [hv] at he
        cases he
      · have hflow := hruns.eq_next_of_ok (flow_step hm) rfl
        rw [hflow, leave_returnOut (List.mem_cons_of_mem _ hm)] at hleave
        obtain ⟨hout, -⟩ := Prod.mk.inj hleave
        rw [hv] at hout
        exact (Except.ok.inj hout).symm

/-- The array that `map` or `filter` makes can be reached by no call of a callback that acts only on
what it can reach from its arguments, its binding and the state of the host. Neither these nor the
receiver, the context and the results so far lead to it, before the call and after it; the call leaves
it as it is, and does the same whatever is in it. After a fault nothing leads to it. -/
theorem call_confines_out {m : Method} (hm : m ∈ [.map, .filter]) (h : Host σ) (roots : σ → Set Value)
    (w : World σ) (receiver callback : Value) (context : Option Value)
    (hlocal : h.CallsLocally roots callback)
    (hstore : ∀ v ∈ w.store.reachable ({receiver, callback} ∪ {v | v ∈ context} ∪ roots w.host),
      w.store.Contains v) :
    let known : Set Value := {receiver, callback} ∪ {v | v ∈ context}
    let calls := m.calls h receiver callback context w
    let ending := (m.call h receiver callback context).runOn w
    let out : ArrayRef := ⟨w.store.arrays.size⟩
    (∀ (k : Nat) (x : HostCall σ), calls[k]? = Option.some x →
      let seen := known ∪ results (calls.take k) ∪ {v | v ∈ x.binding} ∪ {v | v ∈ x.args}
      x.before.store.Contains (.array out) ∧
      .array out ∉ x.before.store.reachable (seen ∪ roots x.before.host) ∧
      .array out ∉ x.after.store.reachable
        (seen ∪ roots x.after.host ∪ Run.outcomeValues ({·}) x.outcome) ∧
      x.after.store.items out = x.before.store.items out ∧
      ∀ vs, h.callOf x.callee x.binding x.args (x.before.update (·.refill out vs)) =
        { x with
          before := x.before.update (·.refill out vs)
          after := x.after.update (·.refill out vs) }) ∧
    .array out ∉ ending.2.store.reachable (known ∪ results calls ∪ roots ending.2.host ∪
      {v | ∃ e, ending.1 = .error e ∧ v ∈ e.values}) ∧
    (∀ v, ending.1 = .ok v → v = .array out) ∧
    ∀ (m' : Method) (receiver' callback' : Value) (second : Option Value),
      h.CallsLocally roots callback' → (m'.call h receiver' callback' second).Local roots
        ({receiver', callback'} ∪ {v | v ∈ second}) ({·}) := by
  intro known calls ending out
  have hP := Store.closed_reachable hstore
  have hsubset := w.store.subset_reachable ({receiver, callback} ∪ {v | v ∈ context} ∪ roots w.host)
  have hknown : known ⊆ _ := (Set.union_subset_iff.1 hsubset).1
  obtain ⟨result, w', hrun⟩ : ∃ o w', (m.call h receiver callback context).runOn w = (o, w') :=
    ⟨_, _, rfl⟩
  have hending : ending = (result, w') := hrun
  obtain ⟨hsees, ⟨Q, hPQ, hQ, hroots, hout, hresults, herror⟩, hresult⟩ := sees_of_call hm hlocal hP
    hknown (Set.union_subset_iff.1 hsubset).2 hrun
  rw [hending]
  refine ⟨fun k x hk => ?_, fun hmem => hout (hQ.reachable_subset ?_ hmem), hresult,
    fun m' receiver' callback' second hlocal' => m'.local_call hlocal' receiver' second⟩
  · obtain ⟨R, hPR, hR⟩ := hsees k x hk
    exact hR.confined (hknown.trans hPR) hlocal
  · rintro v (((hv | hv) | hv) | ⟨e, he, hv⟩)
    · exact hPQ (hknown hv)
    · exact hresults hv
    · exact hroots hv
    · exact herror e he hv

end Method

/-- An array that has itself as an element, and a function that keeps all that it is given in a
variable, puts it into the array and goes through the array with another method. -/
def keepingScript : World Script.State where
  store := ⟨#[#[.string "a", .array ⟨0⟩]], #[]⟩
  log := #[]
  host := ⟨.empty, #[⟨.method, none, .sequence [
    .assign "kept" (.array [.argument 0, .argument 2, .binding]),
    .binary .push (.argument 2) (.variable "kept"),
    .loop (.named "filter") (.argument 2) (.function .plain none (.argument 0)) none]⟩], #[]⟩

/-- The first call keeps the receiver in a variable and itself goes through it, and still nothing that
the script has leads to the result. -/
theorem Method.call_confines_out_keeping :
    let receiver : Value := .array ⟨0⟩
    let callback : Value := .function ⟨.method, 0⟩
    let known : Set Value := {receiver, callback} ∪ {v | v ∈ Option.some receiver}
    (∀ v ∈ keepingScript.store.reachable (known ∪ Script.State.roots keepingScript.host),
      keepingScript.store.Contains v) ∧
    (Script.host 2).CallsLocally Script.State.roots callback ∧
    ∃ x, (map.calls (Script.host 2) receiver callback (Option.some receiver) keepingScript)[0]? =
        Option.some x ∧
      x.before.store.Contains (.array ⟨1⟩) ∧
      .array ⟨1⟩ ∉ x.after.store.reachable (known ∪ results ([] : List (HostCall Script.State)) ∪
        {v | v ∈ x.binding} ∪ {v | v ∈ x.args} ∪ Script.State.roots x.after.host ∪
        Run.outcomeValues ({·}) x.outcome) := by
  intro receiver callback known
  -- a method that is a variable has no source text to evaluate
  obtain ⟨m, hm⟩ : ∃ m, m = Method.map := ⟨_, rfl⟩
  rw [← hm]
  have hlocal := Script.callsLocally_host 2 callback
  have hclosed : keepingScript.store.Closed {v | keepingScript.store.Contains v} := by
    refine ⟨fun v hv => Store.contains_of_not_isContainer _ hv, fun _ hv => hv, fun u hu v hv => ?_⟩
    cases u with
    | array r =>
      obtain ⟨i⟩ := r
      obtain rfl : i = 0 := Nat.lt_one_iff.1 hu
      have hv : v ∈ [.string "a", .array ⟨0⟩] := hv
      rcases List.mem_cons.1 hv with rfl | hv
      · exact trivial
      · obtain rfl := List.mem_singleton.1 hv
        exact Nat.zero_lt_one
    | object r => exact absurd hu (Nat.not_lt_zero _)
    | _ => cases hv
  have hknown : known ∪ Script.State.roots keepingScript.host ⊆
      {v | keepingScript.store.Contains v} := by
    have hreceiver : keepingScript.store.Contains receiver := Nat.zero_lt_one
    rintro v (((rfl | rfl) | hv) | hv | ⟨f, hf, hv⟩)
    · exact hreceiver
    · exact trivial
    · cases hv
      exact hreceiver
    · cases hv
    · obtain rfl := Array.mem_singleton.1 hf
      simp [Script.Expr.constants, Script.listConstants, Script.optionConstants] at hv
  have hstore := hclosed.reachable_subset hknown
  have hvisitors : m ∈ [.map, .filter] := by rw [hm]; decide
  obtain ⟨hcalls, -⟩ := m.call_confines_out hvisitors (Script.host 2) Script.State.roots keepingScript
    receiver callback (Option.some receiver) hlocal hstore
  have hne : m.calls (Script.host 2) receiver callback (Option.some receiver) keepingScript ≠ [] := by
    intro hnil
    have htwo : keepingScript.store.length receiver = 2 := by decide
    have hlength := length_calls_of_not_ends receiver (Option.some receiver) (mem_visitors hvisitors)
      (Script.host 2) keepingScript ⟨.method, 0⟩ (fun _ => htwo.trans_le (by decide)) fun x hx => by
        rw [hnil] at hx
        cases hx
    rw [hnil, htwo] at hlength
    cases hlength
  obtain ⟨x, hx⟩ : ∃ x, (m.calls _ _ _ _ _)[0]? = Option.some x :=
    ⟨_, List.getElem?_eq_getElem (List.length_pos_iff.2 hne)⟩
  obtain ⟨hcontains, -, hafter, -⟩ := hcalls 0 x hx
  exact ⟨hstore, hlocal, x, hx, hcontains, hafter⟩

end CollectionLoops
