import CollectionLoops.Proofs.EndlessText
import CollectionLoops.Proofs.LocalLoops
import CollectionLoops.Script

/-!
The operations of the script language act only on what can be reached from their operands. Main
statement: texts and structural equality do not depend on what cannot be reached, and a loop put
together from whatever steps a script may choose acts only on what its callback and its arguments give
access to.
-/
namespace CollectionLoops

namespace Store

variable {s t : Store} {P known : Set Value} {v w : Value}

/-- The text of what is in a closed set does not depend on what is outside. -/
theorem quotedWithin?_congr (h : s.SameOn P t) (hP : s.Closed P) (locked : Value → Bool) (depth : Nat)
    (hv : v ∈ P) : t.quotedWithin? locked depth v = s.quotedWithin? locked depth v := by
  induction depth generalizing v with
  | zero => rfl
  | succ depth ih =>
    cases v with
    | array r =>
      have hitems : s.items r = t.items r := h.agree _ hv
      have htexts : (s.items r).toList.mapM (t.quotedWithin? locked depth) =
          (s.items r).toList.mapM (s.quotedWithin? locked depth) :=
        mapM_congr fun u hu => ih (hP.inside _ hv u hu)
      simp only [quotedWithin?, ← hitems, htexts]
    | object r =>
      have hproperties : s.properties r = t.properties r := h.agree _ hv
      simp only [quotedWithin?, ← hproperties]
      congr 2
      refine mapM_congr fun e he => ?_
      rw [ih (hP.inside _ hv e.2 (List.mem_map_of_mem he))]
    | _ => rfl

theorem quotedText?_congr (h : s.SameOn P t) (hP : s.Closed P) (hv : v ∈ P) (locked : Value → Bool) :
    t.quotedText? v locked = s.quotedText? v locked := by
  rw [quotedText?, quotedText?, ← h.size_eq, quotedWithin?_congr h hP locked _ hv]

theorem text?_congr (h : s.SameOn P t) (hP : s.Closed P) (hv : v ∈ P) (locked : Value → Bool) :
    t.text? v locked = s.text? v locked := by
  cases v with
  | string r => rfl
  | _ => exact quotedText?_congr h hP hv locked

theorem allM_congr {α : Type} {l : List α} {f g : α → Option Bool} (h : ∀ a ∈ l, f a = g a) :
    l.allM f = l.allM g := by
  induction l with
  | nil => rfl
  | cons a l ih =>
    rw [List.allM, List.allM, h a List.mem_cons_self, ih fun b hb => h b (List.mem_cons_of_mem a hb)]

/-- Whether two values of a closed set are equal does not depend on what is outside. -/
theorem equalWithin?_congr (h : s.SameOn P t) (hP : s.Closed P) (depth : Nat) (hv : v ∈ P)
    (hw : w ∈ P) : t.equalWithin? depth v w = s.equalWithin? depth v w := by
  induction depth generalizing v w with
  | zero => rfl
  | succ depth ih =>
    cases v with
    | array a =>
      cases w with
      | array b =>
        have ha : s.items a = t.items a := h.agree _ hv
        have hb : s.items b = t.items b := h.agree _ hw
        simp only [equalWithin?, ← ha, ← hb]
        congr 2
        exact allM_congr fun e he =>
          ih (hP.inside _ hv _ (List.of_mem_zip he).1) (hP.inside _ hw _ (List.of_mem_zip he).2)
      | _ => rfl
    | object a =>
      cases w with
      | object b =>
        have ha : s.properties a = t.properties a := h.agree _ hv
        have hb : s.properties b = t.properties b := h.agree _ hw
        simp only [equalWithin?, ← ha, ← hb]
        congr 2
        refine allM_congr fun e he => ?_
        obtain ⟨k, u⟩ := e
        dsimp only
        cases hproperty : (s.properties b).get? k with
        | none => rfl
        | some v =>
          exact ih (hP.inside _ hv _ (List.mem_map_of_mem he))
            (hP.inside _ hw _ (mem_children_of_get? hproperty))
      | _ => rfl
    | _ => cases w <;> rfl

theorem equal_congr (h : s.SameOn P t) (hP : s.Closed P) (hv : v ∈ P) (hw : w ∈ P) :
    t.equal v w = s.equal v w := by
  rw [equal, equal, equal?, equal?, equalityDepth, equalityDepth, ← h.size_eq,
    equalWithin?_congr h hP _ hv hw]

theorem readWithin_items {r : ArrayRef} (hr : .array r ∈ known) :
    ReadWithin known (fun vs : Array Value => {u | u ∈ vs}) (·.items r) where
  values _ _ hP hknown u hu := hP.inside _ (hknown hr) u (Array.mem_toList_iff.2 hu)
  same _ _ _ _ hknown h := (h.agree _ (hknown hr)).symm

theorem readWithin_properties {r : ObjectRef} (hr : .object r ∈ known) :
    ReadWithin known (fun p : Properties => {u | u ∈ p.entries.map Prod.snd}) (·.properties r) where
  values _ _ hP hknown u hu := hP.inside _ (hknown hr) u hu
  same _ _ _ _ hknown h := (h.agree _ (hknown hr)).symm

/-- What is read and is no container does not come from any. -/
theorem readWithin_plain {read : Store → Value} (hplain : ∀ s, (read s).isContainer = false)
    (hsame : ∀ s t P, s.Closed P → known ⊆ P → s.SameOn P t → read t = read s) :
    ReadWithin known ({·}) read :=
  ⟨fun s _ hP _ => Set.singleton_subset_iff.2 (hP.plain _ (hplain s)), hsame⟩

end Store

/-- It is enough that the functions of a host do so, as no other value can be called. -/
theorem Host.callsLocally {σ : Type} {h : Host σ} {roots : σ → Set Value}
    (hplain : ∀ i args, (h.plain i args).Local roots {v | v ∈ args} ({·}))
    (hmethod : ∀ i b args, (h.method i b args).Local roots ({b} ∪ {v | v ∈ args}) ({·}))
    (callee : Value) : h.CallsLocally roots callee := by
  intro binding args
  cases callee with
  | function r =>
    obtain ⟨kind, i⟩ := r
    cases kind with
    | plain => exact (hplain i args).of_known fun v hv _ => .inr hv
    | method =>
      refine (hmethod i _ args).of_known ?_
      rintro v (hv | hv) hcontainer
      · exact .inl (.inr (Value.mem_of_eq_getD hv hcontainer))
      · exact .inr hv
  | _ =>
    refine Run.local_store_bind (f := throw) (K := Fault.values) (g := (Fault.notCallable · _))
      ⟨fun _ _ _ _ => Set.empty_subset _, fun s t P hP hknown h => ?_⟩
      fun e => Run.local_throw fun v hv _ => .inr hv
    rw [Fault.notCallable, Fault.notCallable, Store.quotedText?_congr h hP (hknown (.inl (.inl rfl)))]

theorem Invoker.eq_of_mem_binding?_resolve {c v : Value} (hv : v ∈ (resolve c).binding?) : v = c := by
  cases hc : c.isTruthy with
  | true =>
    rw [resolve_of_isTruthy hc] at hv
    exact (Option.some.inj hv).symm
  | false =>
    rw [resolve_of_not_isTruthy hc] at hv
    cases hv

namespace Properties

variable {p : Properties} {key : String} {value : Value} {e : String × Value}

theorem mem_insertEntry {l : List (String × Value)} (he : e ∈ insertEntry key value l) :
    e = (key, value) ∨ e ∈ l := by
  induction l with
  | nil => exact .inl (List.mem_singleton.1 he)
  | cons d l ih =>
    obtain ⟨k, v⟩ := d
    rw [insertEntry] at he
    split at he
    · exact (List.mem_cons.1 he).imp id (List.mem_cons_of_mem _)
    · rcases List.mem_cons.1 he with rfl | he
      · exact .inr List.mem_cons_self
      · exact (ih he).imp id (List.mem_cons_of_mem _)

theorem mem_entries_insert (he : e ∈ (p.insert key value).entries) :
    e = (key, value) ∨ e ∈ p.entries := mem_insertEntry he

theorem mem_entries_foldl_insert {l : List (String × Value)}
    (he : e ∈ (l.foldl (fun p e => p.insert e.1 e.2) p).entries) : e ∈ p.entries ∨ e ∈ l := by
  induction l generalizing p with
  | nil => exact .inl he
  | cons d l ih =>
    rcases ih he with he | he
    · refine (mem_entries_insert he).symm.imp id fun h => ?_
      rw [h]
      exact List.mem_cons_self
    · exact .inr (List.mem_cons_of_mem d he)

theorem mem_entries_ofList {l : List (String × Value)} (he : e ∈ (ofList l).entries) : e ∈ l :=
  (mem_entries_foldl_insert he).resolve_left List.not_mem_nil

end Properties

namespace Script

variable {roots : State → Set Value}

theorem local_popItem (v : Value) : (popItem v).Local roots {v} ({·}) := by
  cases v with
  | array r =>
    have hpop (vs : Array Value) : (do
        Run.updateStore (·.updateArray r Array.pop)
        return vs.back?.getD .undefined : Run State Value).Local roots
          ({.array r} ∪ {u | u ∈ vs}) ({·}) := by
      refine (Run.local_updateArray (.inl rfl) fun xs u hu => .inl ?_).bind fun _ _ =>
        Run.local_pure fun u hu hcontainer => .inl (.inr ?_)
      · rw [← Array.mem_toList_iff, Array.toList_pop] at hu
        exact Array.mem_toList_iff.1 ((List.dropLast_sublist _).subset hu)
      · exact Array.mem_of_back? (Value.mem_of_eq_getD hu hcontainer)
    have hlocal := Run.local_store_bind (Store.readWithin_items (Set.mem_singleton _)) hpop
    exact hlocal
  | _ => exact Run.local_pure (by simp [Value.isContainer])

theorem local_pushItem (v x : Value) : (pushItem v x).Local roots {v, x} ({·}) := by
  cases v with
  | array r =>
    refine (Run.local_updateArray (f := (·.push x)) (.inl rfl) fun vs u hu => ?_).bind fun _ _ => ?_
    · exact (Array.mem_push.1 hu).imp id fun h _ => .inr h
    · refine Run.local_store_pure (Store.readWithin_plain (fun _ => rfl) fun s t P _ hknown h => ?_)
      rw [(h.agree _ (hknown (.inl (.inl rfl)))).length_eq]
  | _ => exact Run.local_pure (by simp [Value.isContainer])

theorem local_deleteProperty (v key : Value) :
    (deleteProperty v key).Local roots {v} ({·}) := by
  cases v with
  | object r =>
    cases key with
    | string k =>
      have hdelete (p : Properties) : (do
          Run.updateStore (·.updateObject r (·.erase k))
          return (p.get? k).getD .undefined : Run State Value).Local roots
            ({.object r} ∪ {u | u ∈ p.entries.map Prod.snd}) ({·}) := by
        refine (Run.local_updateObject (.inl rfl) fun q e he => .inl (List.mem_filter.1 he).1).bind
          fun _ _ => Run.local_pure fun u hu hcontainer => .inl (.inr ?_)
        exact Properties.mem_values_of_get? (Value.mem_of_eq_getD hu hcontainer)
      have hlocal := Run.local_store_bind (Store.readWithin_properties (Set.mem_singleton _)) hdelete
      exact hlocal
    | _ => exact Run.local_pure (by simp [Value.isContainer])
  | _ => exact Run.local_pure (by simp [Value.isContainer])

theorem local_write (v key x : Value) : (write v key x).Local roots {v, x} ({·}) := by
  cases v with
  | array r =>
    refine (Run.local_updateArray (f := (·.setIfInBounds (toIndex key).toNat x)) (.inl rfl)
      fun vs u hu => ?_).bind fun _ _ => Run.local_pure fun u hu _ => .inl (.inr hu)
    exact (Array.mem_or_eq_of_mem_setIfInBounds hu).imp id fun h _ => .inr h
  | object r =>
    cases key with
    | string k =>
      refine (Run.local_updateObject (f := (·.insert k x)) (.inl rfl) fun p e he => ?_).bind fun _ _ =>
        Run.local_pure fun u hu _ => .inl (.inr hu)
      exact (Properties.mem_entries_insert he).symm.imp id fun h _ => by rw [h]; exact .inr rfl
    | _ => exact Run.local_pure (by simp [Value.isContainer])
  | _ => exact Run.local_pure (by simp [Value.isContainer])

/-- A text is no container, and one without end hands nothing out. -/
theorem local_ofText (t : Option String) {known : Set Value} :
    (ofText t).Local roots known ({·}) := by
  cases t with
  | some t => exact Run.local_pure (by simp [Value.isContainer])
  | none => exact Run.local_throw fun v hv _ => hv.elim

/-- A text that is the same for every store that cannot be told apart through known values. -/
theorem local_store_ofText {known : Set Value} {read : Store → Option String}
    (hsame : ∀ s t P, s.Closed P → known ⊆ P → s.SameOn P t → read t = read s) :
    (Run.store >>= fun s => ofText (read s)).Local roots known ({·}) :=
  Run.local_store_bind (K := fun _ => ∅) ⟨fun _ _ _ _ => Set.empty_subset _, hsame⟩ fun t =>
    local_ofText t

theorem local_unary (op : Unary) (v : Value) : (op.apply v).Local roots {v} ({·}) := by
  cases op with
  | wrap =>
    refine Run.local_newObject fun e he _ => ?_
    obtain rfl := List.mem_singleton.1 (Properties.mem_entries_ofList he)
    rfl
  | snapshot =>
    cases v with
    | array r =>
      exact Run.local_store_bind (Store.readWithin_items (Set.mem_singleton _)) fun vs =>
        Run.local_newArray fun u hu _ => .inr hu
    | _ => exact Run.local_pure (by simp [Value.isContainer])
  | pop => exact local_popItem v
  | read key => exact Run.local_read (Set.mem_singleton v) key
  | text => exact local_store_ofText fun s t P hP hknown h => Store.text?_congr h hP (hknown rfl) _
  | quotedText =>
    exact local_store_ofText fun s t P hP hknown h => Store.quotedText?_congr h hP (hknown rfl) _
  | length =>
    exact Run.local_store_pure (Store.readWithin_plain (fun _ => rfl) fun s t P _ hknown h => by
      rw [(h.agree v (hknown rfl)).length_eq])
  | invokerText =>
    refine local_store_ofText fun s t P hP hknown h => ?_
    cases hv : v.isTruthy with
    | true =>
      rw [Invoker.resolve_of_isTruthy hv, Invoker.debugText?, Invoker.debugText?,
        Store.quotedText?_congr h hP (hknown rfl)]
    | false =>
      rw [Invoker.resolve_of_not_isTruthy hv]
      rfl
  | asNumber => cases v <;> exact Run.local_pure (by simp [Value.isContainer, Value.asNumber?])
  | truthy | not | isBound => exact Run.local_pure (by simp [Value.isContainer])

theorem local_binary (op : Binary) (v w : Value) : (op.apply v w).Local roots {v, w} ({·}) := by
  cases op with
  | arithmetic op => cases op <;> exact Run.local_pure (by simp [Value.isContainer, Arithmetic.apply])
  | push => exact local_pushItem v w
  | delete => exact (local_deleteProperty v w).of_known fun u hu _ => .inl hu
  | strictEquals => exact Run.local_pure (by simp [Value.isContainer])
  | equal =>
    exact Run.local_store_pure (Store.readWithin_plain (fun _ => rfl) fun s t P hP hknown h => by
      rw [Store.equal_congr h hP (hknown (.inl rfl)) (hknown (.inr rfl))])
  | lockedText =>
    exact local_store_ofText fun s t P hP hknown h => Store.text?_congr h hP (hknown (.inr rfl)) _
  | element => exact Run.local_store_pure (Store.readWithin_element (Set.mem_insert v _) _)

section Slots

variable {σ : Type} {roots : σ → Set Value}

theorem local_prologueStep (p : PrologueStep) : Prologue.Local roots (p.step : Prologue σ) := by
  cases p with
  | noop => exact Prologue.local_of_pure (e := id) (fun _ _ hv _ => hv) fun _ => rfl
  | fail =>
    refine ⟨fun _ => ?_, fun hrun => by cases hrun⟩
    exact Run.local_throw (e := .thrown (.string "prologue")) fun v hv hcontainer => by
      cases hv
      cases hcontainer
  | outThat =>
    refine Prologue.local_of_pure (e := fun f => { f with out := f.that }) ?_ fun _ => rfl
    grind [Frame.values]
  | clearThat =>
    refine Prologue.local_of_pure (e := fun f => { f with that := .undefined }) ?_ fun _ => rfl
    grind [Frame.values, Value.isContainer]
  | ofMethod m => exact m.local_prologue

theorem local_countStep (c : CountStep) : Count.Local roots (c.step : Count σ) := by
  have hframe (n : Frame → UInt64) : Count.Local roots (StoreCount.lift fun _ f => n f : Count σ) :=
    Count.local_of_read (c := fun _ f => n f) fun f =>
      ⟨fun _ _ _ _ => Set.empty_subset _, fun _ _ _ _ _ _ => rfl⟩
  cases c with
  | zero => exact hframe fun _ => 0
  | three => exact hframe fun _ => 3
  | lengthPlusOne =>
    refine Count.local_of_read (c := fun s f => f.length s + 1) fun f =>
      ⟨fun _ _ _ _ => Set.empty_subset _, fun s t P _ hknown h => ?_⟩
    have hlength : f.length t = f.length s := (h.agree _ (hknown f.receiver_mem_values)).length_eq.symm
    rw [hlength]
  | seeded => exact hframe fun f => if f.seeded then 1 else 0
  | ofMethod m => exact m.local_count

theorem local_bodyStep (b : BodyStep) : Body.Local roots (b.step : Body σ) := by
  cases b with
  | tally =>
    refine ⟨fun _ _ => Run.local_pure ?_, fun hrun => ?_⟩
    · simp only [Flow.values]
      grind [Frame.values, Value.isContainer]
    · cases hrun
      rfl
  | returnTruthy =>
    refine Body.local_of_visit (fun f v u hu _ => ?_) fun f v g hg => ?_
    · split at hu
      · exact .inr hu
      · exact .inl hu
    · split at hg <;> cases hg
      rfl
  | rebind =>
    refine Body.local_of_visit (fun f v u hu _ => ?_) fun f v g hg => ?_
    · simp only [Flow.values] at hu
      grind [Frame.values]
    · cases hg
      rfl
  | plain =>
    refine ⟨fun {h f} hlocal i => ?_, fun {h f g i w w'} hrun => ?_⟩
    · refine Run.local_store_bind (f := fun e => do
          let out ← f.callPlain h [e, .number i.toFloat]
          return Flow.next { f with out }) (Store.readWithin_element f.receiver_mem_values i) fun e => ?_
      have hcall : (f.callPlain h [e, .number i.toFloat]).Local roots (f.values ∪ {e}) ({·}) := by
        refine (hlocal none [e, .number i.toFloat]).of_known ?_
        grind [f.callback_mem_values, Value.isContainer_number]
      refine hcall.bind fun v _ => Run.local_pure ?_
      simp only [Flow.values]
      grind [Frame.values]
    · obtain ⟨s, w₁, hrun⟩ := Run.exists_of_runOn_bind hrun
      obtain ⟨v, w₂, hrun⟩ := Run.exists_of_runOn_bind hrun
      cases hrun
      rfl
  | ofMethod m => exact m.local_body

theorem local_epilogueStep (e : EpilogueStep) : Epilogue.Local roots (e.step : Epilogue σ) := by
  cases e with
  | count => exact Epilogue.local_of_pure (r := fun f => .number f.count.toFloat) fun f h => by cases h
  | state =>
    intro h f _
    refine Run.local_store_bind (f := fun n => Run.newArray #[f.that, .boolean f.seeded, f.out,
      .boolean f.invoker.isBound, .number f.count.toFloat, .number n.toFloat, .boolean (n == 0)])
      (Store.readWithin_length f.receiver_mem_values) fun n => Run.local_newArray ?_
    simp only [List.mem_toArray, List.forall_mem_cons]
    exact ⟨fun _ => .inl f.that_mem_values, nofun, fun _ => .inl f.out_mem_values, nofun, nofun, nofun,
      nofun, fun v hv => absurd hv List.not_mem_nil⟩
  | ofMethod m => exact m.local_epilogue

theorem local_spec (t : LoopText) : (t.spec : LoopSpec σ).Local roots := by
  obtain ⟨p, hp⟩ := t.exists_prologueStep (σ := σ)
  obtain ⟨c, hc⟩ := t.exists_countStep (σ := σ)
  obtain ⟨e, he⟩ := t.exists_epilogueStep (σ := σ)
  refine ⟨hp ▸ local_prologueStep p, hc ▸ local_countStep c, ?_, he ▸ local_epilogueStep e⟩
  rcases t.exists_bodyStep (σ := σ) with hb | ⟨b, hb⟩
  · rw [hb]
    refine ⟨fun _ _ => Run.local_pure fun v hv _ => hv, fun hrun => ?_⟩
    cases hrun
    rfl
  · exact hb ▸ local_bodyStep b

end Slots

theorem values_of_find_eq_error {name : String} {e : Fault} (h : Method.find name = .error e)
    {v : Value} (hv : v ∈ e.values) : False := by
  rw [Method.find] at h
  split at h <;> cases h
  cases hv

theorem local_target (t : Target) {h : Host State} {roots : State → Set Value} {callback : Value}
    (hcallback : h.CallsLocally roots callback) (receiver : Value) (second : Option Value) :
    (t.call h receiver callback second).Local roots
      ({receiver, callback} ∪ {v | v ∈ second}) ({·}) := by
  have hcall (m : Method) (second : Option Value) := m.local_call hcallback receiver second
  have htruthy (m : Method) : (do return (← m.call h receiver callback second).isTruthy :
      Run State Bool).Local roots ({receiver, callback} ∪ {v | v ∈ second}) fun _ => ∅ :=
    (hcall m second).bind fun v _ => Run.local_pure nofun
  cases t with
  | named name =>
    rw [Target.call, Method.invoke]
    cases hfind : Method.find name with
    | error e => exact Run.local_throw fun v hv _ => (values_of_find_eq_error hfind hv).elim
    | ok m => exact hcall m second
  | typed name =>
    rw [Target.call]
    cases hfind : Method.find name with
    | error e =>
      have hthrow (k : Method → Run State Value) : (throw e >>= k) = throw e := rfl
      rw [Target.call.liftExcept, hthrow]
      exact Run.local_throw fun v hv _ => (values_of_find_eq_error hfind hv).elim
    | ok m =>
      rw [Target.call.liftExcept, pure_bind]
      cases m with
      | some => exact (htruthy .some).bind fun b _ => Run.local_pure (by simp [Value.isContainer])
      | every => exact (htruthy .every).bind fun b _ => Run.local_pure (by simp [Value.isContainer])
      | legacy =>
        rw [Value.legacy]
        exact (hcall .legacy none).of_known (by grind)
      | each => exact hcall .each second
      | map => exact hcall .map second
      | filter => exact hcall .filter second
      | reduce => exact hcall .reduce second
      | reduceRight => exact hcall .reduceRight second
  | custom text =>
    have hloop : (text.spec.compile "custom" : Loop State).Local roots := (local_spec text).compile _
    exact (Run.local_record _).bind fun _ _ =>
      (hloop.call hcallback second).of_known fun u hu _ => .inl hu

end Script

end CollectionLoops
