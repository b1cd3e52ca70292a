import CollectionLoops.Proofs.MapResults

/-!
The array that `filter` makes. It is empty before the first call, and each call whose result is truthy
puts at its end what the call was shown. Main statement: if the calls leave that array alone, it holds
at the end what they were shown and accepted, in the order of the calls and no other.
-/
namespace CollectionLoops

variable {σ : Type}

namespace HostCall

/-- What a call was shown: its first argument. -/
def shown (c : HostCall σ) : Value := c.args.headD .undefined

/-- Whether a call ended with something truthy. -/
def accepts (c : HostCall σ) : Bool :=
  match c.outcome with
  | .ok v => v.isTruthy
  | .error _ => false

/-- Whether a call left an array where it was and as it was. An empty one that is gone would hold the
same as before. -/
structure Spares (c : HostCall σ) (r : ArrayRef) : Prop where
  there : c.before.store.Contains (.array r) → c.after.store.Contains (.array r)
  keeps : c.Keeps r

end HostCall

/-- What calls were shown and accepted. -/
def kept (calls : List (HostCall σ)) : List Value :=
  (calls.filter HostCall.accepts).map HostCall.shown

theorem kept_cons (x : HostCall σ) (calls : List (HostCall σ)) :
    kept (x :: calls) = (if x.accepts then [x.shown] else []) ++ kept calls := by
  cases hx : x.accepts <;> simp [kept, hx]

namespace Store

theorem toList_items_push {s : Store} {r : ArrayRef} (hr : s.Contains (.array r)) (v : Value) :
    ((s.push r v).items r).toList = (s.items r).toList ++ [v] := by
  rw [push, items_updateArray_self s _ hr, Array.toList_push]

end Store

namespace Method

/-- A method that makes a result of its own ends with it. -/
theorem leave_returnOut {m : Method} (hm : m ∈ [.every, .map, .filter]) (f : Frame) (w : World σ) :
    m.callLoop.leave (.ok (.next f)) w = (.ok f.out, w) := by
  cases m <;> first | rfl | exact absurd hm (by decide)

section Step

variable {f : Frame} {i : UInt64} {args : List Value} {v : Value} {s : Store} {out : ArrayRef}

theorem toList_items_keep (i : UInt64) (hout : f.out = .array out) (hthere : s.Contains (.array out)) :
    ((keep f i args v s).items out).toList =
      (s.items out).toList ++ if v.isTruthy then [args.headD .undefined] else [] := by
  cases hv : v.isTruthy with
  | false => simp [keep, hv]
  | true => simpa [keep, hv, hout] using Store.toList_items_push hthere (args.headD .undefined)

end Step

section Runs

variable {h : Host σ} {left : Nat} {i : UInt64} {f : Frame} {w w' : World σ}
  {calls : List (HostCall σ)} {o : Except Fault Flow}

/-- A run that leaves the array alone between its own writes puts at its end what the calls were shown
and accepted, each before the next call. -/
theorem items_of_runs (out : ArrayRef) (run : filter.step.Runs h left i f w calls o w')
    (hout : f.out = .array out) (hspares : ∀ x ∈ calls, x.Spares out)
    (hthere : w.store.Contains (.array out)) :
    w'.store.Contains (.array out) ∧
      (w'.store.items out).toList = (w.store.items out).toList ++ kept calls ∧
      ∀ (k : Nat) (x : HostCall σ), calls[k]? = Option.some x →
        (x.before.store.items out).toList = (w.store.items out).toList ++ kept (calls.take k) := by
  -- on the run; after the first call the array has grown by what that call put there
  induction run with
  | finished | unready | uncallable => exact ⟨hthere, by simp [kept], fun k x hk => by simp at hk⟩
  | @failed _ _ _ w _ _ x _ _ _ hx hfail =>
    have hspared := hspares x (List.mem_singleton_self x)
    have hbefore : x.before = w := by rw [hx]; rfl
    have hrejects : x.accepts = false := by rw [HostCall.accepts, hfail]
    refine ⟨hspared.there (by rwa [hbefore]), ?_, fun k y hk => ?_⟩
    · rw [hspared.keeps, hbefore, kept_cons, hrejects]
      simp [kept]
    · cases k with
      | zero =>
        cases hk
        simp [hbefore, kept]
      | succ k => simp at hk
  | stopped _ _ _ _ hflow => cases hflow
  | @continued left i f w args _ x v _ calls _ _ _ _ hx hok hflow _ ih =>
    cases hflow
    have hspared := hspares x List.mem_cons_self
    have hbefore : x.before = w := by rw [hx]; rfl
    have hshown : x.shown = args.headD .undefined := by rw [hx]; rfl
    have haccepts : x.accepts = v.isTruthy := by rw [HostCall.accepts, hok]
    have hafter : x.after.store.Contains (.array out) := hspared.there (by rwa [hbefore])
    have hgrown : ((x.after.update (filter.step.edit f i args v)).store.items out).toList =
        (w.store.items out).toList ++ if x.accepts then [x.shown] else [] := by
      rw [haccepts, hshown, ← hbefore, ← hspared.keeps]
      exact toList_items_keep i hout hafter
    obtain ⟨hcontains, hitems, hcalls⟩ := ih hout
      (fun y hy => hspares y (List.mem_cons_of_mem x hy)) (contains_edit (m := .filter) (i := i) hafter)
    refine ⟨hcontains, ?_, fun k y hk => ?_⟩
    · rw [hitems, hgrown, kept_cons, List.append_assoc]
    · cases k with
      | zero =>
        cases hk
        simp [hbefore, kept]
      | succ k =>
        rw [hcalls k y hk, hgrown, List.take_succ_cons, kept_cons, List.append_assoc]

end Runs

/-- Call number `k` of `filter` is shown the element that the receiver has at `k` when its turn comes.
As long as the calls leave the array of `filter` alone, it holds before each of them what the earlier
ones were shown and accepted; and if there is a call for each element and none fails, `filter` gives
this array, which is none of the containers there were, with exactly what its calls were shown and
accepted. -/
theorem call_filter_eq_kept (h : Host σ) (w : World σ) (receiver callback : Value)
    (context : Option Value) :
    let calls := filter.calls h receiver callback context w
    let ending := (filter.call h receiver callback context).runOn w
    let out : ArrayRef := ⟨w.store.arrays.size⟩
    (∀ (k : Nat) (x : HostCall σ), calls[k]? = Option.some x →
      x.args = [(w.leftBy (calls.take k)).store.element receiver (.ofNat k),
        .number (UInt64.ofNat k).toFloat, receiver]) ∧
    ((∀ x ∈ calls, x.Spares out) →
      (∀ (k : Nat) (x : HostCall σ), calls[k]? = Option.some x →
        (x.before.store.items out).toList = kept (calls.take k)) ∧
      (calls.length = (w.store.length receiver).toNat → (∀ x ∈ calls, ∃ v, x.outcome = .ok v) →
        ending.1 = .ok (.array out) ∧
        (∀ v, w.store.Contains v → v ≠ .array out) ∧
        ending.2.store.Contains (.array out) ∧
        (ending.2.store.items out).toList = kept calls)) := by
  intro calls ending out
  refine ⟨fun k x hk => ?_, fun hspares => ?_⟩
  · obtain ⟨f, w₁, o, w', hruns, -, rfl, hcallback, -, hagree, hout⟩ :=
      runs_of_mem_visitors receiver callback context (m := .filter) (by decide) h w nofun
    obtain ⟨r, hr⟩ := hruns.exists_callback_eq (List.mem_of_getElem? hk)
    have hx := eq_callOf_of_runs hruns (by decide) hr (hout (ne_zero_of_runs hruns hk)) hk
    rw [UInt64.zero_add, ← element_leftBy_congr w w₁ hagree] at hx
    rw [hx]
    rfl
  · obtain ⟨result, w', hcall, hrun, -⟩ := filter.exists_runs_call h receiver callback context w
    have hending : ending = (result, w') := hrun
    obtain ⟨o, w₁, hruns, hleave⟩ := hcall.of_ok (run_startEmpty _ w.store)
    rw [enter_callLoop (by decide)] at hruns
    have hlength : (w.store.newArray #[]).2.length receiver = w.store.length receiver :=
      (Store.agree_newArray #[] fun _ => rfl).length_eq.symm
    have hempty : ((filter.callLoop.entered (w.store.newArray #[]).2
        { Frame.start receiver callback context with out := .array out } w).store.items out).toList =
        [] := congrArg Array.toList ((w.store.items_newArray #[] out).trans (if_pos rfl))
    have hthere : (w.store.newArray #[]).2.Contains (.array out) := by
      simp [Store.Contains, Store.newArray, out]
    obtain ⟨hcontains, hitems, hcalls⟩ := items_of_runs out hruns rfl hspares hthere
    rw [hempty, List.nil_append] at hitems
    refine ⟨fun k x hk => ?_, fun hall hok => ?_⟩
    · rw [hcalls k x hk, hempty, List.nil_append]
    -- the count is a second reading of the length, now with the new array in the store
    have hall : calls.length = ((w.store.newArray #[]).2.length receiver).toNat := by rw [hall, hlength]
    rw [hruns.eq_next (fun _ _ => rfl) hall hok, leave_returnOut (by decide)] at hleave
    obtain ⟨hout, rfl⟩ := Prod.mk.inj hleave
    rw [hending]
    refine ⟨hout.symm, ?_, hcontains, hitems⟩
    rintro _ hv rfl
    exact Nat.lt_irrefl _ hv

/-- Calls that empty the receiver, one item each, do not touch what was already kept. -/
theorem call_filter_eq_kept_shrinking :
    let calls := filter.calls shrinkingHost (.array ⟨0⟩) (.function ⟨.plain, 0⟩) none threeStrings
    (∀ x ∈ calls, x.Spares ⟨1⟩) ∧ calls.length = 3 ∧ (∀ x ∈ calls, ∃ v, x.outcome = .ok v) ∧
      ((filter.call shrinkingHost (.array ⟨0⟩) (.function ⟨.plain, 0⟩) none).runOn
        threeStrings).1 = .ok (.array ⟨1⟩) ∧
      (((filter.call shrinkingHost (.array ⟨0⟩) (.function ⟨.plain, 0⟩) none).runOn
        threeStrings).2.store.items ⟨1⟩).toList = kept calls := by
  intro calls
  have hthree : (threeStrings.store.length (.array ⟨0⟩)).toNat = 3 := by decide +kernel
  have hcall (x) (hx : x ∈ calls) : x.Spares ⟨1⟩ ∧ ∃ v, x.outcome = .ok v := by
    obtain ⟨⟨kind, i⟩, b, args, hx⟩ := filter.exists_eq_callOf _ _ _ _ _ hx
    rw [hx]
    have hne : (⟨1⟩ : ArrayRef) ≠ ⟨0⟩ := by decide
    have hkeeps := x.before.store.items_updateArray_of_ne (·.pop) hne
    cases kind <;> exact ⟨⟨Store.contains_updateArray.2, hkeeps⟩, _, rfl⟩
  have hspares := fun x hx => (hcall x hx).1
  have hok := fun x hx => (hcall x hx).2
  have hlength : calls.length = 3 := by
    refine (length_calls_of_not_ends (m := filter) _ _ (by decide) _ _ _ nofun
      fun x hx hends => ?_).trans hthree
    obtain ⟨v, hv⟩ := hok x hx
    rw [hv] at hends
    exact absurd hends.1 (by decide)
  obtain ⟨-, hfilter⟩ := call_filter_eq_kept shrinkingHost threeStrings (.array ⟨0⟩)
    (.function ⟨.plain, 0⟩) none
  obtain ⟨hresult, -, -, hitems⟩ := (hfilter hspares).2 (hlength.trans hthree.symm) hok
  exact ⟨hspares, hlength, hok, hresult, hitems⟩

end Method

end CollectionLoops
