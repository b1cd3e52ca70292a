import CollectionLoops.Proofs.Schedule

/-!
The array that `map` makes. It has its size before the first call, each call puts its result in the
slot of its own index, and nothing else is written to it. Main statement: if the calls leave that
array alone, it holds at the end their results and no other.
-/
namespace CollectionLoops

variable {σ : Type}

/-- Whether a call left an array as it found it. -/
def HostCall.Keeps (c : HostCall σ) (r : ArrayRef) : Prop :=
  c.after.store.items r = c.before.store.items r

/-- A write past the end of an array, which an array that is not there has everywhere, is lost. -/
theorem Store.items_setItem (s : Store) (r : ArrayRef) (i : Nat) (v : Value) :
    (s.setItem r i v).items r = (s.items r).setIfInBounds i v := by
  by_cases h : r.index < s.arrays.size
  · exact items_updateArray_self s _ h
  · have hsize := Nat.le_of_not_lt h
    rw [items_eq_empty hsize, items_eq_empty (by simpa [setItem, updateArray] using hsize)]
    rfl

/-- What calls from an index on make of an array: each result is in the slot of its call, and what
stood before the index still does. -/
structure Filled (i : Nat) (calls : List (HostCall σ)) (before after : Array Value) : Prop where
  size : after.size = before.size
  earlier : ∀ j < i, after[j]? = before[j]?
  results : ∀ k x v, calls[k]? = some x → x.outcome = .ok v → after[i + k]? = some v

namespace Filled

variable {i : Nat} {calls : List (HostCall σ)} {x : HostCall σ} {before after : Array Value}

theorem nil : Filled (σ := σ) i [] before before where
  size := rfl
  earlier _ _ := rfl
  results k x v hk := by simp at hk

theorem failed {e : Fault} (hx : x.outcome = .error e) : Filled i [x] before before where
  size := rfl
  earlier _ _ := rfl
  results k y v hk hy := by
    obtain rfl : y = x := by
      cases k with
      | zero => exact (Option.some.inj hk).symm
      | succ k => simp at hk
    rw [hx] at hy
    cases hy

theorem cons {v : Value} (hi : i < before.size) (hx : x.outcome = .ok v)
    (rest : Filled (i + 1) calls (before.setIfInBounds i v) after) :
    Filled i (x :: calls) before after where
  size := by rw [rest.size, Array.size_setIfInBounds]
  earlier j hj := by
    rw [rest.earlier j (Nat.lt_succ_of_lt hj)]
    exact Array.getElem?_setIfInBounds_ne (Nat.ne_of_gt hj)
  results k y u hk hy := by
    cases k with
    | zero =>
      cases hk
      rw [hx] at hy
      cases hy
      rw [Nat.add_zero, rest.earlier i (Nat.lt_succ_self i)]
      exact Array.getElem?_setIfInBounds_self_of_lt hi
    | succ k =>
      have := rest.results k y u hk hy
      rwa [Nat.add_assoc, Nat.add_comm 1] at this

end Filled

namespace Method

section Runs

variable {h : Host σ} {left : Nat} {i : UInt64} {f : Frame} {w w' : World σ}
  {calls : List (HostCall σ)} {o : Except Fault Flow}

/-- A run that leaves the array alone between its own writes fills it from the index on, and finds the
slot of each call there. -/
theorem filled_of_runs (out : ArrayRef) (run : map.step.Runs h left i f w calls o w')
    (hout : f.out = .array out) (hkeeps : ∀ x ∈ calls, x.Keeps out)
    (hsize : i.toNat + left = (w.store.items out).size)
    (hfits : (w.store.items out).size < UInt64.size) :
    Filled i.toNat calls (w.store.items out) (w'.store.items out) ∧
      ∀ x ∈ calls, (x.after.store.items out).size = (w.store.items out).size := by
  induction run with
  | finished | unready | uncallable => exact ⟨.nil, fun x hx => absurd hx List.not_mem_nil⟩
  | @failed _ _ _ w _ _ x _ _ _ hx hfail =>
    have hx : x.after.store.items out = w.store.items out :=
      (hkeeps x (List.mem_singleton_self x)).trans (by rw [hx]; rfl)
    rw [hx]
    refine ⟨.failed hfail, fun y hy => ?_⟩
    rw [List.mem_singleton.1 hy, hx]
  | stopped _ _ _ _ hflow => cases hflow
  | @continued left i f w args _ x v _ calls _ _ _ _ hx hok hflow _ ih =>
    cases hflow
    have hx : x.after.store.items out = w.store.items out :=
      (hkeeps x List.mem_cons_self).trans (by rw [hx]; rfl)
    have hi : i.toNat < (w.store.items out).size := by omega
    have hnext : (i + 1).toNat = i.toNat + 1 := by
      rw [UInt64.toNat_add, UInt64.toNat_one]
      exact Nat.mod_eq_of_lt (Nat.lt_of_le_of_lt hi hfits)
    have hplaced : ((x.after.update (map.step.edit f i args v)).store.items out) =
        (w.store.items out).setIfInBounds i.toNat v := by
      rw [← hx, ← Store.items_setItem]
      simp only [World.store_update, step, CallStep.visit, place, hout]
    obtain ⟨hrest, hslots⟩ := ih hout (fun y hy => hkeeps y (List.mem_cons_of_mem x hy))
      (by rw [hplaced, Array.size_setIfInBounds, hnext]; omega)
      (by rw [hplaced, Array.size_setIfInBounds]; exact hfits)
    rw [hplaced, hnext] at hrest
    rw [hplaced, Array.size_setIfInBounds] at hslots
    refine ⟨.cons hi hok hrest, fun y hy => ?_⟩
    rcases List.mem_cons.1 hy with rfl | hy
    · rw [hx]
    · exact hslots y hy

/-- If no call failed and none is missing, the run came to its end. -/
theorem eq_next_of_runs (run : map.step.Runs h left i f w calls o w')
    (hlength : calls.length = left) (hok : ∀ x ∈ calls, ∃ v, x.outcome = .ok v) :
    o = .ok (.next f) :=
  run.eq_next (fun _ _ => rfl) hlength hok

end Runs

/-- A receiver that is too long is refused before any call. Otherwise, as long as the calls leave the
array of `map` alone, every call finds its slot there; and if there is a call for each element and none
fails, `map` gives this array, which is none of the containers there were, with exactly their
results. -/
theorem call_map_eq_results (h : Host σ) (w : World σ) (receiver callback : Value)
    (context : Option Value) :
    let calls := map.calls h receiver callback context w
    let ending := (map.call h receiver callback context).runOn w
    let n := w.store.length receiver
    let out : ArrayRef := ⟨w.store.arrays.size⟩
    (maxArrayLength < n → calls = [] ∧ ending = (.error (.rangeError "Invalid array length"
      "loop_methods::catalog::preallocate"), w)) ∧
    (n ≤ maxArrayLength → (∀ x ∈ calls, x.Keeps out) →
      (∀ (k : Nat) (x : HostCall σ), calls[k]? = Option.some x →
        k < (x.after.store.items out).size) ∧
      (calls.length = n.toNat → (∀ x ∈ calls, ∃ v, x.outcome = .ok v) →
        ending.1 = .ok (.array out) ∧
        (∀ v, w.store.Contains v → v ≠ .array out) ∧
        (ending.2.store.items out).size = n.toNat ∧
        ∀ (k : Nat) (x : HostCall σ) (v : Value), calls[k]? = Option.some x → x.outcome = .ok v →
          (ending.2.store.items out)[k]? = Option.some v)) := by
  intro calls ending n out
  have hcall := map.runs_call h receiver callback context w
  have hprologue := run_preallocate (.start receiver callback context) w.store
  refine ⟨fun hlong => ?_, fun hshort hkeeps => ?_⟩
  · obtain ⟨hcalls, ho, hw⟩ := hcall.of_error (hprologue.trans (if_pos hlong))
    exact ⟨hcalls, Prod.ext ho hw⟩
  · obtain ⟨o, w', hruns, hleave⟩ :=
      hcall.of_ok (hprologue.trans (if_neg (UInt64.not_lt.2 hshort)))
    rw [enter_callLoop (by decide)] at hruns
    -- the count is a second reading of the length, now with the new array in the store
    change map.step.Runs h ((w.store.newArray (Array.replicate n.toNat .undefined)).2.length
      receiver).toNat 0 _ _ calls o w' at hruns
    rw [← (w.store.agree_newArray_replicate receiver .undefined).length_eq] at hruns
    have hitems : (w.store.newArray (Array.replicate n.toNat .undefined)).2.items out =
        Array.replicate n.toNat .undefined := (w.store.items_newArray _ _).trans (if_pos rfl)
    have hsize : ((w.store.newArray (Array.replicate n.toNat .undefined)).2.items out).size =
        n.toNat := by rw [hitems, Array.size_replicate]
    obtain ⟨hfilled, hslots⟩ := filled_of_runs out hruns rfl hkeeps
      ((Nat.zero_add _).trans hsize.symm) (Nat.lt_of_le_of_lt (Nat.le_of_eq hsize) n.toNat_lt)
    refine ⟨fun k x hk => ?_, fun hlength hok => ?_⟩
    · have hslot : (x.after.store.items out).size = n.toNat :=
        (hslots x (List.mem_of_getElem? hk)).trans hsize
      have hk : k < calls.length := (List.getElem?_eq_some_iff.1 hk).1
      have hle : calls.length ≤ n.toNat := length_le_of_runs hruns
      omega
    · rw [eq_next_of_runs hruns hlength hok] at hleave
      have hending : (.ok (.array out), w') = ending := hleave
      rw [← hending]
      refine ⟨rfl, ?_, hfilled.size.trans hsize, fun k x v hk hx => ?_⟩
      · rintro _ hv rfl
        exact Nat.lt_irrefl _ hv
      · have := hfilled.results k x v hk hx
        rwa [UInt64.toNat_zero, Nat.zero_add] at this

/-- The results of calls that empty the receiver, one item each, are all there. -/
theorem call_map_eq_results_shrinking :
    let calls := map.calls shrinkingHost (.array ⟨0⟩) (.function ⟨.plain, 0⟩) none threeStrings
    threeStrings.store.length (.array ⟨0⟩) ≤ maxArrayLength ∧ (∀ x ∈ calls, x.Keeps ⟨1⟩) ∧
      calls.length = 3 ∧
      ((map.call shrinkingHost (.array ⟨0⟩) (.function ⟨.plain, 0⟩) none).runOn
        threeStrings).1 = .ok (.array ⟨1⟩) := by
  intro calls
  have hshort : threeStrings.store.length (.array ⟨0⟩) ≤ maxArrayLength := by decide +kernel
  have hthree : (threeStrings.store.length (.array ⟨0⟩)).toNat = 3 := by decide +kernel
  have hcall (x) (hx : x ∈ calls) : x.Keeps ⟨1⟩ ∧ ∃ v, x.outcome = .ok v := by
    obtain ⟨⟨kind, i⟩, b, args, hx⟩ := map.exists_eq_callOf _ _ _ _ _ hx
    rw [hx]
    have hne : (⟨1⟩ : ArrayRef) ≠ ⟨0⟩ := by decide
    have hkeeps := x.before.store.items_updateArray_of_ne (·.pop) hne
    cases kind <;> exact ⟨hkeeps, _, rfl⟩
  have hlength : calls.length = 3 := by
    refine (length_calls_of_not_ends _ _ (by decide) _ _ _ (fun _ => hshort) fun x hx hends => ?_).trans
      hthree
    obtain ⟨-, v, hv⟩ := hcall x hx
    rw [hv] at hends
    exact absurd hends.1 (by decide)
  have hkeeps := fun x hx => (hcall x hx).1
  obtain ⟨-, hmap⟩ := call_map_eq_results shrinkingHost threeStrings (.array ⟨0⟩)
    (.function ⟨.plain, 0⟩) none
  obtain ⟨hresult, -⟩ := (hmap hshort hkeeps).2 (hlength.trans hthree.symm)
    fun x hx => (hcall x hx).2
  exact ⟨hshort, hkeeps, hlength, hresult⟩

end Method

end CollectionLoops
