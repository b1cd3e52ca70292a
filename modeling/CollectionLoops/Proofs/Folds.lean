import CollectionLoops.Proofs.Schedule

/-!
What the folds do with the elements of a receiver. The indices are settled when a fold is entered,
and from then on it is the fold of one step over the list of them. Main statements: `reduce` folds
over the indices in ascending order and `reduceRight` in descending order, whatever the calls do to
the receiver.
-/
namespace CollectionLoops

variable {σ : Type}

/-- The accumulator after the step of a fold at an index: the callback, which is not bound, gets the
accumulator, the element that the receiver has there now, the index and the receiver. -/
def Host.foldStep (h : Host σ) (callback receiver acc : Value) (i : UInt64) : Run σ Value := do
  h.call callback none [acc, (← Run.store).element receiver i, .number i.toFloat, receiver]

theorem Host.runOn_foldStep (h : Host σ) (callback receiver acc : Value) (i : UInt64)
    (w : World σ) :
    (h.foldStep callback receiver acc i).runOn w =
      (h.call callback none [acc, w.store.element receiver i, .number i.toFloat, receiver]).runOn w := rfl

/-- The accumulator after some calls: each result takes its place. -/
def accumulated (start : Value) (calls : List (HostCall σ)) : Value :=
  calls.foldl (fun acc x => x.outcome.toOption.getD acc) start

theorem accumulated_cons {x : HostCall σ} {v : Value} (hx : x.outcome = .ok v) (start : Value)
    (calls : List (HostCall σ)) : accumulated start (x :: calls) = accumulated v calls := by
  rw [accumulated, List.foldl_cons, hx]
  rfl

/-- The calls of a fold over a list of indices, from a world on, and how it ends. The fold ends with
the first call that fails, or else with the last accumulator once there was a call for each index. -/
structure FoldsOver (h : Host σ) (r : FunctionRef) (receiver : Value) (indices : List UInt64)
    (start : Value) (w : World σ) (calls : List (HostCall σ))
    (ending : Except Fault Value × World σ) : Prop where
  call : ∀ k x, calls[k]? = some x → ∃ i, indices[k]? = some i ∧
    x = h.callOf r none
      [accumulated start (calls.take k), (w.leftBy (calls.take k)).store.element receiver i,
        .number i.toFloat, receiver] (w.leftBy (calls.take k))
  failed : ∀ k x e, calls[k]? = some x → x.outcome = .error e →
    calls.length = k + 1 ∧ ending = (.error e, x.after)
  finished : (∀ x ∈ calls, ∃ v, x.outcome = .ok v) →
    calls.length = indices.length ∧ ending = (.ok (accumulated start calls), w.leftBy calls)

namespace FoldsOver

variable {h : Host σ} {r : FunctionRef} {receiver start : Value} {i : UInt64}
  {indices : List UInt64} {w : World σ} {x : HostCall σ} {calls : List (HostCall σ)}
  {ending : Except Fault Value × World σ}

theorem nil : FoldsOver h r receiver [] start w [] (.ok start, w) where
  call k x hk := by simp at hk
  failed k x e hk := by simp at hk
  finished _ := ⟨rfl, rfl⟩

theorem of_error {e : Fault}
    (hx : x = h.callOf r none [start, w.store.element receiver i, .number i.toFloat, receiver] w)
    (hout : x.outcome = .error e) :
    FoldsOver h r receiver (i :: indices) start w [x] (.error e, x.after) where
  call k y hk := by
    cases k with
    | zero =>
      cases hk
      exact ⟨i, rfl, hx⟩
    | succ k => simp at hk
  failed k y e' hk hy := by
    cases k with
    | zero =>
      cases hk
      rw [hout] at hy
      cases hy
      exact ⟨rfl, rfl⟩
    | succ k => simp at hk
  finished hok := by
    obtain ⟨v, hv⟩ := hok x (List.mem_singleton_self x)
    rw [hout] at hv
    cases hv

theorem cons {v : Value}
    (hx : x = h.callOf r none [start, w.store.element receiver i, .number i.toFloat, receiver] w)
    (hout : x.outcome = .ok v) (rest : FoldsOver h r receiver indices v x.after calls ending) :
    FoldsOver h r receiver (i :: indices) start w (x :: calls) ending where
  call k y hk := by
    cases k with
    | zero =>
      cases hk
      exact ⟨i, rfl, hx⟩
    | succ k =>
      obtain ⟨j, hj, hy⟩ := rest.call k y hk
      refine ⟨j, hj, ?_⟩
      rw [List.take_succ_cons, accumulated_cons hout, World.leftBy_cons]
      exact hy
  failed k y e hk hy := by
    cases k with
    | zero =>
      cases hk
      rw [hout] at hy
      cases hy
    | succ k =>
      obtain ⟨hlength, hend⟩ := rest.failed k y e hk hy
      exact ⟨by rw [List.length_cons, hlength], hend⟩
  finished hok := by
    obtain ⟨hlength, hend⟩ := rest.finished fun y hy => hok y (List.mem_cons_of_mem x hy)
    refine ⟨by rw [List.length_cons, hlength, List.length_cons], ?_⟩
    rw [hend, accumulated_cons hout, World.leftBy_cons]

end FoldsOver

/-- A recording host finds the calls of a fold. -/
theorem exists_foldsOver (h : Host σ) (r : FunctionRef) (receiver : Value) (indices : List UInt64)
    (start : Value) (w : World σ) :
    ∃ calls o w', FoldsOver h r receiver indices start w calls (o, w') ∧
      (indices.foldlM (h.foldStep (.function r) receiver) start).runOn w = (o, w') ∧
      ∀ l, (indices.foldlM (h.recording.foldStep (.function r) receiver) start).runOn
        (w.withCalls l) = (o, w'.withCalls (l ++ calls)) := by
  induction indices generalizing start w with
  | nil => exact ⟨[], .ok start, w, .nil, rfl, fun l => by rw [List.append_nil]; rfl⟩
  | cons i indices ih =>
    obtain ⟨x, hx⟩ : ∃ x, x = h.callOf r none
      [start, w.store.element receiver i, .number i.toFloat, receiver] w := ⟨_, rfl⟩
    have hstep : (h.foldStep (.function r) receiver start i).runOn w = (x.outcome, x.after) := by
      rw [Host.runOn_foldStep, Host.runOn_call_function, ← hx]
    have hrecorded (l) : (h.recording.foldStep (.function r) receiver start i).runOn
        (w.withCalls l) = (x.outcome, x.after.withCalls (l ++ [x])) := by
      rw [Host.runOn_foldStep, World.store_withCalls, Host.runOn_recording_call_function, ← hx]
    simp only [List.foldlM_cons, Run.runOn_bind, hstep, hrecorded]
    cases hout : x.outcome with
    | error e => exact ⟨[x], .error e, x.after, .of_error hx hout, rfl, fun l => rfl⟩
    | ok v =>
      -- the rest of the fold starts from the result, in the world that the call left
      obtain ⟨calls, o, w', hfolds, hrun, hrest⟩ := ih v x.after
      refine ⟨x :: calls, o, w', .cons hx hout hfolds, hrun, fun l => ?_⟩
      refine (hrest _).trans ?_
      rw [List.append_assoc]
      rfl

namespace CallStep

variable {index : Frame → UInt64 → UInt64}

theorem runOn_body_fold (h : Host σ) (f : Frame) (i : UInt64) (w : World σ) :
    ((fold index).body h f i).runOn w =
      match (h.foldStep f.callback f.receiver f.that (index f i)).runOn w with
      | (.ok v, w') => (.ok (.next { f with that := v }), w')
      | (.error e, w') => (.error e, w') := by
  rw [runOn_body_of_args rfl, Host.runOn_foldStep]
  rfl

/-- The iterations of a fold are the fold over the indices that they compute. -/
theorem runOn_iterate_fold (hindex : ∀ f v i, index { f with that := v } i = index f i)
    (h : Host σ) (left : Nat) (i : UInt64) (f : Frame) (w : World σ) :
    (Loop.iterate (fold index).body h left i f).runOn w =
      match (((List.range left).map fun k => index f (i + .ofNat k)).foldlM
        (h.foldStep f.callback f.receiver) f.that).runOn w with
      | (.ok v, w') => (.ok (.next { f with that := v }), w')
      | (.error e, w') => (.error e, w') := by
  induction left generalizing i f w with
  | zero => rfl
  | succ left ih =>
    have hfirst : i + .ofNat 0 = i := UInt64.add_zero i
    have hrest : (fun k => index f (i + .ofNat k)) ∘ Nat.succ =
        fun k => index f (i + 1 + .ofNat k) := by
      funext k
      rw [index_succ]
      rfl
    rw [runOn_iterate_succ, runOn_body_fold, List.range_succ_eq_map, List.map_cons, List.map_map,
      List.foldlM_cons, Run.runOn_bind, hfirst, hrest]
    rcases (h.foldStep f.callback f.receiver f.that (index f i)).runOn w with ⟨e | v, w'⟩
    · rfl
    · -- the frame goes on with another accumulator, which the indices do not depend on
      simp only [ih, hindex]

end CallStep

/-- The frame of a fold once its prologue has settled the first accumulator. -/
def Frame.folding (receiver callback : Value) (seed : Option Value) (start : Value)
    (count : UInt64) : Frame :=
  { Frame.start receiver callback seed with that := start, count }

/-- A loop that folds, by its choice of the first accumulator and of the indices. -/
def CallLoop.fold (name source : String) (prologue : StorePrologue) (index : Frame → UInt64 → UInt64) :
    CallLoop where
  name
  source
  bindsCallback := false
  prologue
  count := Method.foldCount.step
  step := .fold index
  epilogue := Method.returnThat.step

theorem one_le_of_ne_zero {n : UInt64} (h : n ≠ 0) : 1 ≤ n := by
  rw [UInt64.le_iff_toNat_le, UInt64.toNat_one]
  exact Nat.pos_of_ne_zero fun hn => h (UInt64.toNat_inj.1 hn)

/-- How many elements a fold calls the callback for. -/
def foldLength (length : UInt64) (seed : Option Value) : Nat :=
  length.toNat - if seed.isSome then 0 else 1

theorem toNat_ofNat_foldLength (length : UInt64) (seed : Option Value) :
    (UInt64.ofNat (foldLength length seed)).toNat = foldLength length seed :=
  UInt64.toNat_ofNat_of_lt (Nat.lt_of_le_of_lt (Nat.sub_le _ _) length.toNat_lt)

namespace Method

theorem foldCount_folding (s : Store) (receiver callback : Value) (seed : Option Value)
    (start : Value) :
    foldCount.step s (.folding receiver callback seed start 0) =
      .ofNat (foldLength (s.length receiver) seed) := by
  rw [← UInt64.toNat_inj, toNat_ofNat_foldLength, foldLength]
  change (if seed.isSome then s.length receiver else
    if s.length receiver = 0 then 0 else s.length receiver - 1).toNat = _
  cases seed with
  | some v => rfl
  | none =>
    by_cases hzero : s.length receiver = 0
    · simp [hzero]
    · simp [hzero, UInt64.toNat_sub_of_le _ _ (one_le_of_ne_zero hzero)]

/-- A call of a loop that folds is the fold over the indices that it computes, once it is logged. -/
theorem runOn_call_fold (name source : String) {prologue : StorePrologue}
    {index : Frame → UInt64 → UInt64} (hindex : ∀ f v i, index { f with that := v } i = index f i)
    (h : Host σ) {receiver callback : Value} {seed : Option Value} {w : World σ} {start : Value}
    (hprologue : (prologue (.start receiver callback seed)).run.run w.store =
      (.ok (.folding receiver callback seed start 0), w.store)) :
    let c := foldLength (w.store.length receiver) seed
    ((CallLoop.fold name source prologue index).toLoop.call h receiver callback seed).runOn w =
      (((List.range c).map fun k =>
        index (.folding receiver callback seed start (.ofNat c)) (.ofNat k)).foldlM
          (h.foldStep callback receiver) start).runOn
        { w with log := w.log.push (.iterations name (.ofNat c) false) } := by
  intro c
  let l := CallLoop.fold name source prologue index
  let f := Frame.folding receiver callback seed start (.ofNat c)
  have hloop : l.prologue = prologue := rfl
  have hstep : l.step = .fold index := rfl
  have henter : l.enter w.store (.folding receiver callback seed start 0) = f := by
    change { f with count := foldCount.step w.store (.folding receiver callback seed start 0) } = f
    rw [foldCount_folding]
    rfl
  have hcount : f.count.toNat = c := toNat_ofNat_foldLength _ _
  have hentered : l.entered w.store (.folding receiver callback seed start 0) w =
      { w with log := w.log.push (.iterations name (.ofNat c) false) } := by
    rw [CallLoop.entered, henter]
    rfl
  have hleave (ending : Except Fault Value × World σ) :
      (let (o, w') := match ending with
        | (.ok v, w') => (.ok (.next { f with that := v }), w')
        | (.error e, w') => (.error e, w')
      l.leave o w') = ending := by
    rcases ending with ⟨e | v, w'⟩ <;> rfl
  rw [CallLoop.runOn_call, hloop, hprologue]
  dsimp only
  rw [henter, hentered, hstep, hcount, CallStep.runOn_iterate_fold hindex]
  simp only [UInt64.zero_add]
  exact hleave _

/-- The calls of a method that is a loop that folds, in terms of the indices that it computes. -/
theorem foldsOver_of_callLoop {m : Method} {source : String} {prologue : StorePrologue}
    {index : Frame → UInt64 → UInt64}
    (hm : m.callLoop = CallLoop.fold m.name source prologue index)
    (hindex : ∀ f v i, index { f with that := v } i = index f i)
    (h : Host σ) {receiver : Value} (r : FunctionRef) {seed : Option Value} {w : World σ}
    {start : Value}
    (hprologue : (prologue (.start receiver (.function r) seed)).run.run w.store =
      (.ok (.folding receiver (.function r) seed start 0), w.store)) :
    let c := foldLength (w.store.length receiver) seed
    let indices := (List.range c).map fun k =>
      index (.folding receiver (.function r) seed start (.ofNat c)) (.ofNat k)
    let entered := { w with log := w.log.push (.iterations m.name (.ofNat c) false) }
    let ending := (m.call h receiver (.function r) seed).runOn w
    ending = (indices.foldlM (h.foldStep (.function r) receiver) start).runOn entered ∧
      FoldsOver h r receiver indices start entered (m.calls h receiver (.function r) seed w)
        ending := by
  intro c indices entered ending
  have hplain := runOn_call_fold m.name source hindex h hprologue
  have hrecording :=
    runOn_call_fold m.name source hindex h.recording (w := w.withCalls []) hprologue
  rw [← hm, ← loop_eq] at hplain hrecording
  obtain ⟨calls, o, w', hfolds, hrun, hrecorded⟩ :=
    exists_foldsOver h r receiver indices start entered
  have hending : ending = (o, w') := hplain.trans hrun
  have hcalls : m.calls h receiver (.function r) seed w = calls := by
    have hrec := hrecording.trans (hrecorded [])
    rw [Method.calls, Method.call, hrec]
    rfl
  rw [hcalls, hending]
  exact ⟨hrun.symm, hfolds⟩

theorem callLoop_reduce : reduce.callLoop = CallLoop.fold "reduce" reduce.callLoop.source seedFirst
    fun f i => if f.seeded then i else i + 1 := by
  -- the flag stands for a comparison of texts, which is not to be evaluated here
  have hbinds := bindsCallback_callLoop .reduce
  calc reduce.callLoop
      = { reduce.callLoop with bindsCallback := reduce.callLoop.bindsCallback } := rfl
    _ = _ := by rw [hbinds]; rfl

theorem callLoop_reduceRight : reduceRight.callLoop =
    CallLoop.fold "reduceRight" reduceRight.callLoop.source seedLast
      fun f i => f.count - i - 1 := by
  have hbinds := bindsCallback_callLoop .reduceRight
  calc reduceRight.callLoop
      = { reduceRight.callLoop with bindsCallback := reduceRight.callLoop.bindsCallback } := rfl
    _ = _ := by rw [hbinds]; rfl

theorem run_seedFirst (receiver callback : Value) (seed : Option Value) (s : Store) :
    (seedFirst (.start receiver callback seed)).run.run s =
      (.ok (.folding receiver callback seed (seed.getD (s.element receiver 0)) 0), s) := by
  cases seed <;> rfl

theorem run_seedLast_none (receiver callback : Value) (s : Store) :
    (seedLast (.start receiver callback none)).run.run s = (ExceptT.run (m := StateM Store)
      (if s.length receiver = 0 then pure (Frame.start receiver callback none)
      else do return { Frame.start receiver callback none with
        that := (← get).element receiver (s.length receiver - 1) })).run s := by
  have hrun : (seedLast (.start receiver callback none)).run.run s = (ExceptT.run (m := StateM Store)
      (if (false || s.length receiver == 0) = true then pure (Frame.start receiver callback none)
      else do return { Frame.start receiver callback none with
        that := (← get).element receiver (s.length receiver - 1) })).run s := rfl
  simp only [hrun, Bool.false_or, beq_iff_eq]

theorem run_seedLast (receiver callback : Value) (seed : Option Value) (s : Store)
    (hseed : seed = none → s.length receiver ≠ 0) :
    (seedLast (.start receiver callback seed)).run.run s =
      (.ok (.folding receiver callback seed
        (seed.getD (s.element receiver (.ofNat ((s.length receiver).toNat - 1)))) 0), s) := by
  cases seed with
  | some v => rfl
  | none =>
    have hne : s.length receiver ≠ 0 := hseed rfl
    have hpos : 1 ≤ (s.length receiver).toNat :=
      Nat.pos_of_ne_zero fun hn => hne (UInt64.toNat_inj.1 hn)
    rw [run_seedLast_none, if_neg hne, UInt64.ofNat_sub hpos, UInt64.ofNat_toNat, UInt64.ofNat_one]
    rfl

theorem map_ofNat_range' (first n : Nat) :
    (List.range' first n).map UInt64.ofNat =
      (List.range n).map fun k => UInt64.ofNat first + .ofNat k := by
  rw [List.range'_eq_map_range, List.map_map]
  exact List.map_congr_left fun k _ => UInt64.ofNat_add first k

/-- Counting down from a number of iterations. -/
theorem ofNat_sub_sub_one {n k : Nat} (hk : k < n) :
    UInt64.ofNat n - .ofNat k - 1 = .ofNat (n - k - 1) := by
  rw [UInt64.ofNat_sub (Nat.sub_pos_of_lt hk), UInt64.ofNat_sub (Nat.le_of_lt hk), UInt64.ofNat_one]

theorem map_ofNat_reverse_range (n : Nat) :
    (List.range n).reverse.map UInt64.ofNat =
      (List.range n).map fun k => UInt64.ofNat n - .ofNat k - 1 := by
  rw [List.range_eq_range', List.reverse_range', ← List.range_eq_range', List.map_map]
  refine List.map_congr_left fun k hk => ?_
  have hlt : k < n := List.mem_range.1 hk
  have hindex : 0 + n - 1 - k = n - k - 1 := by omega
  rw [Function.comp_apply, hindex, ofNat_sub_sub_one hlt]

/-- `reduce` is the left fold over the indices below the length that the receiver has when it is
called. It starts from the seed with the first of them, or without one from the first element with
the second. -/
theorem reduce_foldsOver_ascending (h : Host σ) (w : World σ) (receiver : Value) (r : FunctionRef)
    (seed : Option Value) :
    let n := (w.store.length receiver).toNat
    let first := if seed.isSome then 0 else 1
    let indices := (List.range' first (n - first)).map UInt64.ofNat
    let start := seed.getD (w.store.element receiver 0)
    let entered := { w with log := w.log.push (.iterations "reduce" (.ofNat (n - first)) false) }
    let ending := (reduce.call h receiver (.function r) seed).runOn w
    ending = (indices.foldlM (h.foldStep (.function r) receiver) start).runOn entered ∧
      FoldsOver h r receiver indices start entered
        (reduce.calls h receiver (.function r) seed w) ending := by
  intro n first indices start entered ending
  have hfolds := foldsOver_of_callLoop callLoop_reduce (fun _ _ _ => rfl) h r
    (run_seedFirst receiver (.function r) seed w.store)
  have hindices : indices = (List.range (n - first)).map fun k =>
      if seed.isSome then UInt64.ofNat k else .ofNat k + 1 := by
    refine (map_ofNat_range' first (n - first)).trans (List.map_congr_left fun k _ => ?_)
    cases hseed : seed.isSome with
    | true => simp [first, hseed]
    | false => simp [first, hseed, UInt64.add_comm]
  rw [hindices]
  exact hfolds

/-- `reduceRight` is the right fold over the indices below the length that the receiver has when it
is called. It starts from the seed with the last of them, or without one from the last element with
the one before. -/
theorem reduceRight_foldsOver_descending (h : Host σ) (w : World σ) (receiver : Value)
    (r : FunctionRef) (seed : Option Value) (hseed : seed = none → w.store.length receiver ≠ 0) :
    let n := (w.store.length receiver).toNat
    let last := if seed.isSome then n else n - 1
    let indices := (List.range last).reverse.map UInt64.ofNat
    let start := seed.getD (w.store.element receiver (.ofNat (n - 1)))
    let entered := { w with log := w.log.push (.iterations "reduceRight" (.ofNat last) false) }
    let ending := (reduceRight.call h receiver (.function r) seed).runOn w
    ending = (indices.foldlM (h.foldStep (.function r) receiver) start).runOn entered ∧
      FoldsOver h r receiver indices start entered
        (reduceRight.calls h receiver (.function r) seed w) ending := by
  intro n last indices start entered ending
  have hfolds := foldsOver_of_callLoop callLoop_reduceRight (fun _ _ _ => rfl) h r
    (run_seedLast receiver (.function r) seed w.store hseed)
  have hlength : foldLength (w.store.length receiver) seed = last := by
    cases seed <;> rfl
  have hindices : indices = (List.range last).map fun k => UInt64.ofNat last - .ofNat k - 1 :=
    map_ofNat_reverse_range last
  rw [hlength] at hfolds
  rw [hindices]
  exact hfolds

/-- An array that loses an item with every call is still folded over all the indices that it had. -/
theorem reduceRight_foldsOver_descending_shrinking :
    threeStrings.store.length (.array ⟨0⟩) ≠ 0 ∧
      (reduceRight.calls shrinkingHost (.array ⟨0⟩) (.function ⟨.method, 0⟩) none
        threeStrings).length = 2 := by
  have hlength : threeStrings.store.length (.array ⟨0⟩) ≠ 0 := by decide +kernel
  have hfolds := (reduceRight_foldsOver_descending shrinkingHost threeStrings (.array ⟨0⟩)
    ⟨.method, 0⟩ none fun _ => hlength).2
  refine ⟨hlength, (hfolds.finished fun x hx => ?_).1.trans (by decide +kernel)⟩
  obtain ⟨k, hk⟩ := List.mem_iff_getElem?.1 hx
  obtain ⟨i, -, hcall⟩ := hfolds.call k x hk
  rw [hcall]
  exact ⟨_, rfl⟩

/-- A fold over no index gives its first accumulator, whatever the callback is. -/
theorem call_of_length_eq_zero {m : Method} {source : String} {prologue : StorePrologue}
    {index : Frame → UInt64 → UInt64}
    (hm : m.callLoop = CallLoop.fold m.name source prologue index)
    (hindex : ∀ f v i, index { f with that := v } i = index f i)
    (h : Host σ) {receiver callback : Value} {w : World σ} {start : Value}
    (hlength : w.store.length receiver = 0)
    (hprologue : (prologue (.start receiver callback none)).run.run w.store =
      (.ok (.folding receiver callback none start 0), w.store)) :
    m.calls h receiver callback none w = [] ∧
      ((m.call h receiver callback none).runOn w).1 = .ok start := by
  have hnone : foldLength (w.store.length receiver) none = 0 := by rw [hlength]; rfl
  have hplain := runOn_call_fold m.name source hindex h hprologue
  have hrecording :=
    runOn_call_fold m.name source hindex h.recording (w := w.withCalls []) hprologue
  rw [← hm, ← loop_eq] at hplain hrecording
  rw [World.store_withCalls] at hrecording
  simp only [hnone, List.range_zero, List.map_nil, List.foldlM_nil] at hplain hrecording
  constructor
  · rw [Method.calls, Method.call, hrecording]
    rfl
  · rw [Method.call, hplain]
    rfl

theorem run_seedLast_of_length_eq_zero {receiver : Value} (callback : Value) {s : Store}
    (hlength : s.length receiver = 0) :
    (seedLast (.start receiver callback none)).run.run s =
      (.ok (.folding receiver callback none .undefined 0), s) := by
  rw [run_seedLast_none, if_pos hlength]
  rfl

/-- The prologue of `reduceRight` settles the first accumulator, and takes no notice of the callback. -/
theorem exists_run_seedLast (receiver : Value) (seed : Option Value) (s : Store) :
    ∃ start, ∀ callback, (seedLast (.start receiver callback seed)).run.run s =
      (.ok (.folding receiver callback seed start 0), s) := by
  by_cases hseed : seed = none → s.length receiver ≠ 0
  · exact ⟨_, fun callback => run_seedLast receiver callback seed s hseed⟩
  · obtain ⟨rfl, hzero⟩ := Classical.not_imp.1 hseed
    exact ⟨_, fun callback => run_seedLast_of_length_eq_zero callback (Classical.not_not.1 hzero)⟩

/-- Without a seed, neither fold calls its callback for a receiver of length zero. `reduceRight`
gives undefined, and `reduce` what the receiver has at index zero; so it gives undefined as well
exactly if there is nothing, which only for an object may be otherwise. -/
theorem folds_of_length_eq_zero (h : Host σ) (w : World σ) (receiver callback : Value)
    (hlength : w.store.length receiver = 0) :
    let left := ((reduce.call h receiver callback none).runOn w).1
    let right := ((reduceRight.call h receiver callback none).runOn w).1
    reduce.calls h receiver callback none w = [] ∧
      reduceRight.calls h receiver callback none w = [] ∧
      right = .ok .undefined ∧ left = .ok (w.store.element receiver 0) ∧
      (left = .ok .undefined ↔ w.store.element receiver 0 = .undefined) ∧
      ((∀ o, receiver ≠ .object o) → left = .ok .undefined) := by
  intro left right
  obtain ⟨hcalls, hleft⟩ := call_of_length_eq_zero callLoop_reduce (fun _ _ _ => rfl) h hlength
    (run_seedFirst receiver callback none w.store)
  obtain ⟨hcalls', hright⟩ := call_of_length_eq_zero callLoop_reduceRight (fun _ _ _ => rfl) h
    hlength (run_seedLast_of_length_eq_zero callback hlength)
  refine ⟨hcalls, hcalls', hright, hleft, ?_, fun hobject => ?_⟩
  · rw [show left = .ok (w.store.element receiver 0) from hleft, Except.ok.injEq]
  · refine hleft.trans (congrArg Except.ok ?_)
    exact w.store.element_of_length_eq_zero hlength hobject 0

/-- An object whose length is half an element, and which has one at index zero. -/
def halfElement : World Unit :=
  ⟨⟨#[], #[.ofList [("length", .number 0.5), ("0", .string "a")]]⟩, #[], ()⟩

/-- Half an element is none, and still `reduce` gives it. -/
theorem folds_of_length_eq_zero_half :
    halfElement.store.length (.object ⟨0⟩) = 0 ∧
      ((reduceRight.call shrinkingHost (.object ⟨0⟩) .null none).runOn halfElement).1 =
        .ok .undefined ∧
      ((reduce.call shrinkingHost (.object ⟨0⟩) .null none).runOn halfElement).1 =
        .ok (.string "a") := by
  have hlength : halfElement.store.length (.object ⟨0⟩) = 0 := by decide +kernel
  obtain ⟨-, -, hright, hleft, -⟩ :=
    folds_of_length_eq_zero shrinkingHost halfElement (.object ⟨0⟩) .null hlength
  have helement : halfElement.store.element (.object ⟨0⟩) 0 = .string "a" := by decide +kernel
  exact ⟨hlength, hright, hleft.trans (congrArg Except.ok helement)⟩

/-- An object without a length that has a property at index zero. -/
def strayElement : World Unit := ⟨⟨#[], #[.ofList [("0", .string "a")]]⟩, #[], ()⟩

/-- An object with no length at all is empty, but `reduce` gives its property zero where
`reduceRight` gives undefined. -/
theorem reduce_ne_reduceRight_of_stray_element :
    strayElement.store.length (.object ⟨0⟩) = 0 ∧
      ((reduce.call shrinkingHost (.object ⟨0⟩) (.function ⟨.plain, 0⟩) none).runOn
        strayElement).1 = .ok (.string "a") ∧
      ((reduceRight.call shrinkingHost (.object ⟨0⟩) (.function ⟨.plain, 0⟩) none).runOn
        strayElement).1 = .ok .undefined := by
  have hlength : strayElement.store.length (.object ⟨0⟩) = 0 := by decide +kernel
  have hleft := call_of_length_eq_zero callLoop_reduce (fun _ _ _ => rfl) shrinkingHost hlength
    (run_seedFirst (.object ⟨0⟩) (.function ⟨.plain, 0⟩) none strayElement.store)
  have hright := call_of_length_eq_zero callLoop_reduceRight (fun _ _ _ => rfl) shrinkingHost
    hlength (run_seedLast_of_length_eq_zero (.function ⟨.plain, 0⟩) hlength)
  have helement : strayElement.store.element (.object ⟨0⟩) 0 = .string "a" := by decide +kernel
  exact ⟨hlength, hleft.2.trans (congrArg Except.ok helement), hright.2⟩

end Method

end CollectionLoops
