import CollectionLoops.Proofs.EndlessText
import CollectionLoops.Proofs.Interchange
import CollectionLoops.Proofs.Unwrapping

/-!
Callbacks that are no functions. A method looks at its callback only when it calls it, after its
prologue, and after `legacy` has read the first element. Main statement: with such a callback, a method
succeeds exactly if it has no iteration to make, as it then does with every callback; else it fails with
the first of three faults, and changes no container in any case. The last of these faults quotes the
callback, and is never received if the text of the callback has no end.
-/
namespace CollectionLoops

variable {σ : Type}

/-- The frame of a call with another callback. -/
def Frame.withCallback (f : Frame) (callback : Value) : Frame := { f with callback }

namespace Method

variable {m : Method}

/-- How many iterations a method makes, if none of them ends it. -/
def iterations (m : Method) (length : UInt64) (second : Option Value) : Nat :=
  match m with
  | .reduce | .reduceRight => foldLength length second
  | _ => length.toNat

theorem iterations_eq_zero_iff {n : UInt64} {second : Option Value} :
    m.iterations n second = 0 ↔ n = 0 ∨ m ∈ [.reduce, .reduceRight] ∧ n = 1 ∧ second = none := by
  have hzero : n.toNat = 0 ↔ n = 0 := by rw [← UInt64.toNat_inj, UInt64.toNat_zero]
  have hone : n.toNat = 1 ↔ n = 1 := by rw [← UInt64.toNat_inj, UInt64.toNat_one]
  have hfold : foldLength n second = 0 ↔ n = 0 ∨ n = 1 ∧ second = none := by
    rw [foldLength, ← hzero, ← hone]
    cases second with
    | none =>
      simp
      omega
    | some v => simp
  unfold iterations
  cases m <;> simp [hzero, hfold]

section Prologue

variable {receiver callback : Value} {second : Option Value} {s s' : Store} {g : Frame}

/-- The prologue of a method takes no notice of the callback. -/
theorem prologue_withCallback (m : Method) (receiver callback callback' : Value)
    (second : Option Value) (s : Store) :
    (m.callLoop.prologue (.start receiver callback' second)).run.run s =
      (((m.callLoop.prologue (.start receiver callback second)).run.run s).1.map
        (·.withCallback callback'),
        ((m.callLoop.prologue (.start receiver callback second)).run.run s).2) := by
  cases m with
  | map =>
    have hlength : (Frame.start receiver callback' second).length s =
      (Frame.start receiver callback second).length s := rfl
    show (preallocate _).run.run s =
      (((preallocate _).run.run s).1.map _, ((preallocate _).run.run s).2)
    rw [run_preallocate, run_preallocate, hlength]
    split <;> rfl
  | reduce =>
    show (seedFirst _).run.run s = (((seedFirst _).run.run s).1.map _, ((seedFirst _).run.run s).2)
    rw [run_seedFirst, run_seedFirst]
    rfl
  | reduceRight =>
    show (seedLast _).run.run s = (((seedLast _).run.run s).1.map _, ((seedLast _).run.run s).2)
    obtain ⟨start, hstart⟩ := exists_run_seedLast receiver second s
    rw [hstart callback, hstart callback']
    rfl
  | _ => rfl

/-- What the iterations of a method depend on is as it was when the method was called. -/
theorem of_prologue_eq_ok
    (hrun : (m.callLoop.prologue (.start receiver callback second)).run.run s = (.ok g, s')) :
    g.seeded = second.isSome ∧ s'.length receiver = s.length receiver ∧ (m = .legacy → s' = s) := by
  cases m with
  | map =>
    have hprologue := run_preallocate (.start receiver callback second) s
    split at hprologue
    · cases hrun.symm.trans hprologue
    · cases hrun.symm.trans hprologue
      exact ⟨rfl, (s.agree_newArray_replicate receiver .undefined).length_eq.symm, nofun⟩
  | filter =>
    cases hrun.symm.trans (run_startEmpty (.start receiver callback second) s)
    exact ⟨rfl, (Store.agree_newArray #[] fun _ => rfl).length_eq.symm, nofun⟩
  | reduce =>
    cases hrun.symm.trans (run_seedFirst receiver callback second s)
    exact ⟨rfl, rfl, nofun⟩
  | reduceRight =>
    obtain ⟨start, hstart⟩ := exists_run_seedLast receiver second s
    cases hrun.symm.trans (hstart callback)
    exact ⟨rfl, rfl, nofun⟩
  | _ =>
    cases hrun
    exact ⟨rfl, rfl, fun _ => rfl⟩

theorem enter_withCallback (m : Method) (s : Store) (f : Frame) (callback : Value) :
    m.callLoop.enter s (f.withCallback callback) = (m.callLoop.enter s f).withCallback callback := by
  rcases m.kinds with hm | hm | rfl
  · rw [enter_callLoop (List.mem_cons_of_mem _ hm), enter_callLoop (List.mem_cons_of_mem _ hm)]
    rfl
  · rw [enter_fold hm, enter_fold hm]
    rfl
  · rw [enter_callLoop (by decide), enter_callLoop (by decide)]
    rfl

theorem count_enter_eq_iterations (hreceiver : g.receiver = receiver)
    (hseeded : g.seeded = second.isSome) :
    (m.callLoop.enter s g).count.toNat = m.iterations (s.length receiver) second := by
  have hlength (hm : m ∈ .legacy :: visitors) :
      m.iterations (s.length receiver) second = (s.length receiver).toNat := by
    cases m <;> first | rfl | exact absurd hm (by decide)
  rcases m.kinds with hm | hm | rfl
  · rw [hlength (List.mem_cons_of_mem _ hm), enter_callLoop (List.mem_cons_of_mem _ hm), hreceiver]
  · have hcount : foldCount.step s g = .ofNat (foldLength (s.length receiver) second) := by
      rw [← foldCount_folding s receiver .undefined second .undefined]
      simp only [foldCount, Frame.length, hreceiver, hseeded]
      rfl
    rw [enter_fold hm, hcount, toNat_ofNat_foldLength]
    rcases hm with rfl | rfl <;> rfl
  · rw [hlength (by decide), enter_callLoop (by decide), hreceiver]

end Prologue

theorem leave_withCallback (f : Frame) (callback : Value) (w : World σ) :
    m.callLoop.leave (.ok (.next (f.withCallback callback))) w =
      m.callLoop.leave (.ok (.next f)) w := by
  cases m <;> rfl

theorem exists_leave_eq_ok (f : Frame) (w : World σ) :
    ∃ v, m.callLoop.leave (.ok (.next f)) w = (.ok v, w) := by
  cases m <;> exact ⟨_, rfl⟩

/-- A method has its arguments ready, but for `legacy` at an element that cannot be unwrapped. -/
theorem args_cases (m : Method) (s : Store) (f : Frame) (i : UInt64) :
    (m = .legacy ∧ (s.element f.receiver i).isNullish = true ∧
      m.step.args s f i = .error (.unreadable (s.element f.receiver i) nodeKey)) ∨
    (¬ (m = .legacy ∧ (s.element f.receiver i).isNullish = true) ∧
      ∃ args, m.step.args s f i = .ok args) := by
  cases hargs : m.step.args s f i with
  | error e =>
    obtain ⟨hm, hnullish, rfl⟩ := eq_legacy_of_args_eq_error hargs
    exact .inl ⟨hm, hnullish, rfl⟩
  | ok args =>
    refine .inr ⟨?_, args, rfl⟩
    rintro ⟨rfl, hnullish⟩
    rw [(args_legacy_eq hargs).1] at hnullish
    cases hnullish

/-- The first iteration with a callback that is no function fails, and it is seen only after the
arguments. -/
theorem of_runs_of_not_function {h : Host σ} {left : Nat} {i : UInt64} {f : Frame} {w w' : World σ}
    {calls : List (HostCall σ)} {o : Except Fault Flow}
    (run : m.step.Runs h (left + 1) i f w calls o w') (hcallback : ∀ r, f.callback ≠ .function r) :
    calls = [] ∧ w' = w ∧ o = .error
      (if m = .legacy ∧ (w.store.element f.receiver i).isNullish = true then
        .unreadable (w.store.element f.receiver i) nodeKey
      else .notCallable w.store f.callback) := by
  rcases args_cases m w.store f i with ⟨hm, hnullish, hargs⟩ | ⟨hreadable, args, hargs⟩
  · obtain ⟨hcalls, ho, hw⟩ := run.of_args_eq_error hargs
    rw [if_pos ⟨hm, hnullish⟩]
    exact ⟨hcalls, hw, ho⟩
  · obtain ⟨hcalls, ho, hw⟩ := run.of_not_function hargs hcallback
    rw [if_neg hreadable]
    exact ⟨hcalls, hw, ho⟩

section Call

variable (m : Method) (h : Host σ) (w : World σ) (receiver : Value) (second : Option Value)

/-- The call of a method with any callback: its prologue refuses the receiver, or its iterations begin
in one and the same world. -/
theorem runs_of_callback :
    (m = .map ∧ maxArrayLength < w.store.length receiver ∧ ∀ callback,
      m.calls h receiver callback second w = [] ∧
      (m.call h receiver callback second).runOn w = (.error .invalidLength, w)) ∨
    (¬ (m = .map ∧ maxArrayLength < w.store.length receiver) ∧ ∃ (f : Frame) (w₁ : World σ),
      f.receiver = receiver ∧ (m = .legacy → w₁.store = w.store) ∧
      (∀ v, w.store.Contains v → w.store.Agree w₁.store v) ∧
      ∀ callback, ∃ o w',
        m.step.Runs h (m.iterations (w.store.length receiver) second) 0 (f.withCallback callback) w₁
          (m.calls h receiver callback second w) o w' ∧
        m.callLoop.leave o w' = (m.call h receiver callback second).runOn w) := by
  have hprologue (callback : Value) :=
    m.prologue_withCallback receiver .undefined callback second w.store
  have hcall (callback : Value) := m.runs_call h receiver callback second w
  rcases prologue_cases m receiver .undefined second w.store with
    ⟨hm, hlong, hrefused⟩ | ⟨g, s, hrun, hreceiver, -, hapart⟩
  · rw [hrefused] at hprologue
    refine .inl ⟨hm, hlong, fun callback => ?_⟩
    obtain ⟨hcalls, ho, hw⟩ := (hcall callback).of_error (hprologue callback)
    exact ⟨hcalls, Prod.ext ho hw⟩
  · rw [hrun] at hprologue
    obtain ⟨hseeded, hlength, hlegacy⟩ := of_prologue_eq_ok hrun
    refine .inr ⟨?_, m.callLoop.enter s g, m.callLoop.entered s g w, ?_, hlegacy,
      fun v hv => (hapart v hv).1, fun callback => ?_⟩
    · rintro ⟨rfl, hlong⟩
      cases hrun.symm.trans ((run_preallocate _ w.store).trans (if_pos hlong))
    · rw [CallLoop.receiver_enter, hreceiver]
    · obtain ⟨o, w', hruns, hleave⟩ := (hcall callback).of_ok (hprologue callback)
      have hentered : m.callLoop.entered s (g.withCallback callback) w =
          m.callLoop.entered s g w := by
        rw [CallLoop.entered, CallLoop.entered, enter_withCallback]
        rfl
      have hcount : ((m.callLoop.enter s g).withCallback callback).count.toNat =
          m.iterations (w.store.length receiver) second := by
        rw [← hlength]
        exact count_enter_eq_iterations hreceiver hseeded
      rw [hentered, enter_withCallback, hcount] at hruns
      exact ⟨o, w', hruns, hleave⟩

variable {m w receiver second}

/-- Without iterations a method does the same with every callback. -/
theorem exists_call_eq_of_iterations_eq_zero
    (hzero : m.iterations (w.store.length receiver) second = 0) :
    ∃ v w', (∀ u, w.store.Contains u → w.store.Agree w'.store u) ∧
      ∀ callback, m.calls h receiver callback second w = [] ∧
        (m.call h receiver callback second).runOn w = (.ok v, w') := by
  rcases m.runs_of_callback h w receiver second with
    ⟨rfl, hlong, -⟩ | ⟨-, f, w₁, -, -, hagree, hruns⟩
  · rw [UInt64.toNat_inj.1 (hzero.trans UInt64.toNat_zero.symm)] at hlong
    exact absurd hlong (by decide)
  · obtain ⟨v, hv⟩ := exists_leave_eq_ok (m := m) f w₁
    refine ⟨v, w₁, hagree, fun callback => ?_⟩
    obtain ⟨o, w', hrun, hleave⟩ := hruns callback
    rw [hzero] at hrun
    obtain ⟨hcalls, rfl, rfl⟩ := (CallStep.Runs.finished 0 (f.withCallback callback) w₁).unique hrun
    rw [← hleave, leave_withCallback, hv]
    exact ⟨hcalls, rfl⟩

/-- With an iteration to make, a method fails at what is no function, if not before. -/
theorem exists_call_eq_error_of_not_function {c : Value} (hc : ∀ r, c ≠ .function r)
    (hiterations : m.iterations (w.store.length receiver) second ≠ 0) :
    ∃ w', (∀ u, w.store.Contains u → w.store.Agree w'.store u) ∧
      m.calls h receiver c second w = [] ∧
      (m.call h receiver c second).runOn w = (.error
        (if m = .map ∧ maxArrayLength < w.store.length receiver then .invalidLength
        else if m = .legacy ∧ (w.store.element receiver 0).isNullish = true then
          .unreadable (w.store.element receiver 0) nodeKey
        else .notCallable w'.store c), w') := by
  rcases m.runs_of_callback h w receiver second with
    ⟨hm, hlong, hrefused⟩ | ⟨hshort, f, w₁, hreceiver, hlegacy, hagree, hruns⟩
  · refine ⟨w, fun u _ => .refl w.store u, (hrefused c).1, ?_⟩
    rw [(hrefused c).2, if_pos ⟨hm, hlong⟩]
  · obtain ⟨o, w', hrun, hleave⟩ := hruns c
    obtain ⟨left, hleft⟩ := Nat.exists_eq_succ_of_ne_zero hiterations
    rw [hleft] at hrun
    obtain ⟨hcalls, hw, rfl⟩ := of_runs_of_not_function hrun hc
    have hreceiver : (f.withCallback c).receiver = receiver := hreceiver
    rw [hreceiver, hw] at hleave
    refine ⟨w₁, hagree, hcalls, hleave.symm.trans ?_⟩
    rw [if_neg hshort]
    by_cases hm : m = .legacy
    · -- the prologue of `legacy` writes nothing
      rw [hlegacy hm]
      rfl
    · have hnot (p : Prop) : ¬ (m = .legacy ∧ p) := fun h => hm h.1
      rw [if_neg (hnot _), if_neg (hnot _)]
      rfl

end Call

/-- A callback that is no function makes a method fail only when it is called for the first time. The
method makes no call and changes no container. It succeeds exactly if it has no iteration to make: for a
receiver without elements, and a fold without a seed also for one with a single element; what it does is
then the same with every callback. Else `map` first refuses a receiver that is too long, `legacy` cannot
unwrap a first element that is undefined or null, and the callback is not a function. The message of
that last fault quotes the callback; one that leads to a container inside itself has no text, and the
method is then writing the message forever. -/
theorem call_of_not_function (m : Method) (h : Host σ) (w : World σ) (receiver c : Value)
    (second : Option Value) (hc : ∀ r, c ≠ .function r) :
    let n := w.store.length receiver
    let element := w.store.element receiver 0
    let idle := n = 0 ∨ m ∈ [.reduce, .reduceRight] ∧ n = 1 ∧ second = none
    let ending := (m.call h receiver c second).runOn w
    let quoted := ending.2.store.quotedText? c
    m.calls h receiver c second w = [] ∧
    ((∃ v, ending.1 = .ok v) ↔ idle) ∧
    (idle → ∀ callback, (m.call h receiver callback second).runOn w = ending) ∧
    (¬ idle → ending.1 = .error
      (if m = .map ∧ maxArrayLength < n then
        .rangeError "Invalid array length" "loop_methods::catalog::preallocate"
      else if m = .legacy ∧ element.isNullish = true then
        .typeError (Option.some ("Cannot read properties of " ++
          (if element = .null then "null" else "undefined") ++ " (reading '" ++ nodeKey ++ "')"))
          "loop_methods::value::Value::get"
      else .typeError (quoted.map fun t => t ++ " is not a function")
        "loop_methods::value::Value::call")) ∧
    (quoted = none ↔ ending.2.store.LeadsToCycle c) ∧
    ∀ v, w.store.Contains v → w.store.Agree ending.2.store v := by
  intro n element idle ending
  have hidle : m.iterations n second = 0 ↔ idle := iterations_eq_zero_iff
  by_cases hzero : m.iterations n second = 0
  · obtain ⟨v, w', hagree, hcall⟩ := exists_call_eq_of_iterations_eq_zero h hzero
    have hending : ending = (.ok v, w') := (hcall c).2
    rw [hending]
    exact ⟨(hcall c).1, iff_of_true ⟨v, rfl⟩ (hidle.1 hzero), fun _ callback => (hcall callback).2,
      fun hbusy => absurd (hidle.1 hzero) hbusy, Store.quotedText?_eq_none_iff, hagree⟩
  · obtain ⟨w', hagree, hcalls, hcall⟩ := exists_call_eq_error_of_not_function h hc hzero
    have hbusy : ¬ idle := mt hidle.2 hzero
    have hending : ending = _ := hcall
    rw [hending]
    refine ⟨hcalls, iff_of_false nofun hbusy, fun h => absurd h hbusy, fun _ => ?_,
      Store.quotedText?_eq_none_iff, hagree⟩
    by_cases hunreadable : m = .legacy ∧ element.isNullish = true
    · rw [if_pos hunreadable, if_pos hunreadable, Fault.unreadable_of_isNullish hunreadable.2]
      rfl
    · rw [if_neg hunreadable, if_neg hunreadable]
      rfl

end Method

/-- An array of one string. -/
def oneString : World Unit := ⟨⟨#[#[.string "a"]], #[]⟩, #[], ()⟩

/-- One element is a fold without a call, but not with a seed. -/
theorem Method.call_of_not_function_oneString :
    (∀ r, Value.null ≠ .function r) ∧
      (∃ v, ((reduce.call echoHost (.array ⟨0⟩) .null none).runOn oneString).1 = .ok v) ∧
      ((reduce.call echoHost (.array ⟨0⟩) .null (Option.some .null)).runOn oneString).1 =
        .error (.typeError (Option.some "null is not a function")
          "loop_methods::value::Value::call") := by
  have hnull (r : FunctionRef) : Value.null ≠ .function r := nofun
  have hlength : oneString.store.length (.array ⟨0⟩) = 1 := by decide +kernel
  obtain ⟨-, hsucceeds, -⟩ :=
    call_of_not_function .reduce echoHost oneString (.array ⟨0⟩) .null none hnull
  obtain ⟨-, -, -, hfails, -⟩ :=
    call_of_not_function .reduce echoHost oneString (.array ⟨0⟩) .null (Option.some .null) hnull
  refine ⟨hnull, hsucceeds.2 (.inr ⟨by decide, hlength, rfl⟩), (hfails ?_).trans ?_⟩
  · rw [hlength]
    decide
  · rw [if_neg nofun, if_neg nofun, Store.quotedText?_of_not_isContainer _ rfl]
    rfl

end CollectionLoops
