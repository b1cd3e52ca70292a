import CollectionLoops.Proofs.Interchange
import CollectionLoops.Proofs.LogIndependence

/-!
The two folds are mirror images of each other. The indices of the one, counted down from the number of
iterations, are those of the other, counted up from the first one or the second. Main statement:
`reduceRight` over an array and `reduce` over the reversed one fold the same elements in the same order,
with the same effects and the same end.
-/
namespace CollectionLoops

variable {σ : Type}

/-- Whether what a callback does depends on nothing but its first two arguments. -/
structure Host.DependsOnPair (h : Host σ) (callback : Value) : Prop where
  rest : ∀ acc element index receiver index' receiver',
    h.call callback none [acc, element, index, receiver] =
      h.call callback none [acc, element, index', receiver']
  log : ∀ args, (h.call callback none args).IgnoresLog

namespace Store

/-- Whether two collections have the same elements in opposite orders. -/
structure Reversed (s : Store) (n : Nat) (v v' : Value) : Prop where
  length : s.length v = .ofNat n
  length' : s.length v' = .ofNat n
  element : ∀ i j, i + j + 1 = n → s.element v (.ofNat i) = s.element v' (.ofNat j)

theorem Reversed.of_agree {s s' : Store} {n : Nat} {v v' : Value} (h : s.Reversed n v v')
    (hv : s.Agree s' v) (hv' : s.Agree s' v') : s'.Reversed n v v' where
  length := by rw [← hv.length_eq, h.length]
  length' := by rw [← hv'.length_eq, h.length']
  element i j hij := by rw [← hv.element_eq, ← hv'.element_eq, h.element i j hij]

theorem reversed_of_items {s : Store} {vs : List Value} {a b : ArrayRef}
    (hlength : vs.length < UInt64.size) (ha : s.items a = vs.toArray)
    (hb : s.items b = vs.reverse.toArray) : s.Reversed vs.length (.array a) (.array b) := by
  have hclamp : UInt64.ofNatClamp vs.length = .ofNat vs.length := by
    rw [← UInt64.toNat_inj, UInt64.toNat_ofNatClamp_of_lt hlength, UInt64.toNat_ofNat_of_lt' hlength]
  constructor
  · rw [length, ha, List.size_toArray, hclamp]
  · rw [length, hb, List.size_toArray, List.length_reverse, hclamp]
  · intro i j hij
    have hi : i < vs.length := by omega
    have hj : j < vs.length := by omega
    have hmirror : vs.length - 1 - j = i := by omega
    rw [element, element, ha, hb, List.getElem?_toArray, List.getElem?_toArray,
      UInt64.toNat_ofNat_of_lt' (hi.trans hlength), UInt64.toNat_ofNat_of_lt' (hj.trans hlength),
      List.getElem?_reverse hj, hmirror]

end Store

namespace Method

/-- Whether two calls are the same of two folds that go through reversed collections in opposite
directions. -/
structure Mirrored (n : Nat) (v v' : Value) (x x' : HostCall σ) : Prop where
  callee : x'.callee = x.callee
  binding : x'.binding = x.binding
  args : ∃ acc element i j, i + j + 1 = n ∧ x.args = [acc, element, .number (UInt64.ofNat i).toFloat, v] ∧
    x'.args = [acc, element, .number (UInt64.ofNat j).toFloat, v']
  outcome : x'.outcome = x.outcome
  before : x'.before.store = x.before.store ∧ x'.before.host = x.before.host
  after : x'.after.store = x.after.store ∧ x'.after.host = x.after.host

theorem Mirrored.loggedAfter {n : Nat} {v v' : Value} {x x' : HostCall σ}
    (h : Mirrored n v v' x x') (earlier earlier' : Array LogRecord) :
    Mirrored n v v' (x.loggedAfter earlier) (x'.loggedAfter earlier') where
  callee := h.callee
  binding := h.binding
  args := h.args
  outcome := h.outcome
  before := h.before
  after := h.after

/-- Two frames of folds that go on alike, with their own receivers. -/
structure Facing (v v' : Value) (f f' : Frame) : Prop where
  receiver : f.receiver = v
  receiver' : f'.receiver = v'
  callback : f'.callback = f.callback
  that : f'.that = f.that

/-- Whether the iterations of two folds end with one fault or one accumulator. -/
inductive SameEnd : Except Fault Flow → Except Fault Flow → Prop
  | failed (e : Fault) : SameEnd (.error e) (.error e)
  | finished {f f' : Frame} (hthat : f'.that = f.that) : SameEnd (.ok (.next f)) (.ok (.next f'))

/-- The accumulator takes no part in the choice of the index. -/
def Steady (index : Frame → UInt64 → UInt64) : Prop := ∀ f v i, index { f with that := v } i = index f i

section Runs

variable {h : Host σ} {n left : Nat} {i : UInt64} {v v' : Value} {f f' : Frame}
  {index index' : Frame → UInt64 → UInt64} {w w₁ w₁' : World σ} {calls calls' : List (HostCall σ)}
  {o o' : Except Fault Flow}

/-- An iteration at the mirrored index makes a mirrored call. -/
theorem exists_mirrored (run' : (CallStep.fold index').Runs h (left + 1) i f' w calls' o' w₁')
    (hf : Facing v v' f f') (hreversed : w.store.Reversed n v v')
    (hpair : h.DependsOnPair f.callback) {j k : Nat} (hjk : j + k + 1 = n)
    (hj : index f i = .ofNat j) (hk : index' f' i = .ofNat k) {args : List Value} {r : FunctionRef}
    {x : HostCall σ} (hargs : (CallStep.fold index).args w.store f i = .ok args)
    (hcallback : f.callback = .function r) (hx : x = h.callOf r none args w) :
    ∃ x' rest, calls' = x' :: rest ∧ Mirrored n v v' x x' ∧ x'.before = w ∧ x'.after = x.after ∧
      match x.outcome with
      | .error e => rest = [] ∧ o' = .error e ∧ w₁' = x.after
      | .ok u => (CallStep.fold index').Runs h left (i + 1) { f' with that := u } x.after rest o' w₁' := by
  have hcallback' : f'.callback = .function r := hf.callback.trans hcallback
  have hsame : w.store.element v' (.ofNat k) = w.store.element v (.ofNat j) :=
    (hreversed.element j k hjk).symm
  have hargs' : (CallStep.fold index').args w.store f' i =
      .ok [f.that, w.store.element v (.ofNat j), .number (UInt64.ofNat k).toFloat, v'] := by
    simp only [CallStep.fold, Frame.element, hf.that, hf.receiver', hk, hsame]
  simp only [CallStep.fold, Frame.element, hf.receiver, hj, Except.ok.injEq] at hargs
  rw [← hargs] at hx
  rw [hcallback] at hpair
  have hcall := hpair.rest f.that (w.store.element v (.ofNat j)) (.number (UInt64.ofNat k).toFloat) v'
    (.number (UInt64.ofNat j).toFloat) v
  obtain ⟨x', hx'⟩ : ∃ x', x' = h.callOf r none
    [f.that, w.store.element v (.ofNat j), .number (UInt64.ofNat k).toFloat, v'] w := ⟨_, rfl⟩
  have hmirrored : Mirrored n v v' x x' := by
    rw [hx, hx']
    refine ⟨rfl, rfl, ⟨_, _, j, k, hjk, rfl, rfl⟩, ?_, ⟨rfl, rfl⟩, ?_⟩
    all_goals simp only [Host.callOf, hcall, and_self]
  have hafter : x'.after = x.after := by
    rw [hx, hx']
    simp only [Host.callOf, hcall]
  obtain ⟨rest, hcalls, hrest⟩ := run'.of_callOf hargs' hcallback' hx'
  refine ⟨x', rest, hcalls, hmirrored, by rw [hx']; rfl, hafter, ?_⟩
  rw [hmirrored.outcome, hafter] at hrest
  exact hrest

/-- The iterations of two folds that meet the same elements at mirrored indices, one by one. -/
theorem runs_mirrored (run : (CallStep.fold index).Runs h left i f w calls o w₁)
    (run' : (CallStep.fold index').Runs h left i f' w calls' o' w₁') (hindex : Steady index)
    (hindex' : Steady index') (hf : Facing v v' f f') (hreversed : w.store.Reversed n v v')
    (hpair : h.DependsOnPair f.callback)
    (hindices : ∀ l < left, ∃ j k, j + k + 1 = n ∧ index f (i + .ofNat l) = .ofNat j ∧
      index' f' (i + .ofNat l) = .ofNat k)
    (hkeeps : ∀ x ∈ calls, x.before.store.Agree x.after.store v)
    (hkeeps' : ∀ x ∈ calls', x.before.store.Agree x.after.store v') :
    List.Forall₂ (Mirrored n v v') calls calls' ∧ SameEnd o o' ∧ w₁' = w₁ := by
  have hfirst {left : Nat} {i : UInt64} {f f' : Frame} (hindices : ∀ l < left + 1, ∃ j k,
      j + k + 1 = n ∧ index f (i + .ofNat l) = .ofNat j ∧ index' f' (i + .ofNat l) = .ofNat k) :
      ∃ j k, j + k + 1 = n ∧ index f i = .ofNat j ∧ index' f' i = .ofNat k := by
    have hzero : i + .ofNat 0 = i := UInt64.add_zero i
    have h := hindices 0 (Nat.succ_pos left)
    rwa [hzero] at h
  -- on the first run; between two iterations both are in one world, where the receivers are reversed
  induction run generalizing f' calls' o' w₁' with
  | finished =>
    cases run'
    exact ⟨.nil, .finished hf.that, rfl⟩
  | unready hargs => cases hargs
  | uncallable hargs hcallback =>
    obtain ⟨rfl, rfl, rfl⟩ := run'.of_not_function rfl (by rwa [hf.callback])
    rw [hf.callback]
    exact ⟨.nil, .failed _, rfl⟩
  | failed hargs hcallback hx hout =>
    obtain ⟨j, k, hjk, hj, hk⟩ := hfirst hindices
    obtain ⟨x', rest, rfl, hmirrored, -, -, hrest⟩ :=
      exists_mirrored run' hf hreversed hpair hjk hj hk hargs hcallback hx
    rw [hout] at hrest
    obtain ⟨rfl, rfl, rfl⟩ := hrest
    exact ⟨.cons hmirrored .nil, .failed _, rfl⟩
  | stopped _ _ _ _ hflow => cases hflow
  | @continued left i f w args r x u g calls o w₁ hargs hcallback hx hout hflow _ ih =>
    obtain ⟨j, k, hjk, hj, hk⟩ := hfirst hindices
    obtain ⟨x', rest, rfl, hmirrored, hbefore', hafter, hrest⟩ :=
      exists_mirrored run' hf hreversed hpair hjk hj hk hargs hcallback hx
    rw [hout] at hrest
    cases hflow
    have hbefore : x.before = w := by
      rw [hx]
      rfl
    have hkept := hkeeps x List.mem_cons_self
    have hkept' := hkeeps' x' List.mem_cons_self
    rw [hbefore] at hkept
    rw [hbefore', hafter] at hkept'
    obtain ⟨hcalls, hend, hworld⟩ := ih hrest ⟨hf.receiver, hf.receiver', hf.callback, rfl⟩
      (hreversed.of_agree hkept hkept') hpair
      (fun l hl => by
        rw [CallStep.index_succ, hindex, hindex']
        exact hindices (l + 1) (Nat.succ_lt_succ hl))
      (fun y hy => hkeeps y (List.mem_cons_of_mem x hy))
      fun y hy => hkeeps' y (List.mem_cons_of_mem x' hy)
    exact ⟨.cons hmirrored hcalls, hend, hworld⟩

end Runs

section Call

variable {m : Method} {h : Host σ} {w : World σ} {receiver callback : Value} {seed : Option Value}
  {start : Value}

/-- The log before the first iteration of a fold. -/
def logFolding (m : Method) (w : World σ) (count : Nat) : Array LogRecord :=
  w.log.push (.iterations m.name (.ofNat count) false)

/-- The iterations of a fold whose prologue has settled the first accumulator, after an empty log. -/
theorem runs_of_fold (hm : m = .reduce ∨ m = .reduceRight)
    (hprologue : (m.callLoop.prologue (.start receiver callback seed)).run.run w.store =
      (.ok (.folding receiver callback seed start 0), w.store))
    (hlog : ∀ args, (h.call callback none args).IgnoresLog) :
    let count := foldLength (w.store.length receiver) seed
    ∃ calls o w', m.step.Runs h count 0 (.folding receiver callback seed start (.ofNat count))
        ⟨w.store, #[], w.host⟩ calls o w' ∧
      m.calls h receiver callback seed w = calls.map (·.loggedAfter (m.logFolding w count)) ∧
      (m.call h receiver callback seed).runOn w =
        ((m.callLoop.leave o w').1, (m.callLoop.leave o w').2.loggedAfter (m.logFolding w count)) := by
  intro count
  have henter : m.callLoop.enter w.store (.folding receiver callback seed start 0) =
      .folding receiver callback seed start (.ofNat count) := by
    rw [enter_fold hm, foldCount_folding]
    rfl
  have hcount : (Frame.folding receiver callback seed start (.ofNat count)).count.toNat = count :=
    toNat_ofNat_foldLength _ _
  obtain ⟨o, w', hruns, hleave⟩ := (m.runs_call h receiver callback seed w).of_ok hprologue
  rw [CallLoop.entered_eq_loggedAfter, henter, hcount] at hruns
  have hunbound (g : Frame) : m.step.binding g = none := by
    rcases hm with rfl | rfl <;> rfl
  obtain ⟨calls, w₀, hrun, hcalls, rfl⟩ := exists_runs_of_loggedAfter hruns fun g args => by
    rw [hunbound]
    exact hlog args
  rw [CallLoop.leave_loggedAfter] at hleave
  exact ⟨calls, o, w₀, hrun, hcalls, hleave.symm⟩

/-- For an array, the first accumulator is the seed or the last element, of which an empty array has
none. -/
theorem run_seedLast_array (a : ArrayRef) (callback : Value) (seed : Option Value) (s : Store) :
    (seedLast (.start (.array a) callback seed)).run.run s =
      (.ok (.folding (.array a) callback seed
        (seed.getD (s.element (.array a) (.ofNat ((s.length (.array a)).toNat - 1)))) 0), s) := by
  by_cases hseed : seed = none → s.length (.array a) ≠ 0
  · exact run_seedLast (.array a) callback seed s hseed
  · obtain ⟨rfl, hzero⟩ := Classical.not_imp.1 hseed
    have hzero := Classical.not_not.1 hzero
    rw [run_seedLast_of_length_eq_zero callback hzero, Option.getD_none,
      s.element_of_length_eq_zero hzero nofun]

theorem steady_reduce : Steady fun f i => if f.seeded then i else i + 1 := fun _ _ _ => rfl

theorem steady_reduceRight : Steady fun f i => f.count - i - 1 := fun _ _ _ => rfl

/-- With a seed the indices go from 0 up to n - 1 and from n - 1 down to 0, and without one from 1 up
to n - 1 and from n - 2 down to 0. -/
theorem exists_mirrored_indices {n l : Nat} {seed : Option Value}
    (hl : l < n - if seed.isSome then 0 else 1) :
    ∃ j k, j + k + 1 = n ∧
      UInt64.ofNat (n - if seed.isSome then 0 else 1) - .ofNat l - 1 = .ofNat j ∧
      (if seed.isSome then UInt64.ofNat l else .ofNat l + 1) = .ofNat k := by
  rw [ofNat_sub_sub_one hl]
  cases seed with
  | some v =>
    refine ⟨_, l, ?_, rfl, rfl⟩
    simp only [Option.isSome_some, if_true] at hl ⊢
    omega
  | none =>
    refine ⟨_, l + 1, ?_, rfl, (UInt64.ofNat_add l 1).symm⟩
    simp only [Option.isSome_none, Bool.false_eq_true, if_false] at hl ⊢
    omega

/-- The first accumulator is the same for both ends. -/
theorem start_eq_of_reversed {s : Store} {n : Nat} (hn : n < UInt64.size) {a b : ArrayRef}
    (h : s.Reversed n (.array a) (.array b)) (seed : Option Value) :
    seed.getD (s.element (.array a) (.ofNat ((s.length (.array a)).toNat - 1))) =
      seed.getD (s.element (.array b) 0) := by
  congr 1
  rw [h.length, UInt64.toNat_ofNat_of_lt' hn]
  cases n with
  | zero =>
    rw [s.element_of_length_eq_zero h.length nofun, s.element_of_length_eq_zero h.length' nofun]
  | succ n => exact h.element n 0 rfl

theorem leave_of_sameEnd {o o' : Except Fault Flow} (h : SameEnd o o') (w w' : World σ) :
    (reduce.callLoop.leave o' w').1 = (reduceRight.callLoop.leave o w).1 := by
  cases h with
  | failed e => rfl
  | finished hthat => exact congrArg Except.ok hthat

end Call

/-- `reduceRight` over an array and `reduce` over an array of the same values in the opposite order, from
one store, make the same calls in the same order, if the callback depends on nothing but its first two
arguments and leaves the two arrays alone: each call of the one has the accumulator and the element of
that of the other, and their indices add up to the last one. The two folds end with the same value or
fault, and leave the same store. No array has more values than its length of 64 bits can tell. -/
theorem call_reduceRight_mirrors_reduce (h : Host σ) (w : World σ) (vs : List Value)
    (a b : ArrayRef) (callback : Value) (seed : Option Value) (hlength : vs.length < UInt64.size)
    (ha : w.store.items a = vs.toArray) (hb : w.store.items b = vs.reverse.toArray)
    (hpair : h.DependsOnPair callback)
    (hkeeps : ∀ x ∈ reduceRight.calls h (.array a) callback seed w,
      x.before.store.Agree x.after.store (.array a))
    (hkeeps' : ∀ x ∈ reduce.calls h (.array b) callback seed w,
      x.before.store.Agree x.after.store (.array b)) :
    let right := (reduceRight.call h (.array a) callback seed).runOn w
    let left := (reduce.call h (.array b) callback seed).runOn w
    List.Forall₂ (Mirrored vs.length (.array a) (.array b))
      (reduceRight.calls h (.array a) callback seed w) (reduce.calls h (.array b) callback seed w) ∧
    left.1 = right.1 ∧ left.2.store = right.2.store ∧ left.2.host = right.2.host := by
  intro right left
  have hreversed := Store.reversed_of_items hlength ha hb
  have hcount {v : Value} (hv : w.store.length v = .ofNat vs.length) :
      foldLength (w.store.length v) seed = vs.length - if seed.isSome then 0 else 1 := by
    rw [hv, foldLength, UInt64.toNat_ofNat_of_lt' hlength]
  obtain ⟨calls, o, w₁, hrun, hcalls, hcall⟩ :=
    runs_of_fold (.inr rfl) (run_seedLast_array a callback seed w.store) hpair.log
  obtain ⟨calls', o', w₁', hrun', hcalls', hcall'⟩ :=
    runs_of_fold (.inl rfl) (run_seedFirst (.array b) callback seed w.store) hpair.log
  rw [hcount hreversed.length, start_eq_of_reversed hlength hreversed seed] at hrun
  rw [hcount hreversed.length'] at hrun'
  rw [hcalls] at hkeeps
  rw [hcalls'] at hkeeps'
  obtain ⟨hmirrored, hend, rfl⟩ := runs_mirrored hrun hrun' steady_reduceRight steady_reduce
    ⟨rfl, rfl, rfl, rfl⟩ hreversed hpair
    (fun l hl => by
      rw [UInt64.zero_add]
      exact exists_mirrored_indices hl)
    (fun x hx => hkeeps (x.loggedAfter _) (List.mem_map_of_mem hx))
    fun x hx => hkeeps' (x.loggedAfter _) (List.mem_map_of_mem hx)
  have hright : right = _ := hcall
  have hleft : left = _ := hcall'
  rw [hcalls, hcalls', hright, hleft, leave_snd, leave_snd]
  refine ⟨?_, leave_of_sameEnd hend _ _, rfl, rfl⟩
  rw [List.forall₂_map_left_iff, List.forall₂_map_right_iff]
  exact hmirrored.imp fun x x' hx => hx.loggedAfter _ _

end Method

/-- The same three strings in both orders. -/
def mirroredStrings : World Unit :=
  ⟨⟨#[#[.string "a", .string "b", .string "c"], #[.string "c", .string "b", .string "a"]], #[]⟩, #[], ()⟩

/-- A callback that gives back its first argument leaves everything alone. -/
theorem Method.call_reduceRight_mirrors_reduce_echo :
    echoHost.DependsOnPair (.function ⟨.method, 0⟩) ∧
      mirroredStrings.store.items ⟨0⟩ = [.string "a", .string "b", .string "c"].toArray ∧
      mirroredStrings.store.items ⟨1⟩ = [.string "a", .string "b", .string "c"].reverse.toArray ∧
      (reduce.calls echoHost (.array ⟨1⟩) (.function ⟨.method, 0⟩) none mirroredStrings).length =
        (reduceRight.calls echoHost (.array ⟨0⟩) (.function ⟨.method, 0⟩) none
          mirroredStrings).length ∧
      ((reduce.call echoHost (.array ⟨1⟩) (.function ⟨.method, 0⟩) none).runOn
          mirroredStrings).1 =
        ((reduceRight.call echoHost (.array ⟨0⟩) (.function ⟨.method, 0⟩) none).runOn
          mirroredStrings).1 := by
  have hpair : echoHost.DependsOnPair (.function ⟨.method, 0⟩) :=
    ⟨fun _ _ _ _ _ _ => rfl, fun _ _ _ => rfl⟩
  have hkeeps (m : Method) (v : Value) (x)
      (hx : x ∈ m.calls echoHost v (.function ⟨.method, 0⟩) none mirroredStrings) :
      x.before.store.Agree x.after.store v := by
    obtain ⟨⟨kind, i⟩, b, args, hx⟩ := m.exists_eq_callOf _ _ _ _ _ hx
    rw [hx]
    cases kind <;> exact .refl _ _
  obtain ⟨hcalls, hend, -, -⟩ := call_reduceRight_mirrors_reduce echoHost mirroredStrings
    [.string "a", .string "b", .string "c"] ⟨0⟩ ⟨1⟩ (.function ⟨.method, 0⟩) none (by decide) rfl rfl
    hpair (hkeeps _ _) (hkeeps _ _)
  exact ⟨hpair, rfl, rfl, hcalls.length_eq.symm, hend⟩

end CollectionLoops
