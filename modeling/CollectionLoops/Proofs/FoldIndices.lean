import CollectionLoops.Proofs.Folds
import CollectionLoops.Proofs.LoopCalls

/-!
The index arithmetic of the folds, in 64 bits. The two prologues and the two bodies are taken apart and
put together in all ways, with any count. Main statement: no index wraps around at any step, and with the
count of the folds every element that is looked up is there, except for the first element of a receiver
that has none.
-/
namespace CollectionLoops

variable {σ : Type}

/-- The end of the receiver at which a prologue looks for a seed, or from which a body counts. -/
inductive FoldEnd
  | first
  | last
  deriving DecidableEq

/-- A difference of 64 bits, if it does not go below zero. -/
def sub? (a b : UInt64) : Option UInt64 := if b ≤ a then some (a - b) else none

theorem sub?_of_le {a b : UInt64} (h : b ≤ a) : sub? a b = some (a - b) := if_pos h

namespace FoldEnd

def prologue : FoldEnd → StorePrologue
  | .first => Method.seedFirst
  | .last => Method.seedLast

/-- The prologue with a subtraction that is checked: it fails where a difference would wrap around. -/
def checkedPrologue (e : Fault) : FoldEnd → StorePrologue
  | .first => Method.seedFirst
  | .last => fun f => do
    let n := f.length (← get)
    if f.seeded || n == 0 then return f
    match sub? n 1 with
    | some k => return { f with that := f.element (← get) k }
    | none => throw e

def body : FoldEnd → Body σ
  | .first => Method.reduceBody
  | .last => Method.reduceRightBody

/-- Where the prologue looks for a seed, in a receiver of some length. -/
def seedIndex? (p : FoldEnd) (seeded : Bool) (length : UInt64) : Option UInt64 :=
  match p, seeded with
  | _, true => none
  | .first, false => some 0
  | .last, false => if length = 0 then none else some (length - 1)

/-- The index of the element that the body folds in an iteration. -/
def index (b : FoldEnd) (f : Frame) (i : UInt64) : UInt64 :=
  match b with
  | .first => if f.seeded then i else i + 1
  | .last => f.count - i - 1

theorem body_eq_foldAt (b : FoldEnd) :
    (b.body : Body σ) = fun h f i => Method.foldAt h f (b.index f i) := by
  cases b <;> rfl

theorem run_prologue (p : FoldEnd) (receiver callback : Value) (second : Option Value) (s : Store) :
    let f := Frame.start receiver callback second
    (p.prologue f).run.run s =
      (.ok ((p.seedIndex? second.isSome (s.length receiver)).elim f fun k =>
        { f with that := s.element receiver k }), s) := by
  cases p with
  | first => cases second <;> rfl
  | last =>
    cases second with
    | some v => rfl
    | none =>
      refine (Method.run_seedLast_none receiver callback s).trans ?_
      by_cases hzero : s.length receiver = 0
      · simp only [seedIndex?, Option.isSome_none, if_pos hzero]
        rfl
      · simp only [seedIndex?, Option.isSome_none, if_neg hzero]
        rfl

/-- The checked subtraction never fails. -/
theorem checkedPrologue_eq (p : FoldEnd) (e : Fault) : p.checkedPrologue e = p.prologue := by
  cases p with
  | first => rfl
  | last =>
    refine funext fun f => funext fun s => ?_
    have hchecked : (FoldEnd.last.checkedPrologue e f).run.run s = (ExceptT.run (m := StateM Store)
      (if (f.seeded || f.length s == 0) = true then pure f
      else match sub? (f.length s) 1 with
        | some k => do return { f with that := f.element (← get) k }
        | none => throw e)).run s := rfl
    have hplain : (FoldEnd.last.prologue f).run.run s = (ExceptT.run (m := StateM Store)
      (if (f.seeded || f.length s == 0) = true then pure f
      else do return { f with that := f.element (← get) (f.length s - 1) })).run s := rfl
    change (FoldEnd.last.checkedPrologue e f).run.run s = (FoldEnd.last.prologue f).run.run s
    rw [hchecked, hplain]
    by_cases hguard : (f.seeded || f.length s == 0) = true
    · rw [if_pos hguard, if_pos hguard]
    -- past the guard there is an element to take away
    · have hne : f.length s ≠ 0 := fun hzero => hguard (by simp [hzero])
      rw [if_neg hguard, if_neg hguard, sub?_of_le (one_le_of_ne_zero hne)]

section Steps

variable {b : FoldEnd} {h : Host σ} {left : Nat} {i : UInt64} {f : Frame} {w : World σ}

/-- A step of a fold changes nothing in the frame but the accumulator. -/
theorem exists_that_of_outcome_eq_next {g : Frame}
    (hnext : (Loop.stepOf b.body h i f w).outcome = .ok (.next g)) :
    ∃ v, g = { f with that := v } := by
  have hrun : (Loop.stepOf b.body h i f w).outcome =
      (((CallStep.fold b.index).body h f i).runOn w).1 := by
    rw [Loop.stepOf, body_eq_foldAt, Method.runOn_foldAt]
  rw [hrun, CallStep.runOn_body_fold] at hnext
  rcases hstep : (h.foldStep f.callback f.receiver f.that (b.index f i)).runOn w with ⟨e | v, w'⟩
  · rw [hstep] at hnext
    cases hnext
  · rw [hstep] at hnext
    cases hnext
    exact ⟨v, rfl⟩

theorem exists_that_of_mem_steps {x : Step σ} (hx : x ∈ Loop.steps b.body h left i f w) :
    ∃ v, x.frame = { f with that := v } := by
  refine Loop.frame_of_mem_steps (P := fun g => ∃ v, g = { f with that := v }) ?_ ⟨f.that, rfl⟩ hx
  rintro j _ v g ⟨u, rfl⟩ hnext
  obtain ⟨u', rfl⟩ := exists_that_of_outcome_eq_next hnext
  exact ⟨u', rfl⟩

theorem toNat_index_lt_of_mem_steps {n : UInt64} {x : Step σ}
    (hx : x ∈ Loop.steps b.body h n.toNat 0 f w) : x.index.toNat < n.toNat := by
  obtain ⟨k, hk, hindex⟩ := Loop.exists_index_of_mem_steps hx
  have hnat : x.index.toNat = k := by
    rw [hindex, UInt64.zero_add]
    exact UInt64.toNat_ofNat_of_lt (Nat.lt_trans hk n.toNat_lt)
  rwa [hnat]

end Steps

/-- Counting down from a count to the last index before it. -/
theorem toNat_sub_sub_one {n i : UInt64} (hlt : i.toNat < n.toNat) :
    (n - i - 1).toNat = n.toNat - i.toNat - 1 := by
  have hle : i ≤ n := UInt64.le_iff_toNat_le.2 (Nat.le_of_lt hlt)
  have hsub : (n - i).toNat = n.toNat - i.toNat := UInt64.toNat_sub_of_le _ _ hle
  have hone : 1 ≤ n - i := by
    rw [UInt64.le_iff_toNat_le, hsub, UInt64.toNat_one]
    omega
  rw [UInt64.toNat_sub_of_le _ _ hone, hsub, UInt64.toNat_one]

/-- Counting up from an index below a count. -/
theorem toNat_add_one {n i : UInt64} (hlt : i.toNat < n.toNat) : (i + 1).toNat = i.toNat + 1 := by
  rw [UInt64.toNat_add, UInt64.toNat_one]
  exact Nat.mod_eq_of_lt (Nat.lt_of_le_of_lt hlt n.toNat_lt)

end FoldEnd

/-- A loop that folds with the prologue of one end and the body of one end, and any count. -/
def foldSpec (p b : FoldEnd) (prologueText bodyText : String)
    (count : Option (Fragment (Count σ))) (epilogue : Option (Fragment (Epilogue σ))) :
    LoopSpec σ where
  prologue := some ⟨prologueText, p.prologue.lift⟩
  count
  body := some ⟨bodyText, b.body⟩
  epilogue

/-- The count of the folds. -/
def foldCount? : Option (Fragment (Count σ)) := some (Method.foldCount.map StoreCount.lift)

theorem reduceSpec_eq_foldSpec : ∃ prologueText bodyText, (Method.reduceSpec : LoopSpec σ) =
    foldSpec .first .first prologueText bodyText foldCount?
      (some (Method.returnThat.map StoreEpilogue.lift)) :=
  ⟨_, _, rfl⟩

theorem reduceRightSpec_eq_foldSpec : ∃ prologueText bodyText,
    (Method.reduceRightSpec : LoopSpec σ) =
      foldSpec .last .last prologueText bodyText foldCount?
        (some (Method.returnThat.map StoreEpilogue.lift)) :=
  ⟨_, _, rfl⟩

/-- The indices of the elements that a call of a fold looks up: that of the seed, if the prologue looks
for one, and those of its steps. -/
def LoopCall.elementIndices (c : LoopCall σ) (p b : FoldEnd) : List UInt64 :=
  (p.seedIndex? c.second.isSome (c.before.store.length c.receiver)).toList ++
    c.steps.map fun x => b.index x.frame x.index

section Calls

variable {c : LoopCall σ} {p b : FoldEnd} {g : Frame} {w : World σ}

theorem Loop.settle_seeded (l : Loop σ) (f : Frame) : (l.settle f).seeded = f.seeded := by
  rw [settle]
  split <;> rfl

theorem Loop.settle_receiver (l : Loop σ) (f : Frame) : (l.settle f).receiver = f.receiver := by
  rw [settle]
  split <;> rfl

namespace LoopCall

/-- Such a prologue puts the element that it finds in the place of the seed, and writes nothing. -/
theorem runOn_prologue (hp : c.loop.prologue = p.prologue.lift) :
    let f := Frame.start c.receiver c.callback c.second
    c.prologue.runOn c.before =
      (.ok ((p.seedIndex? c.second.isSome (c.before.store.length c.receiver)).elim f fun k =>
        { f with that := c.before.store.element c.receiver k }), c.before) := by
  intro f
  rw [prologue, hp, StorePrologue.runOn_lift, p.run_prologue]

theorem exists_that_of_prologue (hp : c.loop.prologue = p.prologue.lift) :
    ∃ v, c.prologue.runOn c.before =
      (.ok { Frame.start c.receiver c.callback c.second with that := v }, c.before) := by
  rw [runOn_prologue hp]
  cases p.seedIndex? c.second.isSome (c.before.store.length c.receiver) with
  | none => exact ⟨_, rfl⟩
  | some k => exact ⟨_, rfl⟩

theorem seeded_of_start? (hp : c.loop.prologue = p.prologue.lift)
    (hstart : c.start? = some (g, w)) : g.seeded = c.second.isSome := by
  obtain ⟨v, hv⟩ := exists_that_of_prologue hp
  rw [start?_of_ok (runOn_enter_of_prologue_ok hv)] at hstart
  cases hstart
  exact c.loop.settle_seeded _

/-- The count of the folds, taken from the store that the call found. -/
theorem toNat_count_of_start? (hp : c.loop.prologue = p.prologue.lift)
    (hcount : c.loop.count = Method.foldCount.step.lift) (hstart : c.start? = some (g, w)) :
    g.count.toNat = foldLength (c.before.store.length c.receiver) c.second := by
  obtain ⟨v, hv⟩ := exists_that_of_prologue hp
  rw [start?_of_ok (runOn_enter_of_prologue_ok hv)] at hstart
  cases hstart
  -- the count looks at the seed and at the receiver, which settling leaves as they are
  have hsame : Method.foldCount.step c.before.store
      (c.loop.settle { Frame.start c.receiver c.callback c.second with that := v }) =
      Method.foldCount.step c.before.store (.folding c.receiver c.callback c.second v 0) := by
    simp only [Method.foldCount, Frame.length, Loop.settle_seeded, Loop.settle_receiver]
    rfl
  rw [← toNat_ofNat_foldLength, ← Method.foldCount_folding _ _ c.callback _ v, ← hsame]
  dsimp only
  rw [hcount, StoreCount.run_lift]

/-- Every step of a fold gets the count with which the iterations began, and an index below it. -/
theorem count_of_mem_steps (hb : c.loop.body = b.body) {x : Step σ} (hx : x ∈ c.steps) :
    ∃ g w, c.start? = some (g, w) ∧ x.frame.count = g.count ∧ x.frame.seeded = g.seeded ∧
      x.index.toNat < g.count.toNat := by
  rcases hstart : c.start? with _ | ⟨g, w⟩
  · rw [steps, hstart] at hx
    cases hx
  · rw [steps_of_start? hstart, hb] at hx
    obtain ⟨v, hv⟩ := FoldEnd.exists_that_of_mem_steps hx
    exact ⟨g, w, rfl, by rw [hv], by rw [hv], FoldEnd.toNat_index_lt_of_mem_steps hx⟩

/-- With the count of the folds, both bodies look up elements that were there when the call began. -/
theorem index_lt_of_mem_steps (hp : c.loop.prologue = p.prologue.lift) (hb : c.loop.body = b.body)
    (hcount : c.loop.count = Method.foldCount.step.lift) {x : Step σ} (hx : x ∈ c.steps) :
    b.index x.frame x.index < c.before.store.length c.receiver := by
  obtain ⟨g, w, hstart, hxcount, hxseeded, hlt⟩ := count_of_mem_steps hb hx
  have hlength := toNat_count_of_start? hp hcount hstart
  rw [foldLength] at hlength
  rw [UInt64.lt_iff_toNat_lt]
  cases b with
  | first =>
    have hseeded : x.frame.seeded = c.second.isSome := hxseeded.trans (seeded_of_start? hp hstart)
    rw [FoldEnd.index, hseeded]
    cases hsecond : c.second.isSome with
    | true =>
      rw [hsecond, if_pos rfl, Nat.sub_zero] at hlength
      rwa [if_pos rfl, ← hlength]
    | false =>
      rw [hsecond, if_neg Bool.false_ne_true] at hlength
      rw [if_neg Bool.false_ne_true, FoldEnd.toNat_add_one hlt]
      omega
  | last =>
    have hle : g.count.toNat ≤ (c.before.store.length c.receiver).toNat := hlength ▸ Nat.sub_le _ _
    rw [FoldEnd.index, hxcount, FoldEnd.toNat_sub_sub_one hlt]
    omega

end LoopCall

theorem FoldEnd.seedIndex?_lt_iff (p : FoldEnd) (seeded : Bool) (n : UInt64) :
    (∀ k ∈ p.seedIndex? seeded n, k < n) ↔ p = .last ∨ seeded = true ∨ n ≠ 0 := by
  cases seeded with
  | true => simp [seedIndex?]
  | false =>
    cases p with
    | first => simp [seedIndex?, UInt64.pos_iff_ne_zero]
    | last =>
      by_cases hzero : n = 0
      · simp [seedIndex?, hzero]
      · have hlt : n - 1 < n := by
          rw [UInt64.lt_iff_toNat_lt, UInt64.toNat_sub_of_le _ _ (one_le_of_ne_zero hzero)]
          exact Nat.sub_lt (UInt64.lt_iff_toNat_lt.1 (UInt64.pos_iff_ne_zero.2 hzero)) Nat.one_pos
        simp [seedIndex?, hzero, hlt]

/-- No index of a fold wraps around, whichever prologue meets whichever body and whatever is counted. At
every step the frame has the count with which the iterations began and the index is below it, so that
the next index and the index counted down from the end are what they are without a limit, and the second
one is below the count. A prologue takes one from a length only if there is something to take away. The
prologue looks for a seed, and each step folds, at the index that is said to be looked up, and the
iterations do what the last step does. With the count of the folds, the elements that are looked up are
below the length at the beginning, unless the first element is taken for a seed that was not passed and
there is none. -/
theorem foldSpec_index_arithmetic (p b : FoldEnd) (prologueText bodyText name : String)
    (epilogue : Option (Fragment (Epilogue σ))) (h : Host σ) (receiver callback : Value)
    (second : Option Value) (w : World σ) :
    let call (count : Option (Fragment (Count σ))) : LoopCall σ :=
      ⟨(foldSpec p b prologueText bodyText count epilogue).compile name, h, receiver, callback,
        second, w⟩
    (∀ count, ∀ x ∈ (call count).steps, ∃ g v, (call count).start? = some (g, v) ∧
      let n := x.frame.count
      n = g.count ∧ x.index.toNat + 1 ≤ n.toNat ∧
        x.index.toNat + 1 < UInt64.size ∧ (x.index + 1).toNat = x.index.toNat + 1 ∧
        (n - x.index - 1).toNat = n.toNat - x.index.toNat - 1 ∧ n - x.index - 1 < n) ∧
    (∀ e, p.checkedPrologue e = p.prologue) ∧
    (∀ count, let f := Frame.start receiver callback second
      (call count).prologue.runOn w =
        (.ok ((p.seedIndex? second.isSome (w.store.length receiver)).elim f fun k =>
          { f with that := w.store.element receiver k }), w)) ∧
    (∀ count, ∀ x ∈ (call count).steps,
      (Method.foldAt h x.frame (b.index x.frame x.index)).runOn x.before = (x.outcome, x.after)) ∧
    (∀ count g v, (call count).start? = some (g, v) →
      (Loop.iterate (call count).loop.body h g.count.toNat 0 g).runOn v =
        (call count).steps.getLast?.elim (.ok (.next g), v) fun x => (x.outcome, x.after)) ∧
    ((∀ k ∈ (call foldCount?).elementIndices p b, k < w.store.length receiver) ↔
      p = .last ∨ second.isSome = true ∨ w.store.length receiver ≠ 0) := by
  intro call
  refine ⟨fun count x hx => ?_, p.checkedPrologue_eq,
    fun count => LoopCall.runOn_prologue (c := call count) (p := p) rfl, fun count x hx => ?_,
    fun count g v hstart => ?_, ?_⟩
  · obtain ⟨g, v, hstart, hcount, -, hlt⟩ := LoopCall.count_of_mem_steps (b := b) rfl hx
    rw [← hcount] at hlt
    have hsub := FoldEnd.toNat_sub_sub_one hlt
    have hsize := Nat.lt_of_le_of_lt hlt x.frame.count.toNat_lt_size
    refine ⟨g, v, hstart, hcount, hlt, hsize, FoldEnd.toNat_add_one hlt, hsub, ?_⟩
    rw [UInt64.lt_iff_toNat_lt, hsub]
    omega
  · have hrun := LoopCall.runOn_body_of_mem_steps hx
    have hbody : (call count).loop.body = fun h f i => Method.foldAt h f (b.index f i) :=
      b.body_eq_foldAt
    rwa [hbody] at hrun
  · rw [LoopCall.steps_of_start? hstart]
    exact Loop.runOn_iterate_eq_getLast? ..
  · rw [← p.seedIndex?_lt_iff, LoopCall.elementIndices]
    refine ⟨fun hall k hk => hall k (List.mem_append_left _ (Option.mem_toList.2 hk)),
      fun hseed k hk => ?_⟩
    rcases List.mem_append.1 hk with hk | hk
    · exact hseed k (Option.mem_toList.1 hk)
    · obtain ⟨x, hx, rfl⟩ := List.mem_map.1 hk
      exact LoopCall.index_lt_of_mem_steps (p := p) rfl rfl rfl hx

end Calls

/-- An object without a length that has a property at index zero: `reduce` looks it up and gives it,
though zero is not below the length. -/
theorem LoopCall.elementIndices_reduce_stray :
    let c : LoopCall Unit := ⟨Method.reduce.loop, shrinkingHost, .object ⟨0⟩,
      .function ⟨.plain, 0⟩, none, Method.strayElement⟩
    0 ∈ c.elementIndices .first .first ∧ ¬ 0 < c.before.store.length c.receiver ∧
      (c.code.runOn c.before).1 = .ok (.string "a") := by
  intro c
  have hlength : Method.strayElement.store.length (.object ⟨0⟩) = 0 := by decide +kernel
  have helement : Method.strayElement.store.element (.object ⟨0⟩) 0 = .string "a" := by
    decide +kernel
  have hends := Method.call_of_length_eq_zero Method.callLoop_reduce (fun _ _ _ => rfl)
    shrinkingHost hlength
    (Method.run_seedFirst (.object ⟨0⟩) (.function ⟨.plain, 0⟩) none Method.strayElement.store)
  refine ⟨List.mem_append_left _ (List.mem_singleton_self _), ?_,
    hends.2.trans (congrArg Except.ok helement)⟩
  rw [hlength]
  exact UInt64.lt_irrefl 0

end CollectionLoops
