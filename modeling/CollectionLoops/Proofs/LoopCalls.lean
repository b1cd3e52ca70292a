import CollectionLoops.Proofs.CallLoop

/-!
Calls of any loop as data: what a call is made with, the frame and the world in which its iterations
begin, and the steps that its body runs. Main statements: the iterations do what the last of their steps
does, and there are as many steps as the count says unless one of them ends the loop.
-/
namespace CollectionLoops

variable {σ : Type}

/-- One run of a body: the index and the frame that it gets, the worlds that it finds and leaves, and
what it asks for. -/
structure Step (σ : Type) where
  index : UInt64
  frame : Frame
  before : World σ
  outcome : Except Fault Flow
  after : World σ

/-- Whether a step asks for another one. It does not if it failed or returned early. -/
def Step.Continues (x : Step σ) : Prop := ∃ g, x.outcome = .ok (.next g)

namespace Loop

/-- The step of a body in a world. -/
def stepOf (body : Body σ) (h : Host σ) (i : UInt64) (f : Frame) (w : World σ) : Step σ where
  index := i
  frame := f
  before := w
  outcome := ((body h f i).runOn w).1
  after := ((body h f i).runOn w).2

/-- The steps of `left` iterations from index `i` on, up to one that ends the loop. -/
def steps (body : Body σ) (h : Host σ) : Nat → UInt64 → Frame → World σ → List (Step σ)
  | 0, _, _, _ => []
  | left + 1, i, f, w =>
    let x := stepOf body h i f w
    x :: match x.outcome with
      | .ok (.next g) => steps body h left (i + 1) g x.after
      | _ => []

section Steps

variable {body : Body σ} {h : Host σ} {left : Nat} {i : UInt64} {f : Frame} {w : World σ}

theorem steps_of_outcome_eq_next {g : Frame} (hnext : (stepOf body h i f w).outcome = .ok (.next g)) :
    steps body h (left + 1) i f w =
      stepOf body h i f w :: steps body h left (i + 1) g (stepOf body h i f w).after := by
  rw [steps]
  simp only [hnext]

theorem steps_of_not_continues (hend : ¬ (stepOf body h i f w).Continues) :
    steps body h (left + 1) i f w = [stepOf body h i f w] := by
  rw [steps]
  rcases hout : (stepOf body h i f w).outcome with e | g | v
  · rfl
  · exact absurd ⟨g, hout⟩ hend
  · rfl

/-- A step from which the iterations go on, or which is the last one. -/
theorem continues_or_steps_eq_singleton (body : Body σ) (h : Host σ) (left : Nat) (i : UInt64)
    (f : Frame) (w : World σ) :
    (∃ g, (stepOf body h i f w).outcome = .ok (.next g) ∧ steps body h (left + 1) i f w =
        stepOf body h i f w :: steps body h left (i + 1) g (stepOf body h i f w).after) ∨
      ¬ (stepOf body h i f w).Continues ∧
        steps body h (left + 1) i f w = [stepOf body h i f w] := by
  by_cases hgoes : (stepOf body h i f w).Continues
  · obtain ⟨g, hg⟩ := hgoes
    exact .inl ⟨g, hg, steps_of_outcome_eq_next hg⟩
  · exact .inr ⟨hgoes, steps_of_not_continues hgoes⟩

/-- What the iterations do is what the last of their steps does. -/
theorem runOn_iterate_eq_getLast? (body : Body σ) (h : Host σ) (left : Nat) (i : UInt64) (f : Frame)
    (w : World σ) :
    (iterate body h left i f).runOn w =
      (steps body h left i f w).getLast?.elim (.ok (.next f), w) fun x => (x.outcome, x.after) := by
  induction left generalizing i f w with
  | zero => rfl
  | succ left ih =>
    have hstep : (body h f i).runOn w =
        ((stepOf body h i f w).outcome, (stepOf body h i f w).after) := rfl
    rw [CallStep.runOn_iterate_succ, hstep]
    obtain ⟨g, hnext, hsteps⟩ | ⟨hend, hsteps⟩ :=
      continues_or_steps_eq_singleton body h left i f w
    · simp only [hnext, hsteps, ih, List.getLast?_cons, Option.elim_some]
      cases (steps body h left (i + 1) g (stepOf body h i f w).after).getLast? with
      | none => exact congrArg (·, _) hnext.symm
      | some x => rfl
    · rw [hsteps]
      rcases hout : (stepOf body h i f w).outcome with e | g | v
      · exact congrArg (·, _) hout.symm
      · exact absurd ⟨g, hout⟩ hend
      · exact congrArg (·, _) hout.symm

theorem length_steps_le (body : Body σ) (h : Host σ) (left : Nat) (i : UInt64) (f : Frame)
    (w : World σ) : (steps body h left i f w).length ≤ left := by
  induction left generalizing i f w with
  | zero => exact Nat.le_refl 0
  | succ left ih =>
    obtain ⟨g, -, hsteps⟩ | ⟨-, hsteps⟩ := continues_or_steps_eq_singleton body h left i f w
    · rw [hsteps, List.length_cons]
      exact Nat.succ_le_succ (ih (i + 1) g _)
    · rw [hsteps, List.length_singleton]
      exact Nat.le_add_left 1 left

/-- Steps are missing only if one of them ended the loop. -/
theorem length_steps_eq (hgo : ∀ x ∈ steps body h left i f w, x.Continues) :
    (steps body h left i f w).length = left := by
  induction left generalizing i f w with
  | zero => rfl
  | succ left ih =>
    obtain ⟨g, -, hsteps⟩ | ⟨hend, hsteps⟩ := continues_or_steps_eq_singleton body h left i f w
    · rw [hsteps] at hgo ⊢
      rw [List.length_cons, ih fun x hx => hgo x (List.mem_cons_of_mem _ hx)]
    · rw [hsteps] at hgo
      exact absurd (hgo _ (List.mem_singleton_self _)) hend

theorem before_of_mem_head? {x : Step σ} (hx : x ∈ (steps body h left i f w).head?) :
    x.before = w := by
  cases left with
  | zero => cases hx
  | succ left =>
    cases hx
    rfl

/-- Each step is a run of the body. -/
theorem runOn_body_of_mem_steps {x : Step σ} (hx : x ∈ steps body h left i f w) :
    (body h x.frame x.index).runOn x.before = (x.outcome, x.after) := by
  induction left generalizing i f w with
  | zero => cases hx
  | succ left ih =>
    obtain ⟨g, -, hsteps⟩ | ⟨-, hsteps⟩ := continues_or_steps_eq_singleton body h left i f w
    · rw [hsteps] at hx
      rcases List.mem_cons.1 hx with rfl | hx
      · rfl
      · exact ih hx
    · rw [hsteps] at hx
      rw [List.mem_singleton.1 hx]
      rfl

/-- The indices count up from the first one. -/
theorem exists_index_of_mem_steps {x : Step σ} (hx : x ∈ steps body h left i f w) :
    ∃ k < left, x.index = i + .ofNat k := by
  induction left generalizing i f w with
  | zero => cases hx
  | succ left ih =>
    have hfirst : (stepOf body h i f w).index = i + .ofNat 0 := (UInt64.add_zero i).symm
    obtain ⟨g, -, hsteps⟩ | ⟨-, hsteps⟩ := continues_or_steps_eq_singleton body h left i f w
    · rw [hsteps] at hx
      rcases List.mem_cons.1 hx with rfl | hx
      · exact ⟨0, Nat.succ_pos left, hfirst⟩
      · obtain ⟨k, hk, hindex⟩ := ih hx
        exact ⟨k + 1, Nat.succ_lt_succ hk, hindex.trans (CallStep.index_succ i k)⟩
    · rw [hsteps] at hx
      rw [List.mem_singleton.1 hx]
      exact ⟨0, Nat.succ_pos left, hfirst⟩

/-- What the first frame has and every step keeps, every frame has. -/
theorem frame_of_mem_steps {P : Frame → Prop}
    (hkeep : ∀ j g v g', P g → (stepOf body h j g v).outcome = .ok (.next g') → P g') (hf : P f)
    {x : Step σ} (hx : x ∈ steps body h left i f w) : P x.frame := by
  induction left generalizing i f w with
  | zero => cases hx
  | succ left ih =>
    obtain ⟨g, hnext, hsteps⟩ | ⟨-, hsteps⟩ := continues_or_steps_eq_singleton body h left i f w
    · rw [hsteps] at hx
      rcases List.mem_cons.1 hx with rfl | hx
      · exact hf
      · exact ih (hkeep i f w g hf hnext) hx
    · rw [hsteps] at hx
      rw [List.mem_singleton.1 hx]
      exact hf

end Steps

end Loop

/-- A call of a loop, with the world that it finds. -/
structure LoopCall (σ : Type) where
  loop : Loop σ
  host : Host σ
  receiver : Value
  callback : Value
  second : Option Value
  before : World σ

namespace LoopCall

/-- The computation that the call is. -/
def code (c : LoopCall σ) : Run σ Value := c.loop.call c.host c.receiver c.callback c.second

def prologue (c : LoopCall σ) : Run σ Frame :=
  c.loop.prologue c.host (.start c.receiver c.callback c.second)

/-- What the call does before it is logged. -/
def enter (c : LoopCall σ) : Run σ Frame := c.loop.enter c.host c.receiver c.callback c.second

/-- The record of a call whose iterations begin with a frame. -/
def recordOf (c : LoopCall σ) (f : Frame) : LogRecord :=
  .iterations c.loop.name f.count f.invoker.isBound

def logged (c : LoopCall σ) (f : Frame) (w : World σ) : World σ :=
  { w with log := w.log.push (c.recordOf f) }

/-- The frame and the world in which the iterations begin, once the call is logged; none if the
prologue failed. -/
def start? (c : LoopCall σ) : Option (Frame × World σ) :=
  match c.enter.runOn c.before with
  | (.error _, _) => none
  | (.ok f, w) => some (f, c.logged f w)

/-- The record of the call; none if its prologue failed. -/
def record? (c : LoopCall σ) : Option LogRecord := c.start?.map fun e => c.recordOf e.1

/-- The runs of the body that the call makes. -/
def steps (c : LoopCall σ) : List (Step σ) :=
  c.start?.elim [] fun e => Loop.steps c.loop.body c.host e.1.count.toNat 0 e.1 e.2

section Start

variable {c : LoopCall σ} {e : Fault} {f : Frame} {w : World σ}

theorem runOn_enter_of_prologue_error (hprologue : c.prologue.runOn c.before = (.error e, w)) :
    c.enter.runOn c.before = (.error e, w) := by
  rw [prologue] at hprologue
  rw [enter, Loop.runOn_enter, hprologue]

theorem runOn_enter_of_prologue_ok (hprologue : c.prologue.runOn c.before = (.ok f, w)) :
    c.enter.runOn c.before =
      let counted := (c.loop.count c.host (c.loop.settle f)).run w
      (.ok { c.loop.settle f with count := counted.1 }, counted.2) := by
  rw [prologue] at hprologue
  rw [enter, Loop.runOn_enter, hprologue]

theorem start?_of_error (henter : c.enter.runOn c.before = (.error e, w)) : c.start? = none := by
  rw [start?, henter]

theorem start?_of_ok (henter : c.enter.runOn c.before = (.ok f, w)) :
    c.start? = some (f, c.logged f w) := by
  rw [start?, henter]

theorem exists_enter_of_start? (hstart : c.start? = some (f, w)) :
    ∃ v, c.enter.runOn c.before = (.ok f, v) ∧ w = c.logged f v := by
  rcases henter : c.enter.runOn c.before with ⟨e | g, v⟩
  · rw [start?_of_error henter] at hstart
    cases hstart
  · rw [start?_of_ok henter] at hstart
    cases hstart
    exact ⟨v, rfl, rfl⟩

theorem record?_of_error (henter : c.enter.runOn c.before = (.error e, w)) : c.record? = none := by
  rw [record?, start?_of_error henter]
  rfl

theorem record?_of_start? (hstart : c.start? = some (f, w)) : c.record? = some (c.recordOf f) := by
  rw [record?, hstart]
  rfl

theorem steps_of_start? (hstart : c.start? = some (f, w)) :
    c.steps = Loop.steps c.loop.body c.host f.count.toNat 0 f w := by
  rw [steps, hstart]
  rfl

theorem runOn_body_of_mem_steps {x : Step σ} (hx : x ∈ c.steps) :
    (c.loop.body c.host x.frame x.index).runOn x.before = (x.outcome, x.after) := by
  rcases hstart : c.start? with _ | ⟨f, w⟩
  · rw [steps, hstart] at hx
    cases hx
  · rw [steps_of_start? hstart] at hx
    exact Loop.runOn_body_of_mem_steps hx

/-- A call whose prologue fails does nothing further. -/
theorem runOn_of_error (henter : c.enter.runOn c.before = (.error e, w)) :
    c.code.runOn c.before = (.error e, w) := by
  rw [enter] at henter
  rw [code, Loop.runOn_call, henter]

/-- A call whose prologue succeeds is logged, and goes on with its iterations. -/
theorem runOn_of_start? (hstart : c.start? = some (f, w)) :
    c.code.runOn c.before = (c.loop.proceed c.host f).runOn w := by
  obtain ⟨v, henter, rfl⟩ := exists_enter_of_start? hstart
  rw [enter] at henter
  rw [code, Loop.runOn_call, henter]
  rfl

end Start

end LoopCall

end CollectionLoops
