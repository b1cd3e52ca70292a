import CollectionLoops.Method

/-!
Steps that a script can put into the slots of a loop: the steps of the methods, and a few that show
single features of a loop.
-/
namespace CollectionLoops.Script

variable {σ : Type}

inductive PrologueStep
  | noop
  | fail
  | outThat
  | clearThat
  | ofMethod (m : Method)
  deriving DecidableEq, Repr

inductive CountStep
  | zero
  | three
  | lengthPlusOne
  | seeded
  | ofMethod (m : Method)
  deriving DecidableEq, Repr

inductive BodyStep
  | tally
  | returnTruthy
  | rebind
  | plain
  | ofMethod (m : Method)
  deriving DecidableEq, Repr

inductive EpilogueStep
  | count
  | state
  | ofMethod (m : Method)
  deriving DecidableEq, Repr

def PrologueStep.ofName? : String → Option PrologueStep
  | "noop" => some .noop
  | "throw" => some .fail
  | "out_that" => some .outThat
  | "clear_that" => some .clearThat
  | name => (Method.ofName? name).map .ofMethod

def CountStep.ofName? : String → Option CountStep
  | "zero" => some .zero
  | "three" => some .three
  | "len_plus_one" => some .lengthPlusOne
  | "seeded" => some .seeded
  | name => (Method.ofName? name).map .ofMethod

def BodyStep.ofName? : String → Option BodyStep
  | "tally" => some .tally
  | "return_truthy" => some .returnTruthy
  | "rebind" => some .rebind
  | "plain" => some .plain
  | name => (Method.ofName? name).map .ofMethod

def EpilogueStep.ofName? : String → Option EpilogueStep
  | "count" => some .count
  | "state" => some .state
  | name => (Method.ofName? name).map .ofMethod

/-- What a prologue does. A method without one stands for doing nothing. -/
def PrologueStep.step : PrologueStep → Prologue σ
  | .noop => StorePrologue.lift pure
  | .fail => StorePrologue.lift fun _ => throw (.thrown (.string "prologue"))
  | .outThat => StorePrologue.lift fun f => pure { f with out := f.that }
  | .clearThat => StorePrologue.lift fun f => pure { f with that := .undefined }
  | .ofMethod m => m.spec.prologueFragment.step

def CountStep.step : CountStep → Count σ
  | .zero => StoreCount.lift fun _ _ => 0
  | .three => StoreCount.lift fun _ _ => 3
  | .lengthPlusOne => StoreCount.lift fun s f => f.length s + 1
  | .seeded => StoreCount.lift fun _ f => if f.seeded then 1 else 0
  | .ofMethod m => m.spec.countFragment.step

def BodyStep.step : BodyStep → Body σ
  | .tally => fun _ f _ => return .next { f with out := .number (f.out.asNumber?.getD 0 + 1) }
  | .returnTruthy => fun h f i => do
    let result ← f.visit h i
    return if result.isTruthy then .done result else .next f
  | .rebind => fun h f i => do
    let that ← f.visit h i
    return .next { f with that }
  | .plain => fun h f i => do
    let out ← f.callPlain h [f.element (← Run.store) i, .ofIndex i]
    return .next { f with out }
  | .ofMethod m => m.spec.bodyFragment.step

def EpilogueStep.step : EpilogueStep → Epilogue σ
  | .count => StoreEpilogue.lift fun f => pure (.ofIndex f.count)
  | .state => StoreEpilogue.lift fun f => do
    let n := f.length (← get)
    let (r, s) := (← get).newArray #[f.that, .boolean f.seeded, f.out, .boolean f.invoker.isBound,
      .ofIndex f.count, .ofIndex n, .boolean (n == 0)]
    set s
    return .array r
  | .ofMethod m => m.spec.epilogueFragment.step

/-- A loop as a script writes it: the loop of a method or the empty one, with some slots replaced. -/
structure LoopText where
  base : Option Method := none
  prologue : Option (Fragment PrologueStep) := none
  count : Option (Fragment CountStep) := none
  body : Option (Fragment BodyStep) := none
  epilogue : Option (Fragment EpilogueStep) := none

def LoopText.spec (t : LoopText) : LoopSpec σ :=
  let base : LoopSpec σ := (t.base.map Method.spec).getD {}
  { prologue := t.prologue.map (·.map PrologueStep.step) <|> base.prologue
    count := t.count.map (·.map CountStep.step) <|> base.count
    body := t.body.map (·.map BodyStep.step) <|> base.body
    epilogue := t.epilogue.map (·.map EpilogueStep.step) <|> base.epilogue }

namespace LoopText

variable (t : LoopText)

/-- Each slot of a loop that a script puts together holds one of these steps; only a body may be that of
the empty loop. -/
theorem exists_prologueStep :
    ∃ p : PrologueStep, (t.spec : LoopSpec σ).prologueFragment.step = p.step := by
  obtain ⟨base, prologue, count, body, epilogue⟩ := t
  cases prologue with
  | some p => exact ⟨p.step, rfl⟩
  | none =>
    cases base with
    | some m => exact ⟨.ofMethod m, rfl⟩
    | none => exact ⟨.noop, rfl⟩

theorem exists_countStep :
    ∃ c : CountStep, (t.spec : LoopSpec σ).countFragment.step = c.step := by
  obtain ⟨base, prologue, count, body, epilogue⟩ := t
  cases count with
  | some c => exact ⟨c.step, rfl⟩
  | none =>
    cases base with
    | some m => exact ⟨.ofMethod m, rfl⟩
    | none => exact ⟨.ofMethod .each, rfl⟩

theorem exists_bodyStep :
    (t.spec : LoopSpec σ).bodyFragment.step = Fragment.noBody.step ∨
      ∃ b : BodyStep, (t.spec : LoopSpec σ).bodyFragment.step = b.step := by
  obtain ⟨base, prologue, count, body, epilogue⟩ := t
  cases body with
  | some b => exact .inr ⟨b.step, rfl⟩
  | none =>
    cases base with
    | some m => exact .inr ⟨.ofMethod m, rfl⟩
    | none => exact .inl rfl

theorem exists_epilogueStep :
    ∃ e : EpilogueStep, (t.spec : LoopSpec σ).epilogueFragment.step = e.step := by
  obtain ⟨base, prologue, count, body, epilogue⟩ := t
  cases epilogue with
  | some e => exact ⟨e.step, rfl⟩
  | none =>
    cases base with
    | some m => exact ⟨.ofMethod m, rfl⟩
    | none => exact ⟨.ofMethod .each, rfl⟩

end LoopText

end CollectionLoops.Script
