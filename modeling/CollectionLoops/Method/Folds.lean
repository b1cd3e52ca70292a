import CollectionLoops.Loop

/-!
Loops that fold: they call the callback, never bound, with the accumulator, each element, its index
and the receiver, and the result is the next accumulator. Without a seed, the element at the end
where the fold begins is the first accumulator.
-/
namespace CollectionLoops.Method

variable {σ : Type}

/-- One call for each element, less the one that is the seed. -/
def foldCount : Fragment StoreCount where
  source := "receiver ? receiver.length - (seeded ? 0 : 1) : 0"
  step s f := if f.seeded then f.length s else if f.length s = 0 then 0 else f.length s - 1

/-- Calls the callback for the element at an index. -/
def foldAt (h : Host σ) (f : Frame) (i : UInt64) : Run σ Flow := do
  let that ← f.callPlain h [f.that, f.element (← Run.store) i, .ofIndex i, f.receiver]
  return .next { f with that }

def returnThat : Fragment StoreEpilogue := ⟨"return that", fun f => pure f.that⟩

/-- Takes the first element for a seed that was not passed. -/
def seedFirst : StorePrologue := fun f => do
  if f.seeded then return f
  return { f with that := f.element (← get) 0 }

/-- An unseeded fold has used up the first element. -/
def reduceBody : Body σ := fun h f i => foldAt h f (if f.seeded then i else i + 1)

def reduceSpec : LoopSpec σ where
  prologue := some ⟨"if (!seeded) that = receiver[0]", seedFirst.lift⟩
  count := some (foldCount.map StoreCount.lift)
  body := some ⟨"k = seeded ? i : i + 1; that = cb(that, receiver[k], k, receiver)", reduceBody⟩
  epilogue := some (returnThat.map StoreEpilogue.lift)

/-- Takes the last element for a seed that was not passed. -/
def seedLast : StorePrologue := fun f => do
  let n := f.length (← get)
  if f.seeded || n == 0 then return f
  return { f with that := f.element (← get) (n - 1) }

/-- Counts the indices down; an unseeded fold has used up the last one. -/
def reduceRightBody : Body σ := fun h f i => foldAt h f (f.count - i - 1)

def reduceRightSpec : LoopSpec σ where
  prologue := some ⟨"if (!seeded) that = receiver[receiver.length - 1]", seedLast.lift⟩
  count := some (foldCount.map StoreCount.lift)
  body := some ⟨"j = n - i - 1; that = cb(that, receiver[j], j, receiver)", reduceRightBody⟩
  epilogue := some (returnThat.map StoreEpilogue.lift)

end CollectionLoops.Method
