import CollectionLoops.Loop

/-!
Loops that visit: they call the callback with each element, its index and the receiver, bound to the
context. They differ in what they make of the results.
-/
namespace CollectionLoops.Method

variable {σ : Type}

/-- Drops the results. -/
def eachBody : Body σ := fun h f i => do
  let _ ← f.visit h i
  return .next f

def eachSpec : LoopSpec σ where
  body := some ⟨"cb.call(that, receiver[i], i, receiver)", eachBody⟩

/-- Ends at the first result that is the boolean true; other truthy results do not count. -/
def someBody : Body σ := fun h f i => do
  let result ← f.visit h i
  return if result.strictEquals (.boolean true) then .done (.boolean true) else .next f

def returnFalse : Fragment StoreEpilogue := ⟨"return false", fun _ => pure (.boolean false)⟩

/-- Whether some result is the boolean true. -/
def someSpec : LoopSpec σ where
  body := some ⟨"if (cb.call(that, receiver[i], i, receiver) === true) return true", someBody⟩
  epilogue := some (returnFalse.map StoreEpilogue.lift)

/-- Keeps whether all results so far were truthy. -/
def everyBody : Body σ := fun h f i => do
  let result ← f.visit h i
  return .next { f with out := .boolean (result.isTruthy && f.out.isTruthy) }

def startTrue : StorePrologue := fun f => pure { f with out := .boolean true }

def returnOut : Fragment StoreEpilogue := ⟨"return out", fun f => pure f.out⟩

/-- Whether all results are truthy. Every element is visited, also after a result that is not. -/
def everySpec : LoopSpec σ where
  prologue := some ⟨"out = true", startTrue.lift⟩
  body := some ⟨"out = cb.call(that, receiver[i], i, receiver) && out", everyBody⟩
  epilogue := some (returnOut.map StoreEpilogue.lift)

def maxArrayLength : UInt64 := 4294967295

/-- Makes an array with a place for each result. -/
def preallocate : StorePrologue := fun f => do
  let n := f.length (← get)
  if maxArrayLength < n then throw .invalidLength
  let (r, s) := (← get).newArray (Array.replicate n.toNat .undefined)
  set s
  return { f with out := .array r }

/-- Puts the result in its place; a place that is not there takes nothing. -/
def mapBody : Body σ := fun h f i => do
  let result ← f.visit h i
  if let .array r := f.out then
    Run.updateStore (·.setItem r i.toNat result)
  return .next f

def mapSpec : LoopSpec σ where
  prologue := some ⟨"out = Array(receiver && receiver.length || 0)", preallocate.lift⟩
  body := some ⟨"out[i] = cb.call(that, receiver[i], i, receiver)", mapBody⟩
  epilogue := some (returnOut.map StoreEpilogue.lift)

def startEmpty : StorePrologue := fun f => do
  let (r, s) := (← get).newArray #[]
  set s
  return { f with out := .array r }

/-- Keeps the element that was visited if its result is truthy. The element is read once. -/
def filterBody : Body σ := fun h f i => do
  let element := f.element (← Run.store) i
  let result ← f.invoke h [element, .ofIndex i, f.receiver]
  if result.isTruthy then
    if let .array r := f.out then
      Run.updateStore (·.push r element)
  return .next f

def filterSpec : LoopSpec σ where
  prologue := some ⟨"out = []", startEmpty.lift⟩
  body := some ⟨"if (cb.call(that, receiver[i], i, receiver)) out.push(receiver[i])", filterBody⟩
  epilogue := some (returnOut.map StoreEpilogue.lift)

def bindReceiver : StorePrologue := fun f => pure { f with that := f.receiver }

/-- Calls the callback with the value that an element wraps, the element and its index. -/
def legacyBody : Body σ := fun h f i => do
  let element := f.element (← Run.store) i
  let node ← Run.read element nodeKey
  let _ ← f.invoke h [node, element, .ofIndex i]
  return .next f

def legacySpec : LoopSpec σ where
  prologue := some ⟨"that = receiver", bindReceiver.lift⟩
  body := some ⟨"cb.call(that, receiver[i]._node, receiver[i], i)", legacyBody⟩

end CollectionLoops.Method
