import CollectionLoops.Properties

/-!
The store: what each array and each object holds. A container is made once and never taken back, so
the containers of a store are the references below its two sizes. Main statements: a write changes
the container that is written and no other; a new container is none of those that were there.
-/
namespace CollectionLoops

/-- The contents of all containers, by reference. -/
structure Store where
  arrays : Array (Array Value)
  objects : Array Properties

namespace Store

def empty : Store := ⟨#[], #[]⟩

/-- How many containers there are. -/
def size (s : Store) : Nat := s.arrays.size + s.objects.size

def items (s : Store) (r : ArrayRef) : Array Value := s.arrays[r.index]?.getD #[]

def properties (s : Store) (r : ObjectRef) : Properties := s.objects[r.index]?.getD .empty

/-- A new array and the store that has it. -/
def newArray (s : Store) (vs : Array Value) : ArrayRef × Store :=
  (⟨s.arrays.size⟩, { s with arrays := s.arrays.push vs })

/-- A new object and the store that has it. -/
def newObject (s : Store) (p : Properties) : ObjectRef × Store :=
  (⟨s.objects.size⟩, { s with objects := s.objects.push p })

def updateArray (s : Store) (r : ArrayRef) (f : Array Value → Array Value) : Store :=
  { s with arrays := s.arrays.modify r.index f }

def updateObject (s : Store) (r : ObjectRef) (f : Properties → Properties) : Store :=
  { s with objects := s.objects.modify r.index f }

def push (s : Store) (r : ArrayRef) (v : Value) : Store := s.updateArray r (·.push v)

/-- Writes the item at an index; an index at or past the end writes nothing. -/
def setItem (s : Store) (r : ArrayRef) (i : Nat) (v : Value) : Store :=
  s.updateArray r (·.setIfInBounds i v)

/-- Whether the container behind a value is in the store. A value of another kind has none. -/
def Contains (s : Store) : Value → Prop
  | .array r => r.index < s.arrays.size
  | .object r => r.index < s.objects.size
  | _ => True

/-- The values directly inside a value. -/
def children (s : Store) : Value → List Value
  | .array r => (s.items r).toList
  | .object r => (s.properties r).entries.map Prod.snd
  | _ => []

@[simp] theorem newArray_fst (s : Store) (vs : Array Value) :
    (s.newArray vs).1 = ⟨s.arrays.size⟩ := rfl

@[simp] theorem newObject_fst (s : Store) (p : Properties) :
    (s.newObject p).1 = ⟨s.objects.size⟩ := rfl

theorem items_newArray (s : Store) (vs : Array Value) (r : ArrayRef) :
    (s.newArray vs).2.items r = if r.index = s.arrays.size then vs else s.items r := by
  simp only [items, newArray, Array.getElem?_push]
  split <;> rfl

theorem properties_newObject (s : Store) (p : Properties) (r : ObjectRef) :
    (s.newObject p).2.properties r = if r.index = s.objects.size then p else s.properties r := by
  simp only [properties, newObject, Array.getElem?_push]
  split <;> rfl

@[simp] theorem properties_newArray (s : Store) (vs : Array Value) (r : ObjectRef) :
    (s.newArray vs).2.properties r = s.properties r := rfl

@[simp] theorem items_newObject (s : Store) (p : Properties) (r : ArrayRef) :
    (s.newObject p).2.items r = s.items r := rfl

theorem items_updateArray_of_ne (s : Store) {r r' : ArrayRef} (f : Array Value → Array Value)
    (h : r' ≠ r) : (s.updateArray r f).items r' = s.items r' := by
  have : r.index ≠ r'.index := fun e => h (by cases r; cases r'; simp_all)
  simp [items, updateArray, Array.getElem?_modify, this]

theorem items_updateArray_self (s : Store) {r : ArrayRef} (f : Array Value → Array Value)
    (h : r.index < s.arrays.size) : (s.updateArray r f).items r = f (s.items r) := by
  simp [items, updateArray, Array.getElem_modify, h]

@[simp] theorem properties_updateArray (s : Store) (r : ArrayRef) (f : Array Value → Array Value)
    (o : ObjectRef) : (s.updateArray r f).properties o = s.properties o := rfl

theorem properties_updateObject_of_ne (s : Store) {r r' : ObjectRef} (f : Properties → Properties)
    (h : r' ≠ r) : (s.updateObject r f).properties r' = s.properties r' := by
  have : r.index ≠ r'.index := fun e => h (by cases r; cases r'; simp_all)
  simp [properties, updateObject, Array.getElem?_modify, this]

theorem properties_updateObject_self (s : Store) {r : ObjectRef} (f : Properties → Properties)
    (h : r.index < s.objects.size) : (s.updateObject r f).properties r = f (s.properties r) := by
  simp [properties, updateObject, Array.getElem_modify, h]

@[simp] theorem items_updateObject (s : Store) (r : ObjectRef) (f : Properties → Properties)
    (a : ArrayRef) : (s.updateObject r f).items a = s.items a := rfl

/-- A write makes no container and removes none. -/
@[simp] theorem size_updateArray (s : Store) (r : ArrayRef) (f : Array Value → Array Value) :
    (s.updateArray r f).size = s.size := by
  simp [size, updateArray]

@[simp] theorem size_updateObject (s : Store) (r : ObjectRef) (f : Properties → Properties) :
    (s.updateObject r f).size = s.size := by
  simp [size, updateObject]

end Store

end CollectionLoops
