import CollectionLoops.Value

/-!
The properties of an object, in the order in which their keys were first written. Main statement: a
look-up after a write finds the written value under its key and the earlier ones under all others.
-/
namespace CollectionLoops

/-- Keys with their values, each key once. -/
structure Properties where
  entries : List (String × Value)
  nodup : (entries.map Prod.fst).Nodup

namespace Properties

def empty : Properties := ⟨[], .nil⟩

instance : EmptyCollection Properties := ⟨empty⟩

def keys (p : Properties) : List String := p.entries.map Prod.fst

def size (p : Properties) : Nat := p.entries.length

def get? (p : Properties) (key : String) : Option Value := p.entries.lookup key

/-- Writes a value into a list of entries: in place if the key is there, else at the end. -/
def insertEntry (key : String) (value : Value) : List (String × Value) → List (String × Value)
  | [] => [(key, value)]
  | (k, v) :: l => if k = key then (key, value) :: l else (k, v) :: insertEntry key value l

theorem mem_keys_insertEntry {key k : String} {value : Value} {l : List (String × Value)} :
    k ∈ (insertEntry key value l).map Prod.fst ↔ k = key ∨ k ∈ l.map Prod.fst := by
  induction l with
  | nil => simp [insertEntry]
  | cons e l ih =>
    obtain ⟨k', v⟩ := e
    by_cases h : k' = key
    · subst h; simp [insertEntry]
    · simp only [insertEntry, if_neg h, List.map_cons, List.mem_cons, ih]
      exact or_left_comm

theorem nodup_insertEntry {key : String} {value : Value} {l : List (String × Value)}
    (h : (l.map Prod.fst).Nodup) : ((insertEntry key value l).map Prod.fst).Nodup := by
  induction l with
  | nil => simp [insertEntry]
  | cons e l ih =>
    obtain ⟨k, v⟩ := e
    by_cases hk : k = key
    · subst hk; simpa [insertEntry] using h
    · simp only [insertEntry, if_neg hk, List.map_cons, List.nodup_cons] at h ⊢
      refine ⟨fun hm => ?_, ih h.2⟩
      rcases mem_keys_insertEntry.1 hm with h' | h'
      · exact hk h'
      · exact h.1 h'

/-- Writes a property. A key that is there keeps its place. -/
def insert (p : Properties) (key : String) (value : Value) : Properties :=
  ⟨insertEntry key value p.entries, nodup_insertEntry p.nodup⟩

/-- Removes a property; the others keep their order. -/
def erase (p : Properties) (key : String) : Properties :=
  ⟨p.entries.filter (·.1 != key), p.nodup.sublist (List.filter_sublist.map _)⟩

def ofList (l : List (String × Value)) : Properties :=
  l.foldl (fun p e => p.insert e.1 e.2) empty

@[simp] theorem get?_empty (key : String) : empty.get? key = none := rfl

@[simp] theorem entries_insert (p : Properties) (key : String) (value : Value) :
    (p.insert key value).entries = insertEntry key value p.entries := rfl

theorem lookup_cons_eq_ite (key k : String) (v : Value) (l : List (String × Value)) :
    ((k, v) :: l).lookup key = if key = k then some v else l.lookup key := by
  rw [List.lookup_cons]
  by_cases h : key = k
  · simp [h]
  · simp [h, beq_eq_false_iff_ne.2 h]

theorem get?_insert (p : Properties) (key k : String) (value : Value) :
    (p.insert key value).get? k = if k = key then some value else p.get? k := by
  simp only [get?, entries_insert]
  induction p.entries with
  | nil => rw [insertEntry, lookup_cons_eq_ite]
  | cons e l ih =>
    obtain ⟨k', v⟩ := e
    by_cases hk : k' = key
    · subst hk
      rw [insertEntry, if_pos rfl, lookup_cons_eq_ite, lookup_cons_eq_ite]
      split <;> rfl
    · rw [insertEntry, if_neg hk, lookup_cons_eq_ite, lookup_cons_eq_ite, ih]
      by_cases h : k = k'
      · subst h; simp [hk]
      · simp [h]

theorem mem_keys_insert {p : Properties} {key k : String} {value : Value} :
    k ∈ (p.insert key value).keys ↔ k = key ∨ k ∈ p.keys := mem_keys_insertEntry

theorem get?_eq_none_iff {p : Properties} {key : String} : p.get? key = none ↔ key ∉ p.keys := by
  simp only [get?, keys]
  induction p.entries with
  | nil => simp
  | cons e l ih =>
    obtain ⟨k, v⟩ := e
    rw [lookup_cons_eq_ite, List.map_cons, List.mem_cons, not_or, ← ih]
    by_cases h : key = k <;> simp [h]

end Properties

end CollectionLoops
