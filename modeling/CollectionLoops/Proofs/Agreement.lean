import CollectionLoops.Collection

/-!
Stores that agree on a collection: it has the same length and the same elements in both.
-/
namespace CollectionLoops.Store

/-- Whether two stores hold the same in the container behind a value. -/
def Agree (s s' : Store) : Value → Prop
  | .array r => s.items r = s'.items r
  | .object r => s.properties r = s'.properties r
  | _ => True

variable {s s' : Store} {v : Value}

theorem Agree.refl (s : Store) (v : Value) : s.Agree s v := by cases v <;> simp [Agree]

theorem Agree.trans {s₁ s₂ s₃ : Store} (h : s₁.Agree s₂ v) (h' : s₂.Agree s₃ v) : s₁.Agree s₃ v := by
  cases v <;> simp_all [Agree]

theorem Agree.length_eq (h : s.Agree s' v) : s.length v = s'.length v := by
  cases v <;> simp_all [Agree, length]

theorem Agree.element_eq (h : s.Agree s' v) (i : UInt64) : s.element v i = s'.element v i := by
  cases v <;> simp_all [Agree, element]

/-- Only what has no properties cannot be read. -/
theorem isNullish_of_read_eq_error {key : String} {e : Fault}
    (h : s.read v key = .error e) : v.isNullish ∧ e = .unreadable v key := by
  cases v with
  | undefined | null =>
    cases h
    exact ⟨rfl, rfl⟩
  | array r =>
    simp only [read] at h
    split at h <;> cases h
  | _ => cases h

theorem agree_updateArray {r : ArrayRef} (f : Array Value → Array Value) (h : v ≠ .array r) :
    s.Agree (s.updateArray r f) v := by
  cases v with
  | array r' =>
    have hr : r' ≠ r := fun e => h (e ▸ rfl)
    exact (items_updateArray_of_ne s f hr).symm
  | _ => simp [Agree]

theorem contains_updateArray {r : ArrayRef} {f : Array Value → Array Value} :
    (s.updateArray r f).Contains v ↔ s.Contains v := by
  cases v <;> simp [Contains, updateArray]

theorem agree_setItem {r : ArrayRef} (i : Nat) (u : Value) (h : v ≠ .array r) :
    s.Agree (s.setItem r i u) v := agree_updateArray _ h

theorem agree_push {r : ArrayRef} (u : Value) (h : v ≠ .array r) : s.Agree (s.push r u) v :=
  agree_updateArray _ h

theorem items_eq_empty {r : ArrayRef} (h : s.arrays.size ≤ r.index) : s.items r = #[] := by
  rw [items, Array.getElem?_eq_none h]
  rfl

theorem length_array_of_size_le (s : Store) (r : ArrayRef) (h : s.arrays.size ≤ r.index) :
    s.length (.array r) = 0 := by
  rw [length, items_eq_empty h]
  rfl

/-- What has elements is not the array that is made next. -/
theorem ne_array_of_length_ne_zero (h : s.length v ≠ 0) : v ≠ .array ⟨s.arrays.size⟩ := by
  rintro rfl
  exact h (s.length_array_of_size_le ⟨s.arrays.size⟩ (Nat.le_refl _))

/-- What is no object has no element if it has no length. -/
theorem element_of_length_eq_zero (s : Store) {v : Value} (hlength : s.length v = 0)
    (hobject : ∀ o, v ≠ .object o) (i : UInt64) : s.element v i = .undefined := by
  cases v with
  | array r =>
    have hsize : (s.items r).size = 0 := by
      have hzero : (UInt64.ofNatClamp (s.items r).size).toNat = 0 := congrArg UInt64.toNat hlength
      rcases Nat.lt_or_ge (s.items r).size UInt64.size with hlt | hle
      · rwa [UInt64.toNat_ofNatClamp_of_lt hlt] at hzero
      · rw [UInt64.toNat_ofNatClamp_of_le hle] at hzero
        cases hzero
    rw [element, Array.eq_empty_of_size_eq_zero hsize]
    rfl
  | object r => exact absurd rfl (hobject r)
  | _ => rfl

/-- A new array changes no collection. If the reference to it was about before the array was there,
it was to no item, so that only an array as empty as this may come to its place. -/
theorem agree_newArray (vs : Array Value)
    (h : v = .array ⟨s.arrays.size⟩ → vs = #[]) : s.Agree (s.newArray vs).2 v := by
  cases v with
  | array r =>
    obtain ⟨i⟩ := r
    change s.items _ = (s.newArray vs).2.items _
    rw [items_newArray]
    split
    · next hi =>
      subst hi
      rw [h rfl]
      exact items_eq_empty (Nat.le_refl _)
    · rfl
  | _ => simp [Agree]

theorem agree_newArray_replicate (s : Store) (v u : Value) :
    s.Agree (s.newArray (Array.replicate (s.length v).toNat u)).2 v := by
  refine agree_newArray _ fun hv => ?_
  rw [hv, s.length_array_of_size_le ⟨s.arrays.size⟩ (Nat.le_refl _)]
  rfl

end CollectionLoops.Store
