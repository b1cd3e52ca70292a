import CollectionLoops.Proofs.Agreement
import Mathlib.Data.Set.Insert

/-!
What can be reached in a store. A set of values is closed if it has what is inside each container of
it; the reachable values are the least closed set that has the known ones. Main statement: a write to
a container of a closed set, and a new container, leave all others as they were, and the set together
with what is new is closed again.
-/
namespace CollectionLoops

theorem Properties.mem_values_of_get? {p : Properties} {key : String} {v : Value}
    (h : p.get? key = some v) : v ∈ p.entries.map Prod.snd := by
  obtain ⟨l₁, l₂, hentries, -⟩ := List.lookup_eq_some_iff.1 h
  rw [hentries]
  simp

/-- What stands for a missing value is no container. -/
theorem Value.mem_of_eq_getD {o : Option Value} {v : Value} (hv : v = o.getD .undefined)
    (hcontainer : v.isContainer) : v ∈ o := by
  cases o with
  | none =>
    rw [hv] at hcontainer
    cases hcontainer
  | some u => exact congrArg some hv.symm

namespace Store

/-- Whether a value is to be had from known ones. What is no container is to be had everywhere. -/
inductive Reaches (s : Store) (known : Set Value) : Value → Prop
  | plain {v} (hv : v.isContainer = false) : Reaches s known v
  | known {v} (hv : v ∈ known) : Reaches s known v
  | inside {u v} (hu : Reaches s known u) (hv : v ∈ s.children u) : Reaches s known v

def reachable (s : Store) (known : Set Value) : Set Value := {v | s.Reaches known v}

/-- A set of values in the store that has, with each container, what is inside. -/
structure Closed (s : Store) (P : Set Value) : Prop where
  plain : ∀ v, v.isContainer = false → v ∈ P
  contains : ∀ v ∈ P, s.Contains v
  inside : ∀ u ∈ P, ∀ v ∈ s.children u, v ∈ P

/-- A set of values together with the containers that a later store has more. -/
def grown (s : Store) (P : Set Value) (s' : Store) : Set Value :=
  {v | v ∈ P ∨ ¬ s.Contains v ∧ s'.Contains v}

/-- Whether a store may have become another one through what a set of values gives access to: no
container is gone, those out of reach are as they were, and in those within reach, and in the new ones,
there is nothing from out of reach. -/
structure Evolves (s : Store) (P : Set Value) (s' : Store) : Prop where
  contains : ∀ v, s.Contains v → s'.Contains v
  keeps : ∀ v, s.Contains v → v ∉ P → s.Agree s' v
  closed : s'.Closed (s.grown P s')

/-- Whether two stores cannot be told apart through a set of values. -/
structure SameOn (P : Set Value) (s t : Store) : Prop where
  contains : ∀ v, s.Contains v ↔ t.Contains v
  agree : ∀ v ∈ P, s.Agree t v

/-- Whether a store is another one but for one container, which it may have more. -/
structure Edited (s : Store) (c : Value) (s' : Store) : Prop where
  contains : ∀ v, s'.Contains v ↔ s.Contains v ∨ v = c
  keeps : ∀ v, s.Contains v → v ≠ c → s.Agree s' v

variable {s s' s'' t t' : Store} {P Q known : Set Value} {c u v : Value}

theorem contains_of_not_isContainer (s : Store) (hv : v.isContainer = false) : s.Contains v := by
  cases v with
  | array r | object r => cases hv
  | _ => exact trivial

theorem Agree.symm (h : s.Agree s' v) : s'.Agree s v := by
  cases v <;> simp_all [Agree]

theorem Agree.children_eq (h : s.Agree s' v) : s.children v = s'.children v := by
  cases v <;> simp_all [Agree, children]

theorem Closed.mem (hP : s.Closed P) (h : v.isContainer → v ∈ P) : v ∈ P := by
  cases hv : v.isContainer with
  | true => exact h hv
  | false => exact hP.plain v hv

theorem mem_children_of_get? {r : ObjectRef} {key : String} (h : (s.properties r).get? key = some v) :
    v ∈ s.children (.object r) := Properties.mem_values_of_get? h

/-- An element of what is in a closed set is in it, and so is the undefined one. -/
theorem Closed.element_mem (hP : s.Closed P) (hv : v ∈ P) (i : UInt64) : s.element v i ∈ P := by
  cases v with
  | array r =>
    cases hitem : (s.items r)[i.toNat]? with
    | none =>
      rw [element, hitem]
      exact hP.plain _ rfl
    | some u =>
      rw [element, hitem]
      exact hP.inside _ hv u (Array.mem_toList_iff.2 (Array.mem_of_getElem? hitem))
  | object r =>
    cases hproperty : (s.properties r).get? (IndexKey.ofIndex i) with
    | none =>
      rw [element, hproperty]
      exact hP.plain _ rfl
    | some u =>
      rw [element, hproperty]
      exact hP.inside _ hv u (mem_children_of_get? hproperty)
  | _ => exact hP.plain _ rfl

theorem Closed.of_agree (hP : s.Closed P) (hcontains : ∀ v, s.Contains v → s'.Contains v)
    (hagree : ∀ v ∈ P, s.Agree s' v) : s'.Closed P where
  plain := hP.plain
  contains v hv := hcontains v (hP.contains v hv)
  inside u hu v hv := by
    rw [← (hagree u hu).children_eq] at hv
    exact hP.inside u hu v hv

section Reachable

theorem subset_reachable (s : Store) (known : Set Value) : known ⊆ s.reachable known :=
  fun _ => Reaches.known

theorem closed_reachable (h : ∀ v ∈ s.reachable known, s.Contains v) :
    s.Closed (s.reachable known) where
  plain _ := Reaches.plain
  contains := h
  inside _ hu _ := Reaches.inside hu

/-- The reachable values are in every closed set that has the known ones. -/
theorem Closed.reachable_subset (hP : s.Closed P) (hknown : known ⊆ P) : s.reachable known ⊆ P := by
  intro v hv
  induction hv with
  | plain hv => exact hP.plain _ hv
  | known hv => exact hknown hv
  | inside _ hv ih => exact hP.inside _ ih _ hv

end Reachable

section Grown

theorem subset_grown (s : Store) (P : Set Value) (s' : Store) : P ⊆ s.grown P s' := fun _ => .inl

theorem grown_self (s : Store) (P : Set Value) : s.grown P s = P := by
  ext v
  simp [grown]

theorem grown_grown (h : ∀ v, s.Contains v → s'.Contains v)
    (h' : ∀ v, s'.Contains v → s''.Contains v) : s'.grown (s.grown P s') s'' = s.grown P s'' := by
  ext v
  have := h v
  have := h' v
  simp only [grown, Set.mem_ofPred_eq]
  grind

theorem mem_grown_iff (hv : s.Contains v) : v ∈ s.grown P s' ↔ v ∈ P := by
  simp [grown, hv]

end Grown

namespace Evolves

theorem refl (hP : s.Closed P) : s.Evolves P s where
  contains _ := id
  keeps v _ _ := .refl s v
  closed := by rwa [grown_self]

theorem trans (h : s.Evolves P s') (h' : s'.Evolves (s.grown P s') s'') : s.Evolves P s'' where
  contains v hv := h'.contains v (h.contains v hv)
  keeps v hv hP :=
    (h.keeps v hv hP).trans (h'.keeps v (h.contains v hv) ((mem_grown_iff hv).not.2 hP))
  closed := by
    rw [← grown_grown h.contains h'.contains]
    exact h'.closed

/-- What goes through some values of a closed set goes through the set. -/
theorem mono (h : s.Evolves P s') (hPQ : P ⊆ Q) (hQ : s.Closed Q) : s.Evolves Q s' where
  contains := h.contains
  keeps v hv hvQ := h.keeps v hv fun hvP => hvQ (hPQ hvP)
  closed := by
    have hle : s.grown P s' ⊆ s.grown Q s' := fun v hv => hv.imp (hPQ ·) id
    refine ⟨fun v hv => .inl (hQ.plain v hv), fun v hv => ?_, fun u hu v hv => ?_⟩
    · rcases hv with hv | hv
      · exact h.contains v (hQ.contains v hv)
      · exact hv.2
    · by_cases hgrown : u ∈ s.grown P s'
      · exact hle (h.closed.inside u hgrown v hv)
      · have huQ : u ∈ Q := hu.resolve_right fun hnew => hgrown (.inr hnew)
        have hagree := h.keeps u (hQ.contains u huQ) fun huP => hgrown (.inl huP)
        rw [← hagree.children_eq] at hv
        exact .inl (hQ.inside u huQ v hv)

end Evolves

namespace SameOn

theorem mono (h : s.SameOn P t) (hQP : Q ⊆ P) : s.SameOn Q t :=
  ⟨h.contains, fun v hv => h.agree v (hQP hv)⟩

theorem closed (h : s.SameOn P t) (hP : s.Closed P) : t.Closed P :=
  hP.of_agree (fun v => (h.contains v).1) h.agree

theorem arrays_size_eq (h : s.SameOn P t) : s.arrays.size = t.arrays.size := by
  have hs := (h.contains (.array ⟨t.arrays.size⟩)).not
  have ht := (h.contains (.array ⟨s.arrays.size⟩)).not
  simp only [Contains] at hs ht
  omega

theorem objects_size_eq (h : s.SameOn P t) : s.objects.size = t.objects.size := by
  have hs := (h.contains (.object ⟨t.objects.size⟩)).not
  have ht := (h.contains (.object ⟨s.objects.size⟩)).not
  simp only [Contains] at hs ht
  omega

theorem size_eq (h : s.SameOn P t) : s.size = t.size := by
  rw [size, size, h.arrays_size_eq, h.objects_size_eq]

end SameOn

namespace Edited

theorem evolves (h : s.Edited c s') (hP : s.Closed P) (hc : s.Contains c → c ∈ P)
    (hinside : ∀ v ∈ s'.children c, v ∈ P) : s.Evolves P s' where
  contains v hv := (h.contains v).2 (.inl hv)
  keeps v hv hvP := h.keeps v hv fun hvc => hvP (hvc ▸ hc (hvc ▸ hv))
  closed := by
    refine ⟨fun v hv => .inl (hP.plain v hv), fun v hv => ?_, fun u hu v hv => .inl ?_⟩
    · rcases hv with hv | hv
      · exact (h.contains v).2 (.inl (hP.contains v hv))
      · exact hv.2
    · by_cases huc : u = c
      · exact hinside v (huc ▸ hv)
      -- what is new is the one container
      · have huP : u ∈ P :=
          hu.resolve_right fun hnew => hnew.1 (((h.contains u).1 hnew.2).resolve_right huc)
        rw [← (h.keeps u (hP.contains u huP) huc).children_eq] at hv
        exact hP.inside u huP v hv

theorem sameOn (h : s.Edited c s') (h' : t.Edited c t') (hP : s.Closed P) (hst : s.SameOn P t)
    (hc : s'.Agree t' c) : s'.SameOn (s.grown P s') t' where
  contains v := by rw [h.contains, h'.contains, hst.contains]
  agree v hv := by
    by_cases hvc : v = c
    · exact hvc ▸ hc
    · have hvP : v ∈ P :=
        hv.resolve_right fun hnew => hnew.1 (((h.contains v).1 hnew.2).resolve_right hvc)
      have hs := h.keeps v (hP.contains v hvP) hvc
      have ht := h'.keeps v ((hst.contains v).1 (hP.contains v hvP)) hvc
      exact hs.symm.trans ((hst.agree v hvP).trans ht)

end Edited

section Edits

theorem edited_newArray (s : Store) (vs : Array Value) :
    s.Edited (.array ⟨s.arrays.size⟩) (s.newArray vs).2 where
  contains v := by
    cases v with
    | array r =>
      obtain ⟨i⟩ := r
      simp only [Contains, newArray, Array.size_push, Nat.lt_succ_iff_lt_or_eq, Value.array.injEq,
        ArrayRef.mk.injEq]
    | _ => simp [Contains, newArray]
  keeps _ _ hne := agree_newArray vs fun h => absurd h hne

theorem edited_newObject (s : Store) (p : Properties) :
    s.Edited (.object ⟨s.objects.size⟩) (s.newObject p).2 where
  contains v := by
    cases v with
    | object r =>
      obtain ⟨i⟩ := r
      simp only [Contains, newObject, Array.size_push, Nat.lt_succ_iff_lt_or_eq, Value.object.injEq,
        ObjectRef.mk.injEq]
    | _ => simp [Contains, newObject]
  keeps v _ hne := by
    cases v with
    | object r =>
      obtain ⟨i⟩ := r
      have hi : i ≠ s.objects.size := fun h => hne (by rw [h])
      exact ((properties_newObject s p ⟨i⟩).trans (if_neg hi)).symm
    | _ => simp [Agree]

variable {r : ArrayRef} {o : ObjectRef}

theorem edited_updateArray (f : Array Value → Array Value) (hr : s.Contains (.array r)) :
    s.Edited (.array r) (s.updateArray r f) where
  contains _ := contains_updateArray.trans ⟨.inl, fun h => h.elim id fun h => h ▸ hr⟩
  keeps _ _ hne := agree_updateArray f hne

theorem edited_updateObject (f : Properties → Properties) (ho : s.Contains (.object o)) :
    s.Edited (.object o) (s.updateObject o f) where
  contains v := by
    have hsame : (s.updateObject o f).Contains v ↔ s.Contains v := by
      cases v <;> simp [Contains, updateObject]
    exact hsame.trans ⟨.inl, fun h => h.elim id fun h => h ▸ ho⟩
  keeps v _ hne := by
    cases v with
    | object o' =>
      have ho : o' ≠ o := fun h => hne (by rw [h])
      exact (properties_updateObject_of_ne s f ho).symm
    | _ => simp [Agree]

end Edits

end Store

end CollectionLoops
