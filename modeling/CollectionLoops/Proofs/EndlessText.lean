import CollectionLoops.Proofs.StructuralEquality
import CollectionLoops.Store.Text

/-!
Which values have a text. A container is written with everything in it, so that one that is inside
itself would be written again and again. Main statement: exactly the values that lead to such a container
have no quoted text; the levels that a text may go down suffice for all others.
-/
namespace CollectionLoops

section MapM

variable {α β : Type} {l : List α} {f g : α → Option β}

theorem mapM_congr (h : ∀ a ∈ l, f a = g a) : l.mapM f = l.mapM g := by
  induction l with
  | nil => rfl
  | cons a l ih =>
    rw [List.mapM_cons, List.mapM_cons, h a List.mem_cons_self,
      ih fun b hb => h b (List.mem_cons_of_mem a hb)]

theorem isSome_mapM : (l.mapM f).isSome ↔ ∀ a ∈ l, (f a).isSome := by
  induction l with
  | nil => simp
  | cons a l ih =>
    rw [List.mapM_cons, List.forall_mem_cons, ← ih]
    cases f a <;> cases l.mapM f <;> simp

end MapM

namespace Store

/-- Whether a value is a container that is inside itself, or has one in it at whatever depth. -/
def LeadsToCycle (s : Store) (v : Value) : Prop :=
  ∃ u, Relation.ReflTransGen (fun u v => u ∈ s.children v) u v ∧
    Relation.TransGen (fun u v => u ∈ s.children v) u u

variable {s : Store} {v u : Value} {depth : Nat}

theorem LeadsToCycle.of_mem_children (hu : s.LeadsToCycle u) (h : u ∈ s.children v) :
    s.LeadsToCycle v := by
  obtain ⟨c, hpath, hcycle⟩ := hu
  exact ⟨c, hpath.tail h, hcycle⟩

theorem LeadsToCycle.exists_mem_children (hv : s.LeadsToCycle v) :
    ∃ u ∈ s.children v, s.LeadsToCycle u := by
  obtain ⟨c, hpath, hcycle⟩ := hv
  rcases hpath.cases_tail with rfl | ⟨u, hpath, hu⟩
  · obtain ⟨u, hback, hu⟩ := Relation.TransGen.tail'_iff.1 hcycle
    exact ⟨u, hu, v, hback, hcycle⟩
  · exact ⟨u, hu, c, hpath, hcycle⟩

theorem level_lt_of_not_leadsToCycle (hv : ¬ s.LeadsToCycle v) (hu : u ∈ s.children v) :
    s.level u < s.level v :=
  level_lt_of_not_inside_itself (fun hcycle => hv ⟨v, .refl, hcycle⟩) hu

/-- A container has a text if all that it holds has one through one level less. -/
theorem isSome_quotedWithin?_succ :
    (s.quotedWithin? (fun _ => false) (depth + 1) v).isSome ↔
      ∀ u ∈ s.children v, (s.quotedWithin? (fun _ => false) depth u).isSome := by
  cases v with
  | array r =>
    rw [quotedWithin?, if_neg Bool.false_ne_true, Option.isSome_map, isSome_mapM]
    rfl
  | object r =>
    rw [quotedWithin?, if_neg Bool.false_ne_true, Option.isSome_map, isSome_mapM]
    simp only [Option.isSome_map, children, List.forall_mem_map]
  | _ =>
    rw [quotedWithin?_of_not_isContainer s _ _ rfl]
    exact iff_of_true rfl fun u hu => absurd hu List.not_mem_nil

theorem isSome_quotedWithin?_of_level_lt (hv : ¬ s.LeadsToCycle v) (hdepth : s.level v < depth) :
    (s.quotedWithin? (fun _ => false) depth v).isSome := by
  induction depth generalizing v with
  | zero => exact absurd hdepth (Nat.not_lt_zero _)
  | succ depth ih =>
    refine isSome_quotedWithin?_succ.2 fun u hu => ih (fun h => hv (h.of_mem_children hu)) ?_
    exact Nat.lt_of_lt_of_le (level_lt_of_not_leadsToCycle hv hu) (Nat.le_of_lt_succ hdepth)

theorem LeadsToCycle.quotedWithin?_eq_none (hv : s.LeadsToCycle v) (depth : Nat) :
    s.quotedWithin? (fun _ => false) depth v = none := by
  induction depth generalizing v with
  | zero =>
    have hcontainer : v.isContainer := by
      obtain ⟨u, hu, -⟩ := hv.exists_mem_children
      cases v <;> first | rfl | cases hu
    simp [quotedWithin?, hcontainer]
  | succ depth ih =>
    obtain ⟨u, hu, hcycle⟩ := hv.exists_mem_children
    by_contra hsome
    have hchildren := isSome_quotedWithin?_succ.1 (Option.isSome_iff_ne_none.2 hsome) u hu
    rw [ih hcycle] at hchildren
    cases hchildren

/-- A value has no quoted text exactly if it leads to a container inside itself. -/
theorem quotedText?_eq_none_iff : s.quotedText? v = none ↔ s.LeadsToCycle v := by
  rw [quotedText?, Option.map_eq_none_iff]
  refine ⟨fun hnone => ?_, fun hv => hv.quotedWithin?_eq_none _⟩
  by_contra hv
  have hsome := isSome_quotedWithin?_of_level_lt hv (Nat.lt_succ_of_le (s.level_le_size v))
  rw [hnone] at hsome
  cases hsome

/-- An array that holds itself has no text. -/
example : quotedText? ⟨#[#[.array ⟨0⟩]], #[]⟩ (.array ⟨0⟩) = none := by rfl

end Store

end CollectionLoops
