import CollectionLoops.Proofs.Reachability
import CollectionLoops.Proofs.StrictEquality
import CollectionLoops.Store.Equality

/-!
The laws of structural equality. In a store without reference cycles a container has fewer containers
in it than the one it stands in, so that a comparison comes to an end. Main statement: in such a store
structural equality is symmetric and transitive, only NaN is not equal to itself, and two objects are
equal exactly if they are the same one or have equal values under the same keys.
-/
namespace CollectionLoops

section Rel

variable {α : Type} {R R' : α → α → Prop} {o o' : Option α}

theorem rel_congr (h : ∀ a ∈ o, ∀ b, R a b ↔ R' a b) : Option.Rel R o o' ↔ Option.Rel R' o o' := by
  constructor
  · intro hrel
    cases hrel with
    | none => exact .none
    | some hab => exact .some ((h _ rfl _).1 hab)
  · intro hrel
    cases hrel with
    | none => exact .none
    | some hab => exact .some ((h _ rfl _).2 hab)

theorem eq_none_iff_of_rel (hrel : Option.Rel R o o') : o = none ↔ o' = none := by
  cases hrel <;> simp

theorem rel_symm (h : ∀ a ∈ o, ∀ b, R a b → R b a) (hrel : Option.Rel R o o') :
    Option.Rel R o' o := by
  cases hrel with
  | none => exact .none
  | some hab => exact .some (h _ rfl _ hab)

theorem rel_trans {o'' : Option α} (h : ∀ a ∈ o, ∀ b c, R a b → R b c → R a c)
    (hrel : Option.Rel R o o') (hrel' : Option.Rel R o' o'') : Option.Rel R o o'' := by
  cases hrel with
  | none => exact hrel'
  | some hab =>
    cases hrel' with
    | some hbc => exact .some (h _ rfl _ _ hab hbc)

/-- Lists of one length are related item by item if they are related place by place. -/
theorem forall_rel_getElem?_iff {l l' : List α} :
    (∀ i : Nat, Option.Rel R l[i]? l'[i]?) ↔ List.Forall₂ R l l' := by
  constructor
  · intro h
    induction l generalizing l' with
    | nil =>
      cases l' with
      | nil => exact .nil
      | cons b l' => cases h 0
    | cons a l ih =>
      cases l' with
      | nil => cases h 0
      | cons b l' =>
        cases h 0 with
        | some hab => exact .cons hab (ih fun i => h (i + 1))
  · intro h
    induction h with
    | nil => exact fun i => .none
    | cons hab _ ih =>
      intro i
      cases i with
      | zero => exact .some hab
      | succ i => exact ih i

end Rel

section AllM

variable {α : Type} {l : List α} {f : α → Option Bool}

theorem allM_eq_some_true_iff : l.allM f = some true ↔ ∀ a ∈ l, f a = some true := by
  induction l with
  | nil => simp [List.allM]
  | cons a l ih =>
    rw [List.allM, List.forall_mem_cons, ← ih]
    rcases f a with _ | _ | _ <;> simp

theorem exists_allM_eq_some (h : ∀ a ∈ l, ∃ b, f a = some b) : ∃ b, l.allM f = some b := by
  induction l with
  | nil => exact ⟨true, rfl⟩
  | cons a l ih =>
    obtain ⟨b, hb⟩ := h a List.mem_cons_self
    obtain ⟨c, hc⟩ := ih fun a' ha' => h a' (List.mem_cons_of_mem a ha')
    rw [List.allM, hb]
    cases b with
    | false => exact ⟨false, rfl⟩
    | true => exact ⟨c, hc⟩

end AllM

namespace Properties

variable {p q : Properties} {key : String} {v : Value} {R : Value → Value → Prop}

theorem mem_entries_iff : (key, v) ∈ p.entries ↔ p.get? key = some v := by
  obtain ⟨l, hl⟩ := p
  simp only [get?]
  induction l with
  | nil => simp
  | cons e l ih =>
    obtain ⟨k, u⟩ := e
    rw [List.map_cons, List.nodup_cons] at hl
    rw [lookup_cons_eq_ite, List.mem_cons, ih hl.2]
    by_cases hk : key = k
    · subst hk
      have habsent : l.lookup key ≠ some v := by
        intro h
        exact hl.1 (List.mem_map.2 ⟨(key, v), (ih hl.2).2 h, rfl⟩)
      simp [habsent, eq_comm]
    · simp [hk]

theorem length_keys (p : Properties) : p.keys.length = p.size := List.length_map ..

/-- Of two objects with as many properties, none has a key more than the other if one has all keys of
the other. -/
theorem keys_perm (hsize : p.size = q.size) (h : p.keys ⊆ q.keys) : p.keys.Perm q.keys := by
  have hlength : q.keys.length ≤ p.keys.length := by rw [length_keys, length_keys, hsize]
  exact (p.nodup.subperm h).perm_of_length_le hlength

/-- A comparison that counts the properties and looks up each key of one object in the other finds
the same as one that looks up every key in both. -/
theorem size_eq_and_forall_entries_iff :
    (p.size = q.size ∧ ∀ e ∈ p.entries, ∃ w, q.get? e.1 = some w ∧ R e.2 w) ↔
      ∀ k, Option.Rel R (p.get? k) (q.get? k) := by
  constructor
  · rintro ⟨hsize, h⟩ k
    have hkeys : p.keys ⊆ q.keys := by
      intro k hk
      obtain ⟨e, he, rfl⟩ := List.mem_map.1 hk
      obtain ⟨w, hw, -⟩ := h e he
      by_contra habsent
      rw [get?_eq_none_iff.2 habsent] at hw
      cases hw
    cases hv : p.get? k with
    | none =>
      have habsent : k ∉ q.keys := by
        rw [← (keys_perm hsize hkeys).mem_iff]
        exact get?_eq_none_iff.1 hv
      rw [get?_eq_none_iff.2 habsent]
      exact .none
    | some v =>
      obtain ⟨w, hw, hvw⟩ := h (k, v) (mem_entries_iff.2 hv)
      rw [hw]
      exact .some hvw
  · intro h
    have hkeys (k : String) : k ∈ p.keys ↔ k ∈ q.keys := by
      rw [← not_iff_not, ← get?_eq_none_iff, ← get?_eq_none_iff]
      exact eq_none_iff_of_rel (h k)
    refine ⟨?_, fun e he => ?_⟩
    · rw [← length_keys, ← length_keys]
      exact ((List.perm_ext_iff_of_nodup p.nodup q.nodup).2 hkeys).length_eq
    · have hrel := h e.1
      rw [mem_entries_iff.1 he] at hrel
      cases hw : q.get? e.1 with
      | none =>
        rw [hw] at hrel
        cases hrel
      | some w =>
        rw [hw] at hrel
        cases hrel with
        | some hvw => exact ⟨w, rfl, hvw⟩

/-- Two objects have related values under every key if they have the same keys and related values
under each of them. -/
theorem forall_rel_get?_iff :
    (∀ k, Option.Rel R (p.get? k) (q.get? k)) ↔ (∀ k, k ∈ p.keys ↔ k ∈ q.keys) ∧
      ∀ k v w, p.get? k = some v → q.get? k = some w → R v w := by
  have hmem (p : Properties) (k : String) : k ∈ p.keys ↔ p.get? k ≠ none := by
    rw [Ne, get?_eq_none_iff, not_not]
  simp only [hmem]
  constructor
  · refine fun h => ⟨fun k => (eq_none_iff_of_rel (h k)).not, fun k v w hv hw => ?_⟩
    · have hrel := h k
      rw [hv, hw] at hrel
      cases hrel with
      | some hvw => exact hvw
  · rintro ⟨hkeys, h⟩ k
    cases hv : p.get? k with
    | none =>
      have hw : q.get? k = none := by simpa [hv] using hkeys k
      rw [hw]
      exact .none
    | some v =>
      obtain ⟨w, hw⟩ : ∃ w, q.get? k = some w := by
        rw [← Option.ne_none_iff_exists', ← hkeys, hv]
        simp
      rw [hw]
      exact .some (h k v w hv hw)

end Properties

namespace Store

/-- Whether no value is inside itself, at whatever depth. -/
def Acyclic (s : Store) : Prop := ∀ v, ¬ Relation.TransGen (fun u v => u ∈ s.children v) v v

/-- What goes down from every container to what is inside cannot go around. -/
theorem acyclic_of_rank {s : Store} (rank : Value → Nat)
    (h : ∀ v, ∀ u ∈ s.children v, rank u < rank v) : s.Acyclic := by
  have hrank {u v : Value} (hpath : Relation.TransGen (fun u v => u ∈ s.children v) u v) :
      rank u < rank v := by
    induction hpath with
    | single hu => exact h _ _ hu
    | tail _ hu ih => exact Nat.lt_trans ih (h _ _ hu)
  intro v hcycle
  exact Nat.lt_irrefl _ (hrank hcycle)

section Level

open Classical

variable {s : Store} {u v : Value}

/-- The containers of a store. -/
def containers (s : Store) : Finset Value :=
  (Finset.range s.arrays.size).image (fun i => .array ⟨i⟩) ∪
    (Finset.range s.objects.size).image fun i => .object ⟨i⟩

theorem card_containers_le (s : Store) : s.containers.card ≤ s.size := by
  apply (Finset.card_union_le _ _).trans
  apply Nat.add_le_add
  · exact Finset.card_image_le.trans (Finset.card_range _).le
  · exact Finset.card_image_le.trans (Finset.card_range _).le

/-- What has anything inside is a container of the store. -/
theorem mem_containers_of_mem_children (h : u ∈ s.children v) : v ∈ s.containers := by
  unfold containers
  cases v with
  | array r =>
    have hr : r.index < s.arrays.size := by
      by_contra hr
      rw [children, items_eq_empty (Nat.le_of_not_lt hr)] at h
      cases h
    exact Finset.mem_union_left _ (Finset.mem_image.2 ⟨r.index, Finset.mem_range.2 hr, rfl⟩)
  | object r =>
    have hr : r.index < s.objects.size := by
      by_contra hr
      rw [children, properties, Array.getElem?_eq_none (Nat.le_of_not_lt hr)] at h
      cases h
    exact Finset.mem_union_right _ (Finset.mem_image.2 ⟨r.index, Finset.mem_range.2 hr, rfl⟩)
  | _ => cases h

/-- How many containers of a store a value leads to, itself among them. -/
noncomputable def level (s : Store) (v : Value) : Nat :=
  (s.containers.filter fun u => Relation.ReflTransGen (fun u v => u ∈ s.children v) u v).card

theorem level_le_size (s : Store) (v : Value) : s.level v ≤ s.size :=
  (Finset.card_filter_le _ _).trans s.card_containers_le

/-- What is directly inside a value that is not inside itself leads to fewer containers. -/
theorem level_lt_of_not_inside_itself (hv : ¬ Relation.TransGen (fun u v => u ∈ s.children v) v v)
    (hu : u ∈ s.children v) : s.level u < s.level v := by
  unfold level
  apply Finset.card_lt_card
  rw [Finset.ssubset_iff_of_subset]
  · -- the outer value itself is not inside the inner one
    refine ⟨v, Finset.mem_filter.2 ⟨mem_containers_of_mem_children hu, .refl⟩, fun hmem => ?_⟩
    have hpath := (Finset.mem_filter.1 hmem).2
    exact hv (.tail' hpath hu)
  · intro t ht
    obtain ⟨ht, hpath⟩ := Finset.mem_filter.1 ht
    exact Finset.mem_filter.2 ⟨ht, hpath.tail hu⟩

theorem level_lt_of_mem_children (hs : s.Acyclic) (hu : u ∈ s.children v) :
    s.level u < s.level v := level_lt_of_not_inside_itself (hs v) hu

end Level

/-- Where a container keeps a value. -/
inductive Place
  | index (i : Nat)
  | key (k : String)

def part? (s : Store) : Value → Place → Option Value
  | .array r, .index i => (s.items r)[i]?
  | .object r, .key k => (s.properties r).get? k
  | _, _ => none

/-- Whether two values are containers of one kind. -/
def SameKind : Value → Value → Prop
  | .array _, .array _ | .object _, .object _ => True
  | _, _ => False

/-- Whether two values are containers of one kind that keep related values at the same places. -/
def SameParts (s : Store) (R : Value → Value → Prop) (v w : Value) : Prop :=
  SameKind v w ∧ ∀ p, Option.Rel R (s.part? v p) (s.part? w p)

theorem SameKind.symm {v w : Value} (h : SameKind v w) : SameKind w v := by
  cases v <;> cases w <;> simp_all [SameKind]

theorem SameKind.trans {u v w : Value} (h : SameKind u v) (h' : SameKind v w) : SameKind u w := by
  cases u <;> cases v <;> cases w <;> simp_all [SameKind]

theorem SameKind.ne_number {v w : Value} (h : SameKind v w) (n : Float) : v ≠ .number n := by
  rintro rfl
  exact h

section SameParts

variable {s : Store} {R R' : Value → Value → Prop} {u v w : Value}

theorem mem_children_of_part? {p : Place} (h : s.part? v p = some u) : u ∈ s.children v := by
  cases v with
  | array r =>
    cases p with
    | index i => exact Array.mem_toList_iff.2 (Array.mem_of_getElem? h)
    | key k => cases h
  | object r =>
    cases p with
    | index i => cases h
    | key k => exact mem_children_of_get? h
  | _ => cases h

theorem sameParts_array_iff {a b : ArrayRef} :
    s.SameParts R (.array a) (.array b) ↔
      ∀ i : Nat, Option.Rel R (s.items a)[i]? (s.items b)[i]? := by
  constructor
  · intro h i
    exact h.2 (.index i)
  · intro h
    refine ⟨trivial, fun p => ?_⟩
    cases p with
    | index i => exact h i
    | key k => exact .none

/-- Two arrays keep related values at the same places if they have related items in order. -/
theorem sameParts_array_iff_forall₂ {a b : ArrayRef} :
    s.SameParts R (.array a) (.array b) ↔
      List.Forall₂ R (s.items a).toList (s.items b).toList := by
  rw [sameParts_array_iff]
  simp only [← forall_rel_getElem?_iff, Array.getElem?_toList]

theorem sameParts_object_iff {a b : ObjectRef} :
    s.SameParts R (.object a) (.object b) ↔
      ∀ k, Option.Rel R ((s.properties a).get? k) ((s.properties b).get? k) := by
  constructor
  · intro h k
    exact h.2 (.key k)
  · intro h
    refine ⟨trivial, fun p => ?_⟩
    cases p with
    | index i => exact .none
    | key k => exact h k

theorem sameParts_congr (h : ∀ u ∈ s.children v, ∀ w, R u w ↔ R' u w) :
    s.SameParts R v w ↔ s.SameParts R' v w :=
  and_congr_right' <| forall_congr' fun _ =>
    rel_congr fun u hu => h u (mem_children_of_part? hu)

theorem sameParts_symm (h : ∀ u ∈ s.children v, ∀ w, R u w → R w u) (hvw : s.SameParts R v w) :
    s.SameParts R w v := by
  constructor
  · exact hvw.1.symm
  · intro p
    exact rel_symm (fun u hu => h u (mem_children_of_part? hu)) (hvw.2 p)

theorem sameParts_trans (h : ∀ t ∈ s.children u, ∀ v w, R t v → R v w → R t w)
    (huv : s.SameParts R u v) (hvw : s.SameParts R v w) : s.SameParts R u w := by
  constructor
  · exact huv.1.trans hvw.1
  · intro p
    exact rel_trans (fun t ht => h t (mem_children_of_part? ht)) (huv.2 p) (hvw.2 p)

end SameParts

section Comparison

variable {s : Store} {depth depth' : Nat} {u v w : Value}

theorem equalWithin?_of_not_sameKind (h : ¬ SameKind v w) :
    s.equalWithin? (depth + 1) v w = some (v.strictEquals w) := by
  apply equalWithin?_of_primitive
  · rintro a b rfl rfl
    exact h trivial
  · rintro a b rfl rfl
    exact h trivial

theorem equalWithin?_array_iff {a b : ArrayRef} :
    s.equalWithin? (depth + 1) (.array a) (.array b) = some true ↔ a = b ∨
      s.SameParts (fun v w => s.equalWithin? depth v w = some true) (.array a) (.array b) := by
  rw [sameParts_array_iff_forall₂, List.forall₂_iff_zip, equalWithin?]
  by_cases hab : a = b
  · simp [hab]
  · rw [if_neg hab, or_iff_right hab, Array.length_toList, Array.length_toList]
    by_cases hsize : (s.items a).size = (s.items b).size
    · rw [if_neg (not_not.2 hsize), and_iff_right hsize, allM_eq_some_true_iff, Prod.forall]
    · rw [if_pos hsize]
      simp [hsize]

theorem equalWithin?_object_iff {a b : ObjectRef} :
    s.equalWithin? (depth + 1) (.object a) (.object b) = some true ↔ a = b ∨
      s.SameParts (fun v w => s.equalWithin? depth v w = some true) (.object a) (.object b) := by
  rw [sameParts_object_iff, ← Properties.size_eq_and_forall_entries_iff, equalWithin?]
  by_cases hab : a = b
  · simp [hab]
  · rw [if_neg hab, or_iff_right hab]
    by_cases hsize : (s.properties a).size = (s.properties b).size
    · rw [if_neg (not_not.2 hsize), and_iff_right hsize, allM_eq_some_true_iff]
      apply forall₂_congr
      rintro ⟨k, v⟩ -
      cases hw : (s.properties b).get? k with
      | none => simp [hw]
      | some w => simp [hw]
    · rw [if_pos hsize]
      simp [hsize]

/-- One level of a comparison that comes to the answer yes. -/
theorem equalWithin?_succ_iff :
    s.equalWithin? (depth + 1) v w = some true ↔ v.strictEquals w = true ∨
      s.SameParts (fun v w => s.equalWithin? depth v w = some true) v w := by
  by_cases hkind : SameKind v w
  · cases v with
    | array a =>
      cases w with
      | array b =>
        rw [equalWithin?_array_iff]
        simp [Value.strictEquals]
      | _ => cases hkind
    | object a =>
      cases w with
      | object b =>
        rw [equalWithin?_object_iff]
        simp [Value.strictEquals]
      | _ => cases hkind
    | _ => cases hkind
  · rw [equalWithin?_of_not_sameKind hkind, Option.some_inj]
    exact (or_iff_left fun h => hkind h.1).symm

/-- A comparison comes to an end once it may go deeper than there are containers on the way. -/
theorem exists_equalWithin?_eq_some (hs : s.Acyclic) (hdepth : s.level v < depth) (w : Value) :
    ∃ b, s.equalWithin? depth v w = some b := by
  induction depth generalizing v w with
  | zero => exact absurd hdepth (Nat.not_lt_zero _)
  | succ depth ih =>
    have hinside {u : Value} (hu : u ∈ s.children v) (w : Value) :
        ∃ b, s.equalWithin? depth u w = some b :=
      ih (Nat.lt_of_lt_of_le (level_lt_of_mem_children hs hu) (Nat.le_of_lt_succ hdepth)) w
    by_cases hkind : SameKind v w
    · cases v with
      | array a =>
        cases w with
        | array b =>
          rw [equalWithin?]
          split_ifs
          · exact ⟨true, rfl⟩
          · exact ⟨false, rfl⟩
          · exact exists_allM_eq_some fun e he => hinside (List.of_mem_zip he).1 e.2
        | _ => cases hkind
      | object a =>
        cases w with
        | object b =>
          rw [equalWithin?]
          split_ifs
          · exact ⟨true, rfl⟩
          · exact ⟨false, rfl⟩
          · apply exists_allM_eq_some
            rintro ⟨k, u⟩ he
            cases hw : (s.properties b).get? k with
            | none => simp [hw]
            | some w =>
              simp only [hw]
              exact hinside (List.mem_map_of_mem he) w
        | _ => cases hkind
      | _ => cases hkind
    · exact ⟨_, equalWithin?_of_not_sameKind hkind⟩

/-- Once a comparison may go deep enough, it does not matter how much deeper. -/
theorem equalWithin?_iff_of_level_lt (hs : s.Acyclic) (hdepth : s.level v < depth)
    (hdepth' : s.level v < depth') :
    s.equalWithin? depth v w = some true ↔ s.equalWithin? depth' v w = some true := by
  induction depth generalizing depth' v w with
  | zero => exact absurd hdepth (Nat.not_lt_zero _)
  | succ depth ih =>
    cases depth' with
    | zero => exact absurd hdepth' (Nat.not_lt_zero _)
    | succ depth' =>
      rw [equalWithin?_succ_iff, equalWithin?_succ_iff]
      apply or_congr_right
      apply sameParts_congr
      intro u hu w
      have hlevel := level_lt_of_mem_children hs hu
      exact ih (by omega) (by omega)

theorem level_lt_equalityDepth (s : Store) (v : Value) : s.level v < s.equalityDepth :=
  Nat.lt_succ_of_le ((s.level_le_size v).trans (Nat.le_mul_self s.size))

/-- In a store without cycles every comparison ends, with an answer that no greater depth changes. -/
theorem equalWithin?_eq_some_equal (hs : s.Acyclic) (hdepth : s.equalityDepth ≤ depth)
    (v w : Value) : s.equalWithin? depth v w = some (s.equal v w) := by
  have hlevel := s.level_lt_equalityDepth v
  obtain ⟨b, hb⟩ := exists_equalWithin?_eq_some hs (hlevel.trans_le hdepth) w
  have htrue := equalWithin?_iff_of_level_lt (w := w) hs (hlevel.trans_le hdepth) hlevel
  rw [hb, Option.some_inj, Bool.eq_iff_iff, equal, beq_iff_eq, equal?, ← htrue, hb, Option.some_inj]

theorem equal_iff (hs : s.Acyclic) :
    s.equal v w = true ↔ v.strictEquals w = true ∨
      s.SameParts (fun v w => s.equal v w = true) v w := by
  have hequal (v w : Value) :
      s.equal v w = true ↔ s.equalWithin? s.equalityDepth v w = some true := by
    rw [equal, beq_iff_eq, equal?]
  rw [hequal, equalityDepth, equalWithin?_succ_iff]
  apply or_congr_right
  apply sameParts_congr
  intro u hu w
  rw [hequal]
  -- the parts are compared through one level less, which is still enough
  have hu := level_lt_of_mem_children hs hu
  have hv := s.level_le_size v
  apply equalWithin?_iff_of_level_lt hs _ (s.level_lt_equalityDepth u)
  exact (hu.trans_le hv).trans_le (Nat.le_mul_self s.size)

end Comparison

section Laws

variable {s : Store} {u v w : Value}

theorem equal_symm (hs : s.Acyclic) (h : s.equal v w = true) : s.equal w v = true := by
  induction hn : s.level v using Nat.strong_induction_on generalizing v w with
  | _ n ih =>
    rw [equal_iff hs] at h ⊢
    rcases h with hstrict | hparts
    · exact .inl (Value.strictEquals_symm hstrict)
    · refine .inr (sameParts_symm (fun u hu w huw => ?_) hparts)
      exact ih _ (hn ▸ level_lt_of_mem_children hs hu) huw rfl

theorem equal_trans (hs : s.Acyclic) (huv : s.equal u v = true) (hvw : s.equal v w = true) :
    s.equal u w = true := by
  induction hn : s.level u using Nat.strong_induction_on generalizing u v w with
  | _ n ih =>
    rw [equal_iff hs] at huv hvw ⊢
    rcases huv with hstrict | hparts
    · rcases hvw with hstrict' | hparts'
      · exact .inl (Value.strictEquals_trans hstrict hstrict')
      · obtain rfl := Value.eq_of_strictEquals hstrict hparts'.1.ne_number
        exact .inr hparts'
    · rcases hvw with hstrict' | hparts'
      · obtain rfl := Value.eq_of_strictEquals (Value.strictEquals_symm hstrict')
          hparts.1.symm.ne_number
        exact .inr hparts
      · refine .inr (sameParts_trans (fun t ht v w htv hvw => ?_) hparts hparts')
        exact ih _ (hn ▸ level_lt_of_mem_children hs ht) htv hvw rfl

/-- What is strictly equal to itself is equal to itself, and a value of no container kind is equal to
itself only then. -/
theorem equal_self_iff (hs : s.Acyclic) :
    s.equal v v = true ↔ ∀ n, v = .number n → n.isNaN = false := by
  rw [equal_iff hs, Value.strictEquals_self_iff]
  apply or_iff_left_of_imp
  intro hparts n hn
  exact absurd hn (hparts.1.ne_number n)

theorem equal_eq_strictEquals (h : ¬ SameKind v w) : s.equal v w = v.strictEquals w := by
  rw [equal, equal?, equalityDepth, equalWithin?_of_not_sameKind h, Bool.eq_iff_iff, beq_iff_eq,
    Option.some_inj]

theorem equal_object_iff (hs : s.Acyclic) {a b : ObjectRef} :
    s.equal (.object a) (.object b) = true ↔ a = b ∨
      (∀ k, k ∈ (s.properties a).keys ↔ k ∈ (s.properties b).keys) ∧
        ∀ k v w, (s.properties a).get? k = some v → (s.properties b).get? k = some w →
          s.equal v w = true := by
  rw [equal_iff hs, sameParts_object_iff, Properties.forall_rel_get?_iff]
  simp [Value.strictEquals]

/-- The laws of the two equalities in a store without reference cycles. Every comparison ends, however
deep the values are. Structural equality is symmetric and transitive and fails to be reflexive at NaN
only, not at a container that holds NaN. -/
theorem equality_laws (hs : s.Acyclic) :
    (∀ v w depth, s.equalityDepth ≤ depth → s.equalWithin? depth v w = some (s.equal v w)) ∧
    (∀ v w, s.equal v w = true → s.equal w v = true) ∧
    (∀ u v w, s.equal u v = true → s.equal v w = true → s.equal u w = true) ∧
    (∀ v, s.equal v v = true ↔ ∀ n, v = .number n → n.isNaN = false) ∧
    (∀ v w : Value, v.strictEquals w = true → w.strictEquals v = true) ∧
    (∀ u v w : Value, u.strictEquals v = true → v.strictEquals w = true →
      u.strictEquals w = true) ∧
    (∀ v : Value, v.strictEquals v = true ↔ ∀ n, v = .number n → n.isNaN = false) ∧
    (∀ v w, v.strictEquals w = true → s.equal v w = true) ∧
    (∀ v w, (∀ a b, v = .array a → w ≠ .array b) → (∀ a b, v = .object a → w ≠ .object b) →
      s.equal v w = v.strictEquals w) ∧
    ∀ a b, s.equal (.object a) (.object b) = true ↔ a = b ∨
      (∀ k, k ∈ (s.properties a).keys ↔ k ∈ (s.properties b).keys) ∧
        ∀ k v w, (s.properties a).get? k = some v → (s.properties b).get? k = some w →
          s.equal v w = true := by
  refine ⟨fun v w depth hdepth => equalWithin?_eq_some_equal hs hdepth v w,
    fun v w => equal_symm hs, fun u v w => equal_trans hs, fun v => equal_self_iff hs,
    fun v w => Value.strictEquals_symm, fun u v w => Value.strictEquals_trans,
    fun v => Value.strictEquals_self_iff, fun v w hvw => ?_, fun v w harray hobject => ?_,
    fun a b => equal_object_iff hs⟩
  · rw [equal_iff hs]
    exact .inl hvw
  · apply equal_eq_strictEquals
    intro hkind
    cases v <;> cases w <;> simp_all [SameKind]

/-- An array that holds NaN, and two objects that share it under the same two keys, written in opposite
orders. -/
def crossed : Store where
  arrays := #[#[.number (0 / 0)]]
  objects := #[.ofList [("a", .array ⟨0⟩), ("b", .null)], .ofList [("b", .null), ("a", .array ⟨0⟩)]]

theorem acyclic_crossed : crossed.Acyclic := by
  have harray : crossed.children (.array ⟨0⟩) = [.number (0 / 0)] := by decide
  have hobject : crossed.children (.object ⟨0⟩) = [.array ⟨0⟩, .null] := by decide
  have hobject' : crossed.children (.object ⟨1⟩) = [.null, .array ⟨0⟩] := by decide
  apply acyclic_of_rank fun | .object _ => 2 | .array _ => 1 | _ => 0
  intro v u hu
  cases v with
  | array r =>
    match r with
    | ⟨0⟩ =>
      rw [harray] at hu
      obtain rfl := List.mem_singleton.1 hu
      exact Nat.one_pos
    | ⟨_ + 1⟩ => cases hu
  | object r =>
    have hcases : u = .array ⟨0⟩ ∨ u = .null := by
      match r with
      | ⟨0⟩ => simpa [hobject] using hu
      | ⟨1⟩ => simpa [hobject', or_comm] using hu
      | ⟨_ + 2⟩ => cases hu
    rcases hcases with rfl | rfl
    · exact Nat.one_lt_two
    · exact Nat.two_pos
  | _ => cases hu

theorem equality_laws_crossed :
    crossed.Acyclic ∧ crossed.equal (.object ⟨0⟩) (.object ⟨1⟩) = true ∧
      crossed.equal (.object ⟨1⟩) (.object ⟨0⟩) = true ∧
      crossed.equal (.array ⟨0⟩) (.array ⟨0⟩) = true ∧
      crossed.equal (.number (0 / 0)) (.number (0 / 0)) = false := by
  obtain ⟨-, hsymm, -, hself, -⟩ := equality_laws acyclic_crossed
  have hequal : crossed.equal (.object ⟨0⟩) (.object ⟨1⟩) = true := by decide
  have hnan : Float.isNaN (0 / 0) = true := by decide
  refine ⟨acyclic_crossed, hequal, hsymm _ _ hequal, (hself _).2 fun n hn => ?_, ?_⟩
  · cases hn
  · rw [← Bool.not_eq_true, hself]
    intro h
    rw [h _ rfl] at hnan
    cases hnan

end Laws

end Store

end CollectionLoops
