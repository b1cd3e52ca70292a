import CollectionLoops.Proofs.Agreement
import CollectionLoops.Proofs.IndexNumber

/-!
Objects that are like arrays: each value is written under the text of its index, and then their
number under `length`. No two indices have the same text, and none has this one. Main statement: as
a collection, such an object is the array of the same values.
-/
namespace CollectionLoops

theorem Properties.ofList_concat (l : List (String × Value)) (key : String) (value : Value) :
    ofList (l ++ [(key, value)]) = (ofList l).insert key value := List.foldl_append

namespace Store

theorem get?_ofList_mapIdx_repr (vs : List Value) (i : Nat) :
    (Properties.ofList (vs.mapIdx fun i v => (i.repr, v))).get? i.repr = vs[i]? := by
  -- values are added at the end, where the index of the new one is the number of those before
  induction vs using List.reverseRecOn with
  | nil => rfl
  | append_singleton vs v ih =>
    rw [List.mapIdx_concat, Properties.ofList_concat, Properties.get?_insert, ih]
    have hrepr (hne : i ≠ vs.length) : i.repr ≠ vs.length.repr := mt Nat.repr_inj.1 hne
    rcases Nat.lt_trichotomy i vs.length with hlt | rfl | hgt
    · rw [if_neg (hrepr (Nat.ne_of_lt hlt)), List.getElem?_append_left hlt]
    · rw [if_pos rfl, List.getElem?_concat_length]
    · have hle : (vs ++ [v]).length ≤ i := by
        rw [List.length_append]
        exact hgt
      rw [if_neg (hrepr (Nat.ne_of_gt hgt)), List.getElem?_eq_none (Nat.le_of_lt hgt),
        List.getElem?_eq_none hle]

theorem get?_arrayLike (vs : List Value) (key : String) :
    (arrayLike vs).get? key =
      if key = "length" then some (.number (UInt64.ofNatClamp vs.length).toFloat)
      else (Properties.ofList (vs.mapIdx fun i v => (i.repr, v))).get? key := by
  rw [arrayLike, Properties.ofList_concat, Properties.get?_insert]
  rfl

/-- The length is written as a number and read back from it. -/
theorem length_of_properties_eq {s : Store} {o : ObjectRef} {vs : List Value}
    (h : s.properties o = arrayLike vs) (hvs : vs.length ≤ 2 ^ 53) :
    s.length (.object o) = .ofNatClamp vs.length := by
  obtain ⟨n, hn⟩ : ∃ n : UInt64, n = .ofNatClamp vs.length := ⟨_, rfl⟩
  have hle : n.toNat ≤ 2 ^ 53 := by
    have hlt : vs.length < UInt64.size := Nat.lt_of_le_of_lt hvs (by decide)
    rw [hn, UInt64.toNat_ofNatClamp_of_lt hlt]
    exact hvs
  have hget : (s.properties o).get? "length" = some (.number n.toFloat) := by
    rw [h, get?_arrayLike, if_pos rfl, hn]
  rw [← hn]
  simp only [length, hget]
  rcases Nat.eq_zero_or_pos n.toNat with hzero | hpos
  · obtain rfl : n = 0 := UInt64.toNat_inj.1 hzero
    decide +kernel
  · rw [IndexNumber.isFinite_toFloat hpos hle, IndexNumber.toUInt64_toFloat hpos hle,
      Bool.true_and, decide_eq_true (IndexNumber.toFloat_pos hpos hle), if_pos rfl]

theorem element_of_properties_eq {s : Store} {o : ObjectRef} {vs : List Value}
    (h : s.properties o = arrayLike vs) (i : UInt64) :
    s.element (.object o) i = vs[i.toNat]?.getD .undefined := by
  rw [element, h, get?_arrayLike, if_neg (ofIndex_ne_length i), IndexKey.ofIndex,
    get?_ofList_mapIdx_repr]

/-- Whether two values are the same collection. -/
structure Alike (s : Store) (v v' : Value) : Prop where
  length : s.length v = s.length v'
  element : ∀ i, s.element v i = s.element v' i

theorem Alike.of_agree {s s' : Store} {v v' : Value} (halike : s.Alike v v') (h : s.Agree s' v)
    (h' : s.Agree s' v') : s'.Alike v v' where
  length := by rw [← h.length_eq, ← h'.length_eq, halike.length]
  element i := by rw [← h.element_eq, ← h'.element_eq, halike.element]

theorem alike_of_properties_eq {s : Store} {a : ArrayRef} {o : ObjectRef} {vs : List Value}
    (ha : s.items a = vs.toArray) (ho : s.properties o = arrayLike vs) (hvs : vs.length ≤ 2 ^ 53) :
    s.Alike (.array a) (.object o) where
  length := by
    rw [length_of_properties_eq ho hvs, length, ha, List.size_toArray]
  element i := by
    rw [element_of_properties_eq ho, element, ha, List.getElem?_toArray]

end Store

end CollectionLoops
