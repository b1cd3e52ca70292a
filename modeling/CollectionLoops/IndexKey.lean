/-!
Property keys that name an index: an optional plus sign and decimal digits, with a value below 2^64.
Main statement: the text of an index is the key of that index.
-/
namespace CollectionLoops.IndexKey

/-- The key under which an index is written: its digits, with no zero in front. -/
def ofIndex (i : UInt64) : String := i.toNat.repr

/-- The index that digits write. No digits write none, and neither does a number that 64 bits cannot
hold; zeros in front do not count. -/
def ofDigits? (ds : List Char) : Option UInt64 :=
  if ds ≠ [] ∧ ds.all Char.isDigit then
    let n := Nat.ofDigitChars 10 ds 0
    if h : n < UInt64.size then some (UInt64.ofNatLT n h) else none
  else none

/-- The index that a key names, if it names one. -/
def index? (key : String) : Option UInt64 :=
  match key.toList with
  | '+' :: ds => ofDigits? ds
  | ds => ofDigits? ds

theorem ofDigits?_eq_some_iff {ds : List Char} {i : UInt64} :
    ofDigits? ds = some i ↔
      ds ≠ [] ∧ (∀ c ∈ ds, c.isDigit) ∧ Nat.ofDigitChars 10 ds 0 = i.toNat := by
  have hi := i.toNat_lt
  simp only [ofDigits?, List.all_eq_true]
  constructor
  · intro h
    split at h
    · rename_i hd
      split at h
      · rename_i hn
        obtain rfl := Option.some.inj h
        exact ⟨hd.1, hd.2, by simp⟩
      · simp at h
    · simp at h
  · rintro ⟨hne, hd, hv⟩
    rw [if_pos ⟨hne, hd⟩, dif_pos (by rw [hv]; exact hi)]
    exact congrArg some (UInt64.toNat_inj.1 (by simp [hv]))

@[simp] theorem index?_ofIndex (i : UInt64) : index? (ofIndex i) = some i := by
  have hd (c : Char) : c ∈ Nat.toDigits 10 i.toNat → c.isDigit :=
    Nat.isDigit_of_mem_toDigits (by decide) (by decide)
  have hs : ofDigits? (Nat.toDigits 10 i.toNat) = some i :=
    ofDigits?_eq_some_iff.2
      ⟨Nat.toDigits_ne_nil, hd, Nat.ofDigitChars_toDigits (by decide) (by decide)⟩
  simp only [index?, ofIndex, Nat.toList_repr]
  split
  · rename_i h
    exact absurd (hd '+' (by simp [h])) (by decide)
  · exact hs

end CollectionLoops.IndexKey
