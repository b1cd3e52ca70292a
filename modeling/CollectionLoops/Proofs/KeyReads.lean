import CollectionLoops.Collection
import Mathlib.Data.Nat.Digits.Defs
import Mathlib.Tactic.ByContra

/-!
Reads by a key and reads by an index. The keys of the items of an array are those that write an index:
a plus sign or none, and decimal digits. Main statements: a read by a key finds the item whose index
the key writes, and by no other key but `length` anything; a read by the text of an index finds what a
read by the index does.
-/
namespace CollectionLoops

namespace IndexKey

def IsDigit (c : Char) : Prop := '0' ≤ c ∧ c ≤ '9'

theorem isDigit_iff {c : Char} : c.isDigit = true ↔ IsDigit c := by
  simp only [Char.isDigit, Bool.and_eq_true, decide_eq_true_eq, IsDigit, Char.le_def]

instance (c : Char) : Decidable (IsDigit c) := decidable_of_iff (c.isDigit = true) isDigit_iff

/-- The number that decimal digits write, by the place values of the digits. -/
def decimalValue (ds : List Char) : Nat :=
  Nat.ofDigits 10 (ds.reverse.map fun c => c.toNat - '0'.toNat)

/-- Texts of numbers: at least one digit, and any number of zeros in front. -/
def IsDecimal (ds : List Char) (k : Nat) : Prop :=
  ds ≠ [] ∧ (∀ c ∈ ds, IsDigit c) ∧ decimalValue ds = k

-- by the characters of the text; without it all characters there are would be gone through
instance (ds : List Char) (k : Nat) : Decidable (IsDecimal ds k) :=
  decidable_of_iff (ds ≠ [] ∧ ds.all Char.isDigit ∧ decimalValue ds = k) <| by
    simp only [IsDecimal, List.all_eq_true, isDigit_iff]

/-- The keys that write an index: a decimal, with one plus sign in front of it or none. -/
def Writes (key : String) (k : Nat) : Prop :=
  ∃ ds, (key.toList = ds ∨ key.toList = '+' :: ds) ∧ IsDecimal ds k

/-- The keys without digits, and those with a character that is no digit and no plus sign at the
beginning. -/
def Malformed (key : String) : Prop :=
  key = "" ∨ key = "+" ∨ ∃ u c v, key.toList = u ++ c :: v ∧ ¬ IsDigit c ∧ (c = '+' → u ≠ [])

/-- Digits added up in 64 bits, one after the other. The reading ends where the sum does not fit. -/
def addDigits? (n : UInt64) : List Char → Option UInt64
  | [] => some n
  | c :: ds =>
    let d := c.toNat - '0'.toNat
    if c.isDigit ∧ 10 * n.toNat + d < UInt64.size then addDigits? (10 * n + .ofNat d) ds else none

/-- The index that a key writes, read in 64 bits. -/
def readIndex? (key : String) : Option UInt64 :=
  let ds := if key.toList.head? = some '+' then key.toList.tail else key.toList
  if ds = [] then none else addDigits? 0 ds

theorem ofDigitChars_eq_decimalValue (ds : List Char) :
    Nat.ofDigitChars 10 ds 0 = decimalValue ds := by
  induction ds with
  | nil => rfl
  | cons c ds ih =>
    rw [Nat.ofDigitChars_cons, Nat.ofDigitChars_eq_ofDigitChars_zero, ih, decimalValue, decimalValue,
      List.reverse_cons, List.map_append, Nat.ofDigits_append, List.length_map, List.length_reverse,
      List.map_singleton, Nat.ofDigits_singleton, Nat.mul_zero, Nat.zero_add, Nat.add_comm]

theorem ofDigits?_eq_some_iff_isDecimal {ds : List Char} {i : UInt64} :
    ofDigits? ds = some i ↔ IsDecimal ds i.toNat := by
  rw [ofDigits?_eq_some_iff, ofDigitChars_eq_decimalValue, IsDecimal]
  simp only [isDigit_iff]

theorem not_isDecimal_plus (ds : List Char) (k : Nat) : ¬ IsDecimal ('+' :: ds) k :=
  fun h => absurd (h.2.1 '+' List.mem_cons_self) (by decide)

/-- The grammar of the keys: what is found is the index that is written, and it fits into 64 bits. -/
theorem index?_eq_some_iff_writes {key : String} {i : UInt64} :
    index? key = some i ↔ Writes key i.toNat := by
  rw [index?, Writes]
  split
  · rename_i ds hkey
    rw [ofDigits?_eq_some_iff_isDecimal, hkey]
    constructor
    · exact fun h => ⟨ds, .inr rfl, h⟩
    · rintro ⟨ds', rfl | heq, h⟩
      · exact absurd h (not_isDecimal_plus ds _)
      · rwa [(List.cons.inj heq).2]
  · rename_i hplus
    rw [ofDigits?_eq_some_iff_isDecimal]
    constructor
    · exact fun h => ⟨_, .inl rfl, h⟩
    · rintro ⟨ds, rfl | heq, h⟩
      · exact h
      · exact absurd heq (hplus ds)

/-- A key writes one number at most. -/
theorem Writes.unique {key : String} {k k' : Nat} (h : Writes key k) (h' : Writes key k') :
    k = k' := by
  obtain ⟨ds, hds, hk⟩ := h
  obtain ⟨ds', hds', hk'⟩ := h'
  have heq : ds = ds' := by
    rcases hds with hds | hds <;> rcases hds' with hds' | hds' <;> rw [hds] at hds'
    · exact hds'
    · exact absurd (hds' ▸ hk) (not_isDecimal_plus ds' k)
    · exact absurd (hds' ▸ hk') (not_isDecimal_plus ds k')
    · exact (List.cons.inj hds').2
  rw [← hk.2.2, ← hk'.2.2, heq]

theorem not_writes_of_malformed {key : String} (h : Malformed key) (k : Nat) : ¬ Writes key k := by
  rintro ⟨ds, hds, hne, hdigits, -⟩
  rcases h with rfl | rfl | ⟨u, c, v, hkey, hc, hplus⟩
  · rcases hds with rfl | hds
    · exact hne rfl
    · simp at hds
  · rcases hds with rfl | hds
    · exact absurd (hdigits '+' (by decide)) (by decide)
    · exact hne (List.cons.inj hds).2.symm
  · rcases hds with rfl | hds
    · exact hc (hdigits c (by rw [hkey]; simp))
    · -- the character stands behind the plus sign, so that it is a digit
      rw [hkey] at hds
      cases u with
      | nil => exact hplus (List.cons.inj hds).1 rfl
      | cons d u =>
        obtain ⟨-, rfl⟩ := List.cons.inj hds
        exact hc (hdigits c (by simp))

theorem not_writes_length (k : Nat) : ¬ Writes "length" k :=
  not_writes_of_malformed (.inr (.inr ⟨[], 'l', "ength".toList, by decide, by decide, by decide⟩)) k

theorem le_ofDigitChars (ds : List Char) (n : Nat) : n ≤ Nat.ofDigitChars 10 ds n := by
  rw [Nat.ofDigitChars_eq_ofDigitChars_zero]
  exact (Nat.le_mul_of_pos_left n (Nat.pow_pos (by decide))).trans (Nat.le_add_right _ _)

/-- What was added up never gets less, so that a sum that does not fit is one of digits that write no
index. -/
theorem addDigits?_eq_some_iff {ds : List Char} {n i : UInt64} :
    addDigits? n ds = some i ↔
      (∀ c ∈ ds, c.isDigit) ∧ Nat.ofDigitChars 10 ds n.toNat = i.toNat := by
  induction ds generalizing n with
  | nil => simp [addDigits?, UInt64.toNat_inj]
  | cons c ds ih =>
    rw [addDigits?, List.forall_mem_cons, Nat.ofDigitChars_cons]
    obtain ⟨d, hd⟩ : ∃ d, d = c.toNat - '0'.toNat := ⟨_, rfl⟩
    rw [← hd]
    by_cases hfits : 10 * n.toNat + d < UInt64.size
    · have hsum : (10 * n + .ofNat d).toNat = 10 * n.toNat + d := by
        rw [UInt64.toNat_add, UInt64.toNat_mul, UInt64.toNat_ofNat']
        change (10 * n.toNat % 2 ^ 64 + d % 2 ^ 64) % 2 ^ 64 = _
        rw [← Nat.add_mod]
        exact Nat.mod_eq_of_lt hfits
      by_cases hc : c.isDigit
      · rw [if_pos ⟨hc, hfits⟩, ih, hsum]
        simp only [hc, true_and]
      · simp [hc]
    · have hover : Nat.ofDigitChars 10 ds (10 * n.toNat + d) ≠ i.toNat := by
        have := le_ofDigitChars ds (10 * n.toNat + d)
        have := i.toNat_lt_size
        omega
      simp [hfits, hover]

theorem index?_eq_readIndex? (key : String) : index? key = readIndex? key := by
  have hdigits (ds : List Char) : ofDigits? ds = if ds = [] then none else addDigits? 0 ds := by
    ext i
    rw [ofDigits?_eq_some_iff]
    by_cases hds : ds = []
    · simp [hds]
    · rw [if_neg hds, addDigits?_eq_some_iff]
      exact ⟨fun h => h.2, fun h => ⟨hds, h⟩⟩
  rw [index?, readIndex?]
  split
  · rename_i ds hkey
    rw [hdigits, hkey]
    rfl
  · rename_i hplus
    have hhead : key.toList.head? ≠ some '+' := fun h => by
      obtain ⟨ds, hds⟩ := List.head?_eq_some_iff.1 h
      exact hplus ds hds
    rw [hdigits, if_neg hhead]

end IndexKey

namespace Store

variable (s : Store) (r : ArrayRef)

theorem read_array_of_ne_length {key : String} (h : key ≠ "length") :
    s.read (.array r) key =
      .ok (((IndexKey.index? key).bind fun i => (s.items r)[i.toNat]?).getD .undefined) := by
  rw [read, if_neg h]

/-- A key that writes no index below the length finds nothing. -/
theorem read_array_of_not_writes {key : String} (h : key ≠ "length")
    (hkey : ∀ k < (s.items r).size, ¬ IndexKey.Writes key k) :
    s.read (.array r) key = .ok .undefined := by
  rw [read_array_of_ne_length s r h]
  cases hi : IndexKey.index? key with
  | none => rfl
  | some i =>
    have hsize : (s.items r).size ≤ i.toNat := by
      by_contra hlt
      exact hkey i.toNat (Nat.lt_of_not_le hlt) (IndexKey.index?_eq_some_iff_writes.1 hi)
    rw [Option.bind_some, Array.getElem?_eq_none hsize, Option.getD_none]

/-- What an array has under a key: its length under `length`, the item whose index the key writes, and
nothing under all other keys. So nothing is found by a key that is malformed, nor by one that writes a
number which 64 bits cannot hold, however long it is. The keys can be read in 64 bits. -/
theorem read_array_key (key : String) (hsize : (s.items r).size < 2 ^ 64) :
    (key = "length" →
      s.read (.array r) key = .ok (.number (UInt64.ofNat (s.items r).size).toFloat)) ∧
    (∀ k (hk : k < (s.items r).size), IndexKey.Writes key k →
      s.read (.array r) key = .ok (s.items r)[k]) ∧
    (key ≠ "length" → (∀ k < (s.items r).size, ¬ IndexKey.Writes key k) →
      s.read (.array r) key = .ok .undefined) ∧
    (key ≠ "length" → (IndexKey.Malformed key ∨ ∃ k, 2 ^ 64 ≤ k ∧ IndexKey.Writes key k) →
      s.read (.array r) key = .ok .undefined) ∧
    (key ≠ "length" → s.read (.array r) key =
      .ok (((IndexKey.readIndex? key).bind fun i => (s.items r)[i.toNat]?).getD .undefined)) := by
  refine ⟨?length, ?item, fun h => read_array_of_not_writes s r h, ?other, ?read⟩
  case length =>
    rintro rfl
    have hnumber : UInt64.ofNatClamp (s.items r).size = .ofNat (s.items r).size := by
      rw [← UInt64.toNat_inj, UInt64.toNat_ofNatClamp_of_lt hsize, UInt64.toNat_ofNat_of_lt' hsize]
    rw [read, if_pos rfl, length, hnumber]
    rfl
  case item =>
    intro k hk hkey
    have hi : (UInt64.ofNat k).toNat = k := UInt64.toNat_ofNat_of_lt' (hk.trans hsize)
    have hindex : IndexKey.index? key = some (.ofNat k) := by
      rw [IndexKey.index?_eq_some_iff_writes, hi]
      exact hkey
    have hne : key ≠ "length" := fun h => IndexKey.not_writes_length k (h ▸ hkey)
    rw [read_array_of_ne_length s r hne, hindex, Option.bind_some, hi, Array.getElem?_eq_getElem hk,
      Option.getD_some]
  case other =>
    intro hne hother
    refine read_array_of_not_writes s r hne fun k hk hkey => ?_
    rcases hother with hmalformed | ⟨k', hk', hkey'⟩
    · exact IndexKey.not_writes_of_malformed hmalformed k hkey
    · have := hkey.unique hkey'
      omega
  case read =>
    intro hne
    rw [read_array_of_ne_length s r hne, IndexKey.index?_eq_readIndex?]

/-- A sign and two zeros in front of an index, and the number whose lowest 64 bits are those of another
index. -/
theorem read_array_key_threeItems :
    let s : Store := ⟨#[#[.string "a", .string "b", .string "c"]], #[]⟩
    (s.items ⟨0⟩).size < 2 ^ 64 ∧
      IndexKey.Writes "+002" 2 ∧ s.read (.array ⟨0⟩) "+002" = .ok (.string "c") ∧
      IndexKey.Writes "18446744073709551617" 18446744073709551617 ∧
      s.read (.array ⟨0⟩) "18446744073709551617" = .ok .undefined ∧
      IndexKey.Malformed "++1" ∧ s.read (.array ⟨0⟩) "++1" = .ok .undefined := by
  intro s
  have hsize : (s.items ⟨0⟩).size < 2 ^ 64 := by decide
  have hitem : IndexKey.Writes "+002" 2 := ⟨"002".toList, .inr (by decide), by decide +kernel⟩
  have hlarge : IndexKey.Writes "18446744073709551617" 18446744073709551617 :=
    ⟨_, .inl rfl, by decide +kernel⟩
  have hmalformed : IndexKey.Malformed "++1" :=
    .inr (.inr ⟨['+'], '+', ['1'], by decide +kernel, by decide, by decide⟩)
  refine ⟨hsize, hitem, ?_, hlarge, ?_, hmalformed, ?_⟩
  · exact (read_array_key s ⟨0⟩ "+002" hsize).2.1 2 (by decide) hitem
  · exact (read_array_key s ⟨0⟩ "18446744073709551617" hsize).2.2.2.1 (by decide)
      (.inr ⟨_, by decide, hlarge⟩)
  · exact (read_array_key s ⟨0⟩ "++1" hsize).2.2.2.1 (by decide) (.inl hmalformed)

/-- To read a value by the decimal text of an index is to read it by the index. An array has its items
there and under `length` what is its length, and an object its properties; of other values nothing is
found. Undefined and null are without elements too, but cannot be read by any key. -/
theorem read_repr_eq_element :
    (∀ v : Value, v.isNullish = false → ∀ i : UInt64,
      s.read v i.toNat.repr = .ok (s.element v i)) ∧
    (∀ (r : ArrayRef) (i : UInt64), s.element (.array r) i =
      if h : i.toNat < (s.items r).size then (s.items r)[i.toNat] else .undefined) ∧
    (∀ (r : ObjectRef) (i : UInt64), s.element (.object r) i =
      ((s.properties r).get? i.toNat.repr).getD .undefined) ∧
    (∀ v : Value, v.isContainer = false → ∀ i : UInt64, s.element v i = .undefined) ∧
    (∀ r : ArrayRef, s.read (.array r) "length" = .ok (.number (s.length (.array r)).toFloat)) ∧
    (∀ v : Value, v.isNullish = true → (∀ i : UInt64, s.element v i = .undefined) ∧
      ∀ key : String, s.read v key = .error (.typeError
        (some ("Cannot read properties of " ++ (if v = .null then "null" else "undefined") ++
          " (reading '" ++ key ++ "')")) "loop_methods::value::Value::get")) := by
  refine ⟨fun v hv i => read_ofIndex s hv i, ?array, fun _ _ => rfl, ?other, fun _ => rfl, ?nullish⟩
  case array =>
    intro r i
    rw [element]
    split
    · rename_i h
      rw [Array.getElem?_eq_getElem h, Option.getD_some]
    · rename_i h
      rw [Array.getElem?_eq_none (Nat.le_of_not_lt h), Option.getD_none]
  case other =>
    intro v hv i
    cases v with
    | array r => cases hv
    | object r => cases hv
    | _ => rfl
  case nullish =>
    intro v hv
    have hread (key : String) : s.read v key = .error (.unreadable v key) := by
      cases v <;> first | rfl | cases hv
    refine ⟨fun _ => ?_, fun key => ?_⟩
    · cases v <;> first | rfl | cases hv
    · rw [hread, Fault.unreadable_of_isNullish hv]

/-- An object with an array under the text of the largest index, that array behind its end, a string,
and null. -/
theorem read_repr_eq_element_largest :
    let s : Store := ⟨#[#[.string "a"]], #[.ofList [("18446744073709551615", .array ⟨0⟩)]]⟩
    let i : UInt64 := 18446744073709551615
    (Value.object ⟨0⟩).isNullish = false ∧ s.element (.object ⟨0⟩) i = .array ⟨0⟩ ∧
      s.read (.object ⟨0⟩) i.toNat.repr = .ok (.array ⟨0⟩) ∧
      (Value.array ⟨0⟩).isNullish = false ∧ s.read (.array ⟨0⟩) i.toNat.repr = .ok .undefined ∧
      (Value.string "a").isContainer = false ∧ s.element (.string "a") 0 = .undefined ∧
      Value.null.isNullish = true ∧ s.element .null 0 = .undefined ∧
      s.read .null "0" = .error (.typeError
        (some "Cannot read properties of null (reading '0')") "loop_methods::value::Value::get") := by
  intro s i
  have hobject : s.element (.object ⟨0⟩) i = .array ⟨0⟩ := by decide +kernel
  have harray : s.element (.array ⟨0⟩) i = .undefined := by decide +kernel
  obtain ⟨hread, -, -, hother, -, hnullish⟩ := read_repr_eq_element s
  refine ⟨rfl, hobject, hobject ▸ hread (.object ⟨0⟩) rfl i, rfl,
    harray ▸ hread (.array ⟨0⟩) rfl i, rfl, hother (.string "a") rfl 0, rfl, ?_⟩
  obtain ⟨helement, hkey⟩ := hnullish .null rfl
  refine ⟨helement 0, (hkey "0").trans ?_⟩
  rw [if_pos rfl]
  rfl

end Store

end CollectionLoops
