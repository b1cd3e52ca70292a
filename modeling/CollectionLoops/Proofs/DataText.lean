import CollectionLoops.Proofs.EndlessText
import CollectionLoops.Proofs.QuotedText

/-!
Data and their texts. Main statement: two values that are built without numbers, objects and functions
have quoted texts, and these are the same exactly if the values are structurally equal, whatever
characters their strings hold.
-/
namespace CollectionLoops.Store

/-- The values that are built from undefined, null, booleans, strings and arrays of such values. A
derivation is finite, so that no such array is inside itself. -/
inductive IsData (s : Store) : Value → Prop
  | undefined : IsData s .undefined
  | null : IsData s .null
  | boolean (b : Bool) : IsData s (.boolean b)
  | string (t : String) : IsData s (.string t)
  | array {r : ArrayRef} (items : ∀ v ∈ (s.items r).toList, IsData s v) : IsData s (.array r)

/-- What the text of a value begins with, for values that are data. -/
def firstMark : Value → Char
  | .undefined => 'u'
  | .null => 'n'
  | .boolean b => if b then 't' else 'f'
  | .string _ => '"'
  | .array _ => '['
  | _ => ' '

/-- The text of an array after one of its items, if further items have the given texts. -/
def itemsEnd : List (List Char) → List Char
  | [] => [']']
  | t :: ts => ',' :: ' ' :: t ++ itemsEnd ts

theorem arrayText_cons (t : List Char) (ts : List (List Char)) :
    arrayText (t :: ts) = '[' :: t ++ itemsEnd ts := by
  have hend : listText (t :: ts) ++ [']'] = t ++ itemsEnd ts := by
    induction ts generalizing t with
    | nil => simp [listText, itemsEnd]
    | cons u ts ih =>
      have hlist : listText (t :: u :: ts) = t ++ ',' :: ' ' :: listText (u :: ts) := by
        simp [listText]
      rw [hlist, List.append_assoc, List.cons_append, List.cons_append, ih u]
      rfl
  exact congrArg ('[' :: ·) hend

section Items

variable {α : Type} {f : α → List Char} {R : α → α → Prop} {l m : List α} {a b : List Char}

/-- Items can be told apart in a list if each can be told apart where it stands. -/
theorem forall₂_of_itemsEnd_append
    (hitem : ∀ v ∈ l, ∀ w ∈ m, ∀ {a b}, f v ++ a = f w ++ b → R v w ∧ a = b)
    (h : itemsEnd (l.map f) ++ a = itemsEnd (m.map f) ++ b) : List.Forall₂ R l m ∧ a = b := by
  induction l generalizing m with
  | nil =>
    cases m with
    | nil => exact ⟨.nil, List.append_cancel_left h⟩
    | cons w m => cases h
  | cons v l ih =>
    cases m with
    | nil => cases h
    | cons w m =>
      simp only [List.map_cons, itemsEnd, List.cons_append, List.append_assoc, List.cons.injEq,
        true_and] at h
      obtain ⟨hvw, hrest⟩ := hitem v List.mem_cons_self w List.mem_cons_self h
      obtain ⟨hlm, hab⟩ := ih (fun v hv w hw => hitem v (List.mem_cons_of_mem _ hv) w
        (List.mem_cons_of_mem _ hw)) hrest
      exact ⟨.cons hvw hlm, hab⟩

/-- An array without items is told apart from one with items because no item begins with the bracket
that closes the array. -/
theorem forall₂_of_arrayText_append
    (hitem : ∀ v ∈ l, ∀ w ∈ m, ∀ {a b}, f v ++ a = f w ++ b → R v w ∧ a = b)
    (hfirst : ∀ v, v ∈ l ∨ v ∈ m → ∃ c t, f v = c :: t ∧ c ≠ ']')
    (h : arrayText (l.map f) ++ a = arrayText (m.map f) ++ b) : List.Forall₂ R l m ∧ a = b := by
  cases l with
  | nil =>
    cases m with
    | nil => exact ⟨.nil, List.append_cancel_left h⟩
    | cons w m =>
      obtain ⟨c, t, hw, hc⟩ := hfirst w (.inr List.mem_cons_self)
      rw [List.map_cons, arrayText_cons, hw] at h
      exact absurd (List.cons.inj (List.cons.inj h).2).1.symm hc
  | cons v l =>
    obtain ⟨c, t, hv, hc⟩ := hfirst v (.inl List.mem_cons_self)
    cases m with
    | nil =>
      rw [List.map_cons, arrayText_cons, hv] at h
      exact absurd (List.cons.inj (List.cons.inj h).2).1 hc
    | cons w m =>
      -- the bracket and a comma in its place make the same list out of both arrays
      apply forall₂_of_itemsEnd_append hitem
      rw [List.map_cons, List.map_cons, arrayText_cons, arrayText_cons] at h
      have hitems := (List.cons.inj h).2
      rw [List.map_cons, List.map_cons, itemsEnd, itemsEnd]
      exact congrArg (',' :: ' ' :: ·) hitems

theorem mapM_eq_of_forall₂ {f : α → Option (List Char)} (h : List.Forall₂ R l m)
    (hf : ∀ v ∈ l, ∀ w ∈ m, R v w → f v = f w) : l.mapM f = m.mapM f := by
  induction h with
  | nil => rfl
  | cons hvw _ ih =>
    rw [List.mapM_cons, List.mapM_cons, hf _ List.mem_cons_self _ List.mem_cons_self hvw,
      ih fun v hv w hw => hf v (List.mem_cons_of_mem _ hv) w (List.mem_cons_of_mem _ hw)]

end Items

section Data

variable {s : Store} {v w : Value} {depth : Nat} {a b : List Char}

theorem IsData.not_leadsToCycle (hv : s.IsData v) : ¬ s.LeadsToCycle v := by
  induction hv with
  | array items ih =>
    intro hcycle
    obtain ⟨u, hu, hcycle⟩ := hcycle.exists_mem_children
    exact ih u hu hcycle
  | _ =>
    intro hcycle
    obtain ⟨u, hu, -⟩ := hcycle.exists_mem_children
    cases hu

theorem IsData.ne_number (hv : s.IsData v) (n : Float) : v ≠ .number n := by
  rintro rfl
  cases hv

theorem IsData.level_lt {r : ArrayRef} (hv : s.IsData (.array r)) {u : Value}
    (hu : u ∈ (s.items r).toList) : s.level u < s.level (.array r) :=
  level_lt_of_not_leadsToCycle hv.not_leadsToCycle hu

theorem IsData.of_mem_items {r : ArrayRef} (hv : s.IsData (.array r)) {u : Value}
    (hu : u ∈ (s.items r).toList) : s.IsData u := by
  cases hv with
  | array items => exact items u hu

/-- The text of a value that hides nothing, for values that have one. -/
def dataText (s : Store) (depth : Nat) (v : Value) : List Char :=
  (s.quotedWithin? (fun _ => false) depth v).getD []

theorem dataText_of_not_isContainer (s : Store) (depth : Nat) (hv : v.isContainer = false) :
    s.dataText depth v = hiddenText v := by
  rw [dataText, quotedWithin?_of_not_isContainer s _ depth hv]
  rfl

theorem IsData.quotedWithin?_eq (hv : s.IsData v) (hdepth : s.level v < depth) :
    s.quotedWithin? (fun _ => false) depth v = some (s.dataText depth v) := by
  obtain ⟨t, ht⟩ := Option.isSome_iff_exists.1
    (isSome_quotedWithin?_of_level_lt hv.not_leadsToCycle hdepth)
  rw [dataText, ht]
  rfl

theorem IsData.dataText_array_succ {r : ArrayRef} (hv : s.IsData (.array r))
    (hdepth : s.level (.array r) < depth + 1) :
    s.dataText (depth + 1) (.array r) = arrayText ((s.items r).toList.map (s.dataText depth)) := by
  have hitems : (s.items r).toList.mapM (s.quotedWithin? (fun _ => false) depth) =
      some ((s.items r).toList.map (s.dataText depth)) := by
    refine (mapM_congr fun u hu => ?_).trans List.mapM_pure
    exact (hv.of_mem_items hu).quotedWithin?_eq
      (Nat.lt_of_lt_of_le (hv.level_lt hu) (Nat.le_of_lt_succ hdepth))
  rw [dataText, quotedWithin?, if_neg Bool.false_ne_true, hitems]
  rfl

theorem IsData.exists_dataText_eq (hv : s.IsData v) (hdepth : s.level v < depth) :
    ∃ t, s.dataText depth v = firstMark v :: t := by
  cases hv with
  | array items =>
    obtain ⟨depth, rfl⟩ := Nat.exists_eq_succ_of_ne_zero (Nat.ne_zero_of_lt hdepth)
    exact ⟨_, (IsData.array items).dataText_array_succ hdepth⟩
  | boolean b =>
    rw [dataText_of_not_isContainer s depth rfl]
    cases b <;> exact ⟨_, rfl⟩
  | _ =>
    rw [dataText_of_not_isContainer s depth rfl]
    exact ⟨_, rfl⟩

theorem IsData.firstMark_ne (hv : s.IsData v) : firstMark v ≠ ']' := by
  cases hv with
  | boolean b => cases b <;> decide
  | _ => simp [firstMark]

/-- The first character of a text tells the value, but for what is in a string or an array. -/
theorem IsData.eq_or_of_firstMark_eq (hv : s.IsData v) (hw : s.IsData w)
    (h : firstMark v = firstMark w) : v = w ∨ (∃ t u, v = .string t ∧ w = .string u) ∨
      ∃ r r', v = .array r ∧ w = .array r' := by
  cases hv <;> cases hw <;> grind [firstMark]

theorem IsData.equalWithin?_self (hv : s.IsData v) (hdepth : 0 < depth) :
    s.equalWithin? depth v v = some true := by
  obtain ⟨depth, rfl⟩ := Nat.exists_eq_add_of_lt hdepth
  have hstrict : v.strictEquals v = true :=
    Value.strictEquals_self_iff.2 fun n hn => absurd hn (hv.ne_number n)
  exact equalWithin?_succ_iff.2 (.inl hstrict)

theorem equalWithin?_array_of_forall₂ {r r' : ArrayRef} (hdepth : 0 < depth)
    (h : List.Forall₂ (fun v w => s.equalWithin? (depth - 1) v w = some true) (s.items r).toList
      (s.items r').toList) : s.equalWithin? depth (.array r) (.array r') = some true := by
  obtain ⟨depth, rfl⟩ := Nat.exists_eq_add_of_lt hdepth
  exact equalWithin?_array_iff.2 (.inr (sameParts_array_iff_forall₂.2 h))

/-- Where the text of one value ends cannot be mistaken, and the same text comes from equal values. -/
theorem IsData.equalWithin?_of_dataText_append (hv : s.IsData v) (hw : s.IsData w)
    (hvdepth : s.level v < depth) (hwdepth : s.level w < depth)
    (h : s.dataText depth v ++ a = s.dataText depth w ++ b) :
    (∀ d, depth ≤ d → s.equalWithin? d v w = some true) ∧ a = b := by
  induction depth generalizing v w a b with
  | zero => exact absurd hvdepth (Nat.not_lt_zero _)
  | succ depth ih =>
    have hmark : firstMark v = firstMark w := by
      obtain ⟨t, ht⟩ := hv.exists_dataText_eq hvdepth
      obtain ⟨u, hu⟩ := hw.exists_dataText_eq hwdepth
      rw [ht, hu] at h
      exact (List.cons.inj h).1
    rcases hv.eq_or_of_firstMark_eq hw hmark with rfl | ⟨t, u, rfl, rfl⟩ | ⟨r, r', rfl, rfl⟩
    · exact ⟨fun d hd => hv.equalWithin?_self (Nat.zero_lt_of_lt hd), List.append_cancel_left h⟩
    · rw [dataText_of_not_isContainer s _ rfl, dataText_of_not_isContainer s _ rfl] at h
      obtain ⟨htu, hab⟩ := Text.quoted_append_inj h
      obtain rfl := String.toList_inj.1 htu
      exact ⟨fun d hd => hv.equalWithin?_self (Nat.zero_lt_of_lt hd), hab⟩
    · rw [hv.dataText_array_succ hvdepth, hw.dataText_array_succ hwdepth] at h
      have hvitems {u : Value} (hu : u ∈ (s.items r).toList) : s.level u < depth :=
        Nat.lt_of_lt_of_le (hv.level_lt hu) (Nat.le_of_lt_succ hvdepth)
      have hwitems {u : Value} (hu : u ∈ (s.items r').toList) : s.level u < depth :=
        Nat.lt_of_lt_of_le (hw.level_lt hu) (Nat.le_of_lt_succ hwdepth)
      obtain ⟨hitems, hab⟩ := forall₂_of_arrayText_append
        (R := fun v w => ∀ d, depth ≤ d → s.equalWithin? d v w = some true)
        (fun u hu u' hu' => ih (hv.of_mem_items hu) (hw.of_mem_items hu') (hvitems hu) (hwitems hu'))
        (fun u hu => by
          have hdata : s.IsData u := hu.elim hv.of_mem_items hw.of_mem_items
          obtain ⟨t, ht⟩ := hdata.exists_dataText_eq (hu.elim hvitems hwitems)
          exact ⟨_, t, ht, hdata.firstMark_ne⟩) h
      refine ⟨fun d hd => equalWithin?_array_of_forall₂ (Nat.zero_lt_of_lt hd) ?_, hab⟩
      exact hitems.imp fun _ _ h => h _ (Nat.le_sub_one_of_lt hd)

theorem IsData.quotedWithin?_eq_of_equalWithin? {d : Nat} (hv : s.IsData v) (hw : s.IsData w)
    (h : s.equalWithin? d v w = some true) :
    s.quotedWithin? (fun _ => false) depth v = s.quotedWithin? (fun _ => false) depth w := by
  induction d generalizing v w depth with
  | zero => cases h
  | succ d ih =>
    rcases equalWithin?_succ_iff.1 h with hstrict | hparts
    · rw [Value.eq_of_strictEquals hstrict hw.ne_number]
    · have hkind := hparts.1
      cases hv with
      | array items =>
        cases hw with
        | array items' =>
          cases depth with
          | zero => rfl
          | succ depth =>
            rw [quotedWithin?, quotedWithin?, if_neg Bool.false_ne_true, if_neg Bool.false_ne_true]
            rw [mapM_eq_of_forall₂ (sameParts_array_iff_forall₂.1 hparts)
              fun u hu u' hu' => ih (items u hu) (items' u' hu')]
        | _ => cases hkind
      | _ => cases hkind

/-- Quoted text identifies data: any two values have one, the texts are the same exactly if the values
are structurally equal, and what a string in a text quotes is read back from it, whatever follows. -/
theorem equal_iff_quotedText_eq (hv : s.IsData v) (hw : s.IsData w) :
    (∃ t u, s.quotedText? v = some t ∧ s.quotedText? w = some u ∧ (s.equal v w = true ↔ t = u)) ∧
      ∀ t rest, Text.readQuoted? (Text.quoted t ++ rest) = some (t, rest) := by
  have hlevel (v : Value) : s.level v < s.size + 1 := Nat.lt_succ_of_le (s.level_le_size v)
  refine ⟨⟨.ofList (s.dataText (s.size + 1) v), .ofList (s.dataText (s.size + 1) w), ?_, ?_, ?_⟩,
    Text.readQuoted?_quoted⟩
  · rw [quotedText?, hv.quotedWithin?_eq (hlevel v)]
    rfl
  · rw [quotedText?, hw.quotedWithin?_eq (hlevel w)]
    rfl
  · rw [← String.toList_inj, String.toList_ofList, String.toList_ofList, equal, beq_iff_eq, equal?]
    constructor
    · intro h
      rw [dataText, hv.quotedWithin?_eq_of_equalWithin? hw h, dataText]
    · intro h
      have hread := hv.equalWithin?_of_dataText_append hw (hlevel v) (hlevel w)
        (congrArg (· ++ []) h)
      exact hread.1 _ (Nat.succ_le_succ (Nat.le_mul_self s.size))

/-- Two arrays that hold the same two strings, and two arrays around these. The strings are made of
quotes, commas, brackets and what looks like an escape. -/
def marked : Store where
  arrays := #[#[.string "\x22, \x22", .string "], [\x5cu\x7b0\x7d"],
    #[.string "\x22, \x22", .string "], [\x5cu\x7b0\x7d"], #[.array ⟨0⟩, .null, .array ⟨1⟩],
    #[.array ⟨1⟩, .null, .array ⟨1⟩]]
  objects := #[]

theorem isData_marked (i : Nat) (hi : i < 4) : marked.IsData (.array ⟨i⟩) := by
  have hstrings (i : Nat) (hi : i < 2) : marked.IsData (.array ⟨i⟩) := by
    refine .array fun v hv => ?_
    have hv : v = .string "\x22, \x22" ∨ v = .string "], [\x5cu\x7b0\x7d" := by
      interval_cases i <;> simpa [items, marked] using hv
    rcases hv with rfl | rfl <;> exact .string _
  by_cases hlt : i < 2
  · exact hstrings i hlt
  · refine .array fun v hv => ?_
    have hv : v = .array ⟨0⟩ ∨ v = .null ∨ v = .array ⟨1⟩ := by
      interval_cases i <;> simp [items, marked] at hv <;> grind
    rcases hv with rfl | rfl | rfl
    · exact hstrings 0 (by decide)
    · exact .null
    · exact hstrings 1 (by decide)

theorem equal_iff_quotedText_eq_marked :
    marked.IsData (.array ⟨2⟩) ∧ marked.IsData (.array ⟨3⟩) ∧
      marked.quotedText? (.array ⟨2⟩) = marked.quotedText? (.array ⟨3⟩) ∧
      marked.equal (.array ⟨2⟩) (.array ⟨3⟩) = true := by
  have hleft := isData_marked 2 (by decide)
  have hright := isData_marked 3 (by decide)
  have htext : marked.quotedText? (.array ⟨2⟩) = marked.quotedText? (.array ⟨3⟩) := by decide +kernel
  obtain ⟨⟨t, u, ht, hu, hequal⟩, -⟩ := equal_iff_quotedText_eq hleft hright
  exact ⟨hleft, hright, htext, hequal.2 (Option.some.inj (ht.symm.trans (htext.trans hu)))⟩

end Data

end CollectionLoops.Store
