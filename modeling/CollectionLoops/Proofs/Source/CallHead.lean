import CollectionLoops.Proofs.Source.Cut

/-!
Where the head of a call can occur. Main statement: the texts that a branch puts around a call have
the head of a call in them only if an argument of the call has.
-/
namespace CollectionLoops.Source

section Lists

variable {α : Type} {w u v x : List α} {c : α}

theorem prefix_or_of_prefix_append (h : w <+: u ++ x) :
    w <+: u ∨ ∃ q, q ≠ [] ∧ w = u ++ q ∧ q <+: x := by
  rcases List.prefix_or_prefix_of_prefix h (List.prefix_append u x) with h' | ⟨q, rfl⟩
  · exact Or.inl h'
  · by_cases hq : q = []
    · subst hq
      exact Or.inl (by simp)
    · exact Or.inr ⟨q, hq, rfl, (List.prefix_append_right_inj u).1 h⟩

/-- A prefix ends in front of a value that it does not hold. -/
theorem prefix_of_notMem (hc : c ∉ w) (h : w <+: u ++ c :: v) : w <+: u := by
  rcases prefix_or_of_prefix_append h with h | ⟨q, hq, rfl, hqv⟩
  · exact h
  · rcases List.prefix_cons_iff.1 hqv with rfl | ⟨t, rfl, -⟩
    · exact absurd rfl hq
    · simp at hc

/-- A part lies on one side of a value that it does not hold. -/
theorem infix_or_infix_of_notMem (hc : c ∉ w) (h : w <:+: u ++ c :: v) : w <:+: u ∨ w <:+: v := by
  induction u with
  | nil =>
    rcases List.infix_cons_iff.1 h with h | h
    · have hnil := prefix_of_notMem (u := []) hc h
      exact Or.inl hnil.isInfix
    · exact Or.inr h
  | cons d u ih =>
    rcases List.infix_cons_iff.1 h with h | h
    · exact Or.inl (prefix_of_notMem (u := d :: u) hc h).isInfix
    · exact (ih h).imp_left (fun hu => hu.trans (List.suffix_cons d u).isInfix)

/-- A part of lists joined by a separator lies in one of them if it holds nothing of the separator. -/
theorem exists_infix_of_infix_intercalate {a b : α} {l : List (List α)} (hne : w ≠ [])
    (ha : a ∉ w) (hb : b ∉ w) (h : w <:+: [a, b].intercalate l) : ∃ p ∈ l, w <:+: p := by
  induction l with
  | nil => exact absurd (List.infix_nil.1 h) hne
  | cons p l ih =>
    cases l with
    | nil => exact ⟨p, by simp, by simpa using h⟩
    | cons q l =>
      rw [List.intercalate_cons_cons, List.append_assoc] at h
      rcases infix_or_infix_of_notMem ha h with h | h
      · exact ⟨p, by simp, h⟩
      · rcases infix_or_infix_of_notMem (u := []) hb h with h | h
        · exact absurd (List.infix_nil.1 h) hne
        · obtain ⟨r, hr, hw⟩ := ih h
          exact ⟨r, List.mem_cons_of_mem p hr, hw⟩

end Lists

theorem trimEnd_prefix_self (s : List Char) : Text.trimEnd s <+: s := by
  induction s with
  | nil => exact List.prefix_refl []
  | cons c s ih =>
    rw [Text.trimEnd_cons]
    split
    · exact List.nil_prefix
    · exact (List.prefix_cons_inj c).2 ih

theorem trim_infix_self (s : List Char) : Text.trim s <:+: s :=
  (trimEnd_prefix_self _).isInfix.trans (List.dropWhile_suffix _).isInfix

theorem infix_of_mem_pieces {s p : List Char} (h : p ∈ (pieces s).1 :: (pieces s).2) : p <:+: s := by
  induction s generalizing p with
  | nil => simp_all
  | cons c s ih =>
    have hs := (List.suffix_cons c s).isInfix
    by_cases hc : c = ','
    · subst hc
      rw [pieces_comma, List.mem_cons] at h
      rcases h with rfl | h
      · exact List.nil_infix
      · exact (ih h).trans hs
    · rw [pieces_cons hc, List.mem_cons] at h
      rcases h with rfl | h
      · have hfst : (pieces s).1 <+: s := by
          rw [← takeWhile_eq_pieces_fst]
          exact List.takeWhile_prefix _
        exact ((List.prefix_cons_inj c).2 hfst).isInfix
      · exact (ih (List.mem_cons_of_mem _ h)).trans hs

theorem firstArgument_infix_self (a : List Char) : firstArgument a <:+: a :=
  (trim_infix_self _).trans (List.takeWhile_prefix _).isInfix

theorem infix_of_mem_furtherArguments {a r : List Char} (h : r ∈ furtherArguments a) : r <:+: a := by
  rw [furtherArguments, splitOn_eq_pieces] at h
  obtain ⟨p, hp, rfl⟩ := List.mem_map.1 h
  exact (trim_infix_self p).trans (infix_of_mem_pieces (List.mem_cons_of_mem _ hp))

theorem callHead_eq : callHead = ['c', 'b', '.', 'c', 'a', 'l', 'l', '('] := rfl

theorem length_callHead : callHead.length = 8 := rfl

/-- What the head of a call has in front of its parenthesis. -/
def callName : List Char := "cb.call".toList

theorem eq_callName_of_append {v q : List Char} (h : v ++ '(' :: q = callHead) : v = callName := by
  have hall : ∀ k < 8, (callHead.drop k).head? = some '(' → callHead.take k = callName := by decide
  have hlen : v.length < 8 := by
    have := congrArg List.length h
    simp only [List.length_append, List.length_cons, length_callHead] at this
    omega
  have hv := hall v.length hlen (by simp [← h])
  rwa [← h, List.take_left] at hv

theorem not_prefix_callHead_of_append {v q : List Char} (hv : v ≠ []) (hq : q ≠ [])
    (h : v ++ q = callHead) : ¬ q <+: callHead := by
  have hall : ∀ k < 8, 0 < k → ¬ callHead.drop k <+: callHead := by decide
  have hlen : v.length < 8 := by
    have := congrArg List.length h
    simp only [List.length_append, length_callHead] at this
    have := List.length_pos_iff.2 hq
    omega
  have hv := hall v.length hlen (List.length_pos_iff.2 hv)
  rwa [← h, List.drop_left, h] at hv

/-- If the last character of a text is none of the head of a call, a call that begins in the text has
its whole head there. -/
theorem not_startsCall_append {w u v : List Char} {z : Char} (hz : z ∉ callHead)
    (hw : ¬ callHead <:+: w) (hlast : w.getLast? = some z) (huv : w = u ++ v) (hv : v ≠ [])
    (x : List Char) : ¬ StartsCall (v ++ x) := by
  rintro ⟨a, rest, -, h⟩
  have hvz : v = v.dropLast ++ [z] := by
    subst huv
    rw [List.getLast?_append, List.getLast?_eq_some_getLast hv, Option.some_or] at hlast
    rw [← Option.some.inj hlast, List.dropLast_concat_getLast hv]
  have hpre : callHead <+: v.dropLast ++ z :: x := by
    rw [hvz, List.append_assoc, List.singleton_append, List.append_assoc] at h
    exact ⟨_, h.symm⟩
  have hdrop : callHead <:+: v := (prefix_of_notMem hz hpre).isInfix.trans
    (List.dropLast_prefix v).isInfix
  rw [huv] at hw
  exact hw (hdrop.trans (List.suffix_append u v).isInfix)

theorem eq_of_callHead_prefix_cons {d : Char} {x : List Char} (h : callHead <+: d :: x) :
    d = 'c' := by
  rw [callHead_eq, List.cons_prefix_cons] at h
  exact h.1.symm

theorem callHead_infix_of_infix_cons {d : Char} {x : List Char} (hd : d ≠ 'c')
    (h : callHead <:+: d :: x) : callHead <:+: x :=
  (List.infix_cons_iff.1 h).resolve_left (fun hpre => hd (eq_of_callHead_prefix_cons hpre))

theorem branchOpening_eq (a : List Char) :
    branchOpening a = '(' :: (firstArgument a ++ [' ', '?', ' ']) := rfl

theorem branchClosing_eq (a : List Char) :
    branchClosing a = ' ' :: ':' :: ' ' :: 'c' :: 'b' :: '(' ::
      ([',', ' '].intercalate (furtherArguments a) ++ [')', ')']) := rfl

theorem getLast?_branchOpening (a : List Char) : (branchOpening a).getLast? = some ' ' := by
  rw [branchOpening_eq, ← List.cons_append, List.getLast?_append]
  rfl

theorem getLast?_branchClosing (a : List Char) : (branchClosing a).getLast? = some ')' := by
  rw [branchClosing_eq]
  simp only [← List.cons_append, List.getLast?_append]
  rfl

theorem not_callHead_infix_branchOpening {a : List Char} (h : ¬ callHead <:+: a) :
    ¬ callHead <:+: branchOpening a := by
  intro hin
  rw [branchOpening_eq] at hin
  have hin := callHead_infix_of_infix_cons (by decide) hin
  rcases infix_or_infix_of_notMem (by decide) hin with hin | hin
  · exact h (hin.trans (firstArgument_infix_self a))
  · exact absurd hin.length_le (by decide)

theorem not_callHead_infix_branchClosing {a : List Char} (h : ¬ callHead <:+: a) :
    ¬ callHead <:+: branchClosing a := by
  intro hin
  rw [branchClosing_eq] at hin
  have hcb := callHead_infix_of_infix_cons (by decide) (callHead_infix_of_infix_cons (by decide)
    (callHead_infix_of_infix_cons (by decide) hin))
  rcases List.infix_cons_iff.1 hcb with hpre | hin
  · rw [callHead_eq] at hpre
    simp only [List.cons_prefix_cons] at hpre
    exact absurd hpre.2.2.1 (by decide)
  · have hin := callHead_infix_of_infix_cons (by decide)
      (callHead_infix_of_infix_cons (by decide) hin)
    rcases infix_or_infix_of_notMem (by decide) hin with hin | hin
    · obtain ⟨r, hr, hin⟩ :=
        exists_infix_of_infix_intercalate (by decide) (by decide) (by decide) hin
      exact h (hin.trans (infix_of_mem_furtherArguments hr))
    · exact absurd hin.length_le (by decide)

end CollectionLoops.Source
