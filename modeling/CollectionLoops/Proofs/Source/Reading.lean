import CollectionLoops.Source.Branch

/-!
Readings: the lists of segments that a text can be read into. Main statement: a reading is the one of
its own text, so that a text has exactly one.
-/
namespace CollectionLoops.Source

/-- The argument text of a complete call is not empty and no parenthesis is closed in it. -/
def IsArgumentText (a : List Char) : Prop := a ≠ [] ∧ ')' ∉ a

/-- Whether a complete call begins where the text begins. -/
def StartsCall (s : List Char) : Prop :=
  ∃ a rest, IsArgumentText a ∧ s = callHead ++ a ++ ')' :: rest

def callText (a : List Char) : List Char := callHead ++ a ++ [')']

@[simp] theorem text_call (a : List Char) : (Segment.call a).text = callText a := rfl

@[simp] theorem text_plain (c : Char) : (Segment.plain c).text = [c] := rfl

theorem textOf_append (l l' : List Segment) : textOf (l ++ l') = textOf l ++ textOf l' := by
  simp [textOf]

@[simp] theorem textOf_map_plain (g : List Char) : textOf (g.map .plain) = g := by
  induction g with
  | nil => rfl
  | cons c g ih => simp [ih]

theorem StartsCall.ne_nil {s : List Char} (h : StartsCall s) : s ≠ [] := by
  obtain ⟨a, rest, -, rfl⟩ := h
  simp

theorem completeCall?_eq_none_iff {s : List Char} : completeCall? s = none ↔ ¬ StartsCall s := by
  rw [Option.eq_none_iff_forall_ne_some]
  constructor
  · rintro h ⟨a, rest, ⟨hne, hmem⟩, hs⟩
    exact h (a, rest) (completeCall?_eq_some_iff.2 ⟨hs, hne, hmem⟩)
  · rintro h ⟨a, rest⟩ hs
    obtain ⟨hs, hne, hmem⟩ := completeCall?_eq_some_iff.1 hs
    exact h ⟨a, rest, ⟨hne, hmem⟩, hs⟩

/-- Behind its head, a call is complete if a parenthesis is closed later than at once. -/
theorem startsCall_callHead_append_iff {r : List Char} :
    StartsCall (callHead ++ r) ↔ ')' ∈ r ∧ r.head? ≠ some ')' := by
  constructor
  · rintro ⟨a, rest, ⟨hne, hmem⟩, h⟩
    rw [List.append_assoc, List.append_cancel_left_eq] at h
    subst h
    obtain ⟨c, a, rfl⟩ := List.exists_cons_of_ne_nil hne
    have hc : c ≠ ')' := fun e => hmem (by simp [e])
    exact ⟨by simp, by simpa using hc⟩
  · rintro ⟨hmem, hhead⟩
    obtain ⟨a, rest, rfl, ha⟩ := List.eq_append_cons_of_mem hmem
    refine ⟨a, rest, ⟨?_, ha⟩, by rw [List.append_assoc]⟩
    rintro rfl
    simp at hhead

/-- The lists of segments in which the calls are complete, and no complete call begins at a character
that stands outside of them. -/
def IsReading : List Segment → Prop
  | [] => True
  | .plain c :: l => ¬ StartsCall (c :: textOf l) ∧ IsReading l
  | .call a :: l => IsArgumentText a ∧ IsReading l

theorem isReading_segments (s : List Char) : IsReading (segments s) := by
  fun_induction segments s with
  | case1 s a rest h ih =>
    obtain ⟨-, hne, hmem⟩ := completeCall?_eq_some_iff.1 h
    exact ⟨⟨hne, hmem⟩, ih⟩
  | case2 h => trivial
  | case3 c r h ih =>
    refine ⟨?_, ih⟩
    rw [textOf_segments]
    exact completeCall?_eq_none_iff.1 h

/-- What a text is read into is settled by the text. -/
theorem segments_textOf {l : List Segment} (h : IsReading l) : segments (textOf l) = l := by
  induction l with
  | nil => exact segments_nil
  | cons x l ih =>
    cases x with
    | plain c =>
      rw [textOf_cons, text_plain, List.singleton_append,
        segments_cons_of_none (completeCall?_eq_none_iff.2 h.1), ih h.2]
    | call a =>
      have hs : completeCall? (textOf (.call a :: l)) = some (a, textOf l) :=
        completeCall?_eq_some_iff.2 ⟨by simp [callText], h.1⟩
      rw [segments_of_completeCall? hs, ih h.2]

/-- A run of characters in front of a reading is part of one if no complete call begins in it. -/
theorem isReading_map_plain_append_iff {g : List Char} {l : List Segment} :
    IsReading (g.map .plain ++ l) ↔
      (∀ u v, g = u ++ v → v ≠ [] → ¬ StartsCall (v ++ textOf l)) ∧ IsReading l := by
  induction g with
  | nil =>
    constructor
    · intro h
      refine ⟨?_, h⟩
      rintro u v huv hv
      exact absurd (List.append_eq_nil_iff.1 huv.symm).2 hv
    · exact fun h => h.2
  | cons c g ih =>
    have ht : textOf (g.map .plain ++ l) = g ++ textOf l := by
      rw [textOf_append, textOf_map_plain]
    rw [List.map_cons, List.cons_append, IsReading, ih, ht]
    constructor
    · rintro ⟨hc, hg, hl⟩
      refine ⟨?_, hl⟩
      intro u v huv hv
      cases u with
      | nil => rw [List.nil_append] at huv; rwa [← huv]
      | cons d u => exact hg u v (List.cons.inj huv).2 hv
    · rintro ⟨h, hl⟩
      refine ⟨h [] (c :: g) rfl (by simp), ?_, hl⟩
      intro u v huv hv
      exact h (c :: u) v (by rw [huv]; rfl) hv

end CollectionLoops.Source
