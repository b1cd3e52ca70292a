import CollectionLoops.Proofs.Source.Fragments
import Mathlib.Data.List.Forall2

/-!
The two arms of a branch. The rewritten text is made of the segments in their places, and a call that
had no branch is in its place the bound arm of one. Main statement: what the other arm passes, cut at
its commas, are the arguments that the call has behind its context.
-/
namespace CollectionLoops.Source

/-- What becomes of a segment between two texts. -/
def Segment.branched (before after : List Char) : Segment → List Char
  | .plain c => [c]
  | .call a => callInBranch before a after

/-- What becomes of segments that follow one another between two texts. -/
def branchedBetween (before : List Char) : List Segment → List Char → List Char
  | [], _ => []
  | x :: l, after =>
    x.branched before (textOf l ++ after) ++ branchedBetween (before ++ x.text) l after

theorem branchedBetween_append (before : List Char) (l l' : List Segment) (after : List Char) :
    branchedBetween before (l ++ l') after =
      branchedBetween before l (textOf l' ++ after) ++
        branchedBetween (before ++ textOf l) l' after := by
  induction l generalizing before with
  | nil => rw [textOf_nil, List.append_nil]; rfl
  | cons x l ih =>
    rw [List.cons_append, branchedBetween, branchedBetween, ih, textOf_append, textOf_cons]
    simp only [List.append_assoc]

theorem branchSegments_eq_branchedBetween (before : List Char) (l : List Segment) :
    branchSegments before.reverse l = branchedBetween before l [] := by
  induction l generalizing before with
  | nil => rfl
  | cons x l ih =>
    cases x with
    | plain c =>
      have hc : c :: before.reverse = (before ++ [c]).reverse := by simp
      rw [branchSegments_plain, hc, ih]
      rfl
    | call a =>
      rw [branchSegments_call, ih, branchedBetween, List.append_nil]
      rfl

theorem branchText_eq_branchedBetween (s : List Char) :
    branchText s = branchedBetween [] (segments s) [] :=
  branchSegments_eq_branchedBetween [] (segments s)

/-- Around the place of a segment stands what becomes of the segments on its two sides. -/
theorem branchText_eq_of_segments {s : List Char} {l l' : List Segment} {x : Segment}
    (h : segments s = l ++ x :: l') :
    branchText s = branchedBetween [] l (x.text ++ textOf l') ++
      (x.branched (textOf l) (textOf l') ++ branchedBetween (textOf l ++ x.text) l' []) := by
  rw [branchText_eq_branchedBetween, h, branchedBetween_append, branchedBetween, List.append_nil,
    List.append_nil]
  rfl

theorem IsReading.isArgumentText {l l' : List Segment} {a : List Char}
    (h : IsReading (l ++ .call a :: l')) : IsArgumentText a := by
  induction l with
  | nil => exact h.1
  | cons x l ih =>
    cases x with
    | plain c => exact ih h.2
    | call b => exact ih h.2

theorem isArgumentText_of_segments {s a : List Char} {l l' : List Segment}
    (h : segments s = l ++ .call a :: l') : IsArgumentText a := by
  have hread := isReading_segments s
  rw [h] at hread
  exact hread.isArgumentText

/-- The arguments that a text writes: what stands between its commas, each without the white space
around it. -/
def arguments (a : List Char) : List (List Char) := (a.splitOn ',').map Text.trim

theorem arguments_eq_cons (a : List Char) : arguments a = firstArgument a :: furtherArguments a := by
  rw [arguments, furtherArguments, firstArgument, takeWhile_eq_pieces_fst, splitOn_eq_pieces]
  rfl

/-- A text without the white space at the two ends of another: only blanks are dropped, and none are
left at an end. -/
def IsTrimmed (s t : List Char) : Prop :=
  (∃ u v, s = u ++ t ++ v ∧ (∀ c ∈ u, Text.isBlank c) ∧ ∀ c ∈ v, Text.isBlank c) ∧
    ∀ c, t.head? = some c ∨ t.getLast? = some c → Text.isBlank c = false

theorem exists_eq_trimEnd_append (s : List Char) :
    ∃ v, s = Text.trimEnd s ++ v ∧ ∀ c ∈ v, Text.isBlank c := by
  induction s with
  | nil => exact ⟨[], rfl, by simp⟩
  | cons c s ih =>
    obtain ⟨v, hs, hv⟩ := ih
    rw [Text.trimEnd_cons]
    split
    · rename_i h
      rw [h.1, List.nil_append] at hs
      exact ⟨c :: s, rfl, List.forall_mem_cons.2 ⟨h.2, hs ▸ hv⟩⟩
    · exact ⟨v, congrArg (c :: ·) hs, hv⟩

theorem isBlank_of_getLast?_trimEnd {s : List Char} {c : Char}
    (h : (Text.trimEnd s).getLast? = some c) : Text.isBlank c = false := by
  induction s with
  | nil => simp [Text.trimEnd] at h
  | cons d s ih =>
    rw [Text.trimEnd_cons] at h
    split at h
    · simp at h
    · rename_i hkept
      by_cases hs : Text.trimEnd s = []
      · rw [hs, List.getLast?_singleton, Option.some.injEq] at h
        simpa [hs, h] using hkept
      · obtain ⟨e, t, ht⟩ := List.exists_cons_of_ne_nil hs
        rw [ht, List.getLast?_cons_cons, ← ht] at h
        exact ih h

theorem isTrimmed_trim (s : List Char) : IsTrimmed s (Text.trim s) := by
  obtain ⟨v, hs, hv⟩ := exists_eq_trimEnd_append (s.dropWhile Text.isBlank)
  refine ⟨⟨s.takeWhile Text.isBlank, v, ?_, ?_, hv⟩, ?_⟩
  · rw [Text.trim, List.append_assoc, ← hs, List.takeWhile_append_dropWhile]
  · exact List.all_eq_true.1 List.all_takeWhile
  · rintro c (hc | hc)
    · have hhead := List.head?_dropWhile_not Text.isBlank (Text.trim s)
      rw [Text.trim, Text.dropWhile_isBlank_trimEnd, ← Text.trim, hc] at hhead
      exact hhead
    · exact isBlank_of_getLast?_trimEnd hc

theorem forall₂_isTrimmed_arguments (a : List Char) :
    List.Forall₂ IsTrimmed (a.splitOn ',') (arguments a) :=
  List.forall₂_map_right_iff.2 (List.forall₂_same.2 fun p _ => isTrimmed_trim p)

/-- An argument by itself: one that is written as it is. -/
def IsArgument (p : List Char) : Prop := ',' ∉ p ∧ Text.trim p = p

theorem isArgument_of_mem_arguments {a p : List Char} (h : p ∈ arguments a) : IsArgument p := by
  rw [arguments, splitOn_eq_pieces] at h
  obtain ⟨q, hq, rfl⟩ := List.mem_map.1 h
  exact ⟨fun hm => comma_notMem_pieces a q hq ((trim_infix_self q).subset hm), Text.trim_trim q⟩

theorem trim_space_cons (p : List Char) : Text.trim (' ' :: p) = Text.trim p := by
  rw [Text.trim, List.dropWhile_cons_of_pos (by decide), ← Text.trim]

/-- The space of a separator can be counted to what follows it. -/
theorem intercalate_comma_space (p : List Char) (ps : List (List Char)) :
    ", ".toList.intercalate (p :: ps) = [','].intercalate (p :: ps.map (' ' :: ·)) := by
  induction ps generalizing p with
  | nil => rfl
  | cons q ps ih =>
    rw [List.intercalate_cons_cons, ih q, List.map_cons, List.intercalate_cons_cons]
    cases ps <;> simp [List.intercalate_cons_cons]

/-- Arguments that are joined are found again by cutting at the commas, empty ones too, unless there
are none: an empty text writes one empty argument. -/
theorem arguments_intercalate {l : List (List Char)} (hne : l ≠ []) (hl : ∀ p ∈ l, IsArgument p) :
    arguments (", ".toList.intercalate l) = l := by
  obtain ⟨p, ps, rfl⟩ := List.exists_cons_of_ne_nil hne
  rw [List.forall_mem_cons] at hl
  have hcomma : ∀ q ∈ p :: ps.map (' ' :: ·), ',' ∉ q := by
    rw [List.forall_mem_cons, List.forall_mem_map]
    refine ⟨hl.1.1, fun q hq hm => ?_⟩
    rcases List.mem_cons.1 hm with hm | hm
    · exact absurd hm (by decide)
    · exact (hl.2 q hq).1 hm
  have htrim : ps.map (Text.trim ∘ (' ' :: ·)) = ps := calc
    ps.map (Text.trim ∘ (' ' :: ·)) = ps.map id :=
      List.map_congr_left fun q hq => (trim_space_cons q).trans (hl.2 q hq).2
    _ = ps := List.map_id ps
  rw [arguments, intercalate_comma_space, List.splitOn_intercalate ',' hcomma (List.cons_ne_nil _ _),
    List.map_cons, List.map_map, hl.1.2, htrim]

/-- A call that lacks its branch becomes the bound arm of one, as it was written. The test is on its
first argument. If it has others, the unbound arm passes just them, in their order, and else nothing;
around the branch stands what becomes of the text in front of the call and behind it. -/
theorem branchOnContext_keeps_arguments (s : String) {l l' : List Segment} {a : List Char}
    (h : segments s.toList = l ++ .call a :: l') (hlacks : ¬ InBranch (textOf l) a (textOf l')) :
    ∃ context others passed,
      arguments a = context :: others ∧
      List.Forall₂ IsTrimmed (a.splitOn ',') (context :: others) ∧
      (branchOnContext s).toList =
        branchedBetween [] l (callText a ++ textOf l') ++
          (("(".toList ++ context ++ " ? ".toList) ++ callText a ++
              (" : cb(".toList ++ passed ++ "))".toList) ++
            branchedBetween (textOf l ++ callText a) l' []) ∧
      ')' ∉ passed ∧
      (others ≠ [] → arguments passed = others) ∧
      (others = [] → passed = []) := by
  have ha : IsArgumentText a := isArgumentText_of_segments h
  have hothers : ∀ p ∈ furtherArguments a, IsArgument p := fun p hp =>
    isArgument_of_mem_arguments (arguments_eq_cons a ▸ List.mem_cons_of_mem _ hp)
  refine ⟨firstArgument a, furtherArguments a, ", ".toList.intercalate (furtherArguments a),
    arguments_eq_cons a, arguments_eq_cons a ▸ forall₂_isTrimmed_arguments a, ?_,
    notMem_passedText (by decide) (by decide) ha.2, fun hne => arguments_intercalate hne hothers,
    fun hnil => by rw [hnil]; rfl⟩
  rw [toList_branchOnContext, branchText_eq_of_segments h, Segment.branched, callInBranch,
    if_neg hlacks]
  rfl

/-- A call between two others, one of which has its branch. Of its three further arguments two are
empty, and the other one has a new line in it. -/
theorem branchOnContext_keeps_arguments_threeCalls :
    let s := "cb.call(z); f(cb.call(that ,, é\nb ,\u3000)); (x ? cb.call(x) : cb())"
    let l := .call ['z'] :: "; f(".toList.map .plain
    let l' := "); (x ? ".toList.map .plain ++ .call ['x'] :: " : cb())".toList.map .plain
    let a := "that ,, é\nb ,\u3000".toList
    segments s.toList = l ++ .call a :: l' ∧
      ¬ InBranch (textOf l) a (textOf l') ∧
      ∃ context others passed,
        arguments a = context :: others ∧
        List.Forall₂ IsTrimmed (a.splitOn ',') (context :: others) ∧
        (branchOnContext s).toList =
          branchedBetween [] l (callText a ++ textOf l') ++
            (("(".toList ++ context ++ " ? ".toList) ++ callText a ++
                (" : cb(".toList ++ passed ++ "))".toList) ++
              branchedBetween (textOf l ++ callText a) l' []) ∧
        ')' ∉ passed ∧
        (others ≠ [] → arguments passed = others) ∧
        (others = [] → passed = []) := by
  intro s l l' a
  have h : segments s.toList = l ++ .call a :: l' := by decide +kernel
  have hlacks : ¬ InBranch (textOf l) a (textOf l') := by decide +kernel
  exact ⟨h, hlacks, branchOnContext_keeps_arguments s h hlacks⟩

end CollectionLoops.Source
