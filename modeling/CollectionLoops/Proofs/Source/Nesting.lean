import CollectionLoops.Proofs.Source.Arms
import CollectionLoops.Proofs.Source.Idempotence

/-!
Parentheses of a text, and how deep in them it is. A call whose arguments open none is as balanced as
the branch around it. Main statement: the branches leave a text balanced or not as it was, and what
they do not enclose as deep in parentheses.
-/
namespace CollectionLoops.Source

/-- How many parentheses are opened in a text and not closed. It is negative if more are closed. -/
def depth (s : List Char) : Int := s.count '(' - s.count ')'

@[simp] theorem depth_nil : depth [] = 0 := rfl

@[simp] theorem depth_append (s t : List Char) : depth (s ++ t) = depth s + depth t := by
  simp only [depth, List.count_append]
  omega

/-- Whether no prefix closes more parentheses than it opens, if `d` are open in front of the text. -/
def StaysOpen (d : Int) (s : List Char) : Prop := ∀ u, u <+: s → 0 ≤ d + depth u

/-- No prefix closes more parentheses than it opens, and in the end all are closed. -/
def Balanced (s : List Char) : Prop := StaysOpen 0 s ∧ depth s = 0

instance (d : Int) (s : List Char) : Decidable (StaysOpen d s) :=
  decidable_of_iff (∀ u ∈ s.inits, 0 ≤ d + depth u) <| by
    simp only [StaysOpen, List.mem_inits]

instance (s : List Char) : Decidable (Balanced s) := inferInstanceAs (Decidable (_ ∧ _))

theorem StaysOpen.nonneg {d : Int} {s : List Char} (h : StaysOpen d s) : 0 ≤ d := by
  have := h [] List.nil_prefix
  rwa [depth_nil, Int.add_zero] at this

theorem staysOpen_append_iff {d : Int} {s t : List Char} :
    StaysOpen d (s ++ t) ↔ StaysOpen d s ∧ StaysOpen (d + depth s) t := by
  constructor
  · intro h
    refine ⟨fun u hu => h u (hu.trans (List.prefix_append s t)), fun u hu => ?_⟩
    have := h (s ++ u) ((List.prefix_append_right_inj s).2 hu)
    rwa [depth_append, ← Int.add_assoc] at this
  · rintro ⟨hs, ht⟩ u hu
    rcases prefix_or_of_prefix_append hu with hu | ⟨q, -, rfl, hq⟩
    · exact hs u hu
    · rw [depth_append, ← Int.add_assoc]
      exact ht q hq

namespace Balanced

variable {s t : List Char}

/-- However many parentheses are open, a balanced text closes none of them. -/
theorem staysOpen_iff (h : Balanced s) {d : Int} : StaysOpen d s ↔ 0 ≤ d := by
  refine ⟨StaysOpen.nonneg, fun hd u hu => ?_⟩
  have := h.1 u hu
  omega

theorem append (h : Balanced s) (h' : Balanced t) : Balanced (s ++ t) := by
  refine ⟨staysOpen_append_iff.2 ⟨h.1, ?_⟩, ?_⟩
  · rw [h.2]
    exact h'.1
  · rw [depth_append, h.2, h'.2, Int.add_zero]

/-- A balanced text in parentheses is balanced. -/
theorem parenthesized (h : Balanced s) : Balanced ('(' :: (s ++ [')'])) := by
  have hsplit : '(' :: (s ++ [')']) = ['('] ++ (s ++ [')']) := rfl
  rw [hsplit]
  refine ⟨staysOpen_append_iff.2 ⟨by decide, staysOpen_append_iff.2 ⟨?_, ?_⟩⟩, ?_⟩
  · exact h.staysOpen_iff.2 (by decide)
  · rw [h.2]
    decide
  · rw [depth_append, depth_append, h.2]
    decide

end Balanced

theorem balanced_of_notMem {s : List Char} (hopen : '(' ∉ s) (hclose : ')' ∉ s) : Balanced s := by
  have hdepth (u : List Char) (hu : u <+: s) : depth u = 0 := by
    rw [depth, List.count_eq_zero_of_not_mem fun hm => hopen (hu.subset hm),
      List.count_eq_zero_of_not_mem fun hm => hclose (hu.subset hm)]
    rfl
  refine ⟨fun u hu => ?_, hdepth s (List.prefix_refl s)⟩
  rw [hdepth u hu]
  decide

section Calls

variable {a : List Char}

theorem balanced_callText (hopen : '(' ∉ a) (hclose : ')' ∉ a) : Balanced (callText a) := by
  have hsplit : callText a = callName ++ '(' :: (a ++ [')']) := rfl
  rw [hsplit]
  exact (balanced_of_notMem (by decide) (by decide)).append
    (balanced_of_notMem hopen hclose).parenthesized

/-- The context and the arguments that are passed on are texts of the call, and the branch puts
parentheses around them and around itself. -/
theorem balanced_callInBranch (hopen : '(' ∉ a) (hclose : ')' ∉ a) (before after : List Char) :
    Balanced (callInBranch before a after) := by
  rw [callInBranch]
  split
  · exact balanced_callText hopen hclose
  · have hsplit : branchOpening a ++ callText a ++ branchClosing a =
        '(' :: (firstArgument a ++ " ? ".toList ++ callText a ++ " : cb".toList ++
          '(' :: ([',', ' '].intercalate (furtherArguments a) ++ [')']) ++ [')']) := by
      rw [branchOpening_eq, branchClosing_eq]
      simp
    have hcontext : Balanced (firstArgument a) :=
      balanced_of_notMem (fun hm => hopen ((firstArgument_infix_self a).subset hm))
        (fun hm => hclose ((firstArgument_infix_self a).subset hm))
    have hpassed : Balanced ([',', ' '].intercalate (furtherArguments a)) :=
      balanced_of_notMem (notMem_passedText (by decide) (by decide) hopen)
        (notMem_passedText (by decide) (by decide) hclose)
    rw [hsplit]
    exact ((((hcontext.append (by decide)).append (balanced_callText hopen hclose)).append
      (by decide)).append hpassed.parenthesized).parenthesized

end Calls

/-- A character, or a call without parentheses in its arguments. -/
def Segment.Flat : Segment → Prop
  | .plain _ => True
  | .call a => '(' ∉ a ∧ ')' ∉ a

theorem Segment.Flat.depth_branched {x : Segment} (h : x.Flat) (before after : List Char) :
    depth (x.branched before after) = depth x.text := by
  cases x with
  | plain c => rfl
  | call a =>
    have hbranch := balanced_callInBranch h.1 h.2 before after
    exact hbranch.2.trans (balanced_callText h.1 h.2).2.symm

theorem Segment.Flat.staysOpen_branched_iff {x : Segment} (h : x.Flat) {d : Int}
    (before after : List Char) : StaysOpen d (x.branched before after) ↔ StaysOpen d x.text := by
  cases x with
  | plain c => exact Iff.rfl
  | call a =>
    rw [text_call, (balanced_callText h.1 h.2).staysOpen_iff]
    exact (balanced_callInBranch h.1 h.2 before after).staysOpen_iff

section Segments

variable {l : List Segment}

theorem depth_branchedBetween (hl : ∀ x ∈ l, x.Flat) (before after : List Char) :
    depth (branchedBetween before l after) = depth (textOf l) := by
  induction l generalizing before with
  | nil => rfl
  | cons x l ih =>
    rw [List.forall_mem_cons] at hl
    rw [branchedBetween, textOf_cons, depth_append, depth_append, hl.1.depth_branched, ih hl.2]

theorem staysOpen_branchedBetween_iff (hl : ∀ x ∈ l, x.Flat) {d : Int} (before after : List Char) :
    StaysOpen d (branchedBetween before l after) ↔ StaysOpen d (textOf l) := by
  induction l generalizing d before with
  | nil => exact Iff.rfl
  | cons x l ih =>
    rw [List.forall_mem_cons] at hl
    rw [branchedBetween, textOf_cons, staysOpen_append_iff, staysOpen_append_iff,
      hl.1.staysOpen_branched_iff, hl.1.depth_branched, ih hl.2]

end Segments

/-- No complete call that reading the text finds opens a parenthesis among its arguments. -/
def NoNestedParenthesis (s : List Char) : Prop := ∀ c ∈ foundCalls [] (segments s), '(' ∉ c.2

instance (s : List Char) : Decidable (NoNestedParenthesis s) :=
  inferInstanceAs (Decidable (∀ c ∈ foundCalls [] (segments s), '(' ∉ c.2))

theorem exists_mem_foundCalls {a : List Char} {l : List Segment} (h : .call a ∈ l)
    (before : List Char) : ∃ t, (t, a) ∈ foundCalls before l := by
  induction l generalizing before with
  | nil => exact absurd h List.not_mem_nil
  | cons x l ih =>
    cases x with
    | plain c => exact ih ((List.mem_cons.1 h).resolve_left Segment.noConfusion) _
    | call b =>
      rcases List.mem_cons.1 h with heq | hmem
      · cases heq
        exact ⟨before, List.mem_cons_self⟩
      · obtain ⟨t, ht⟩ := ih hmem (before ++ callText b)
        exact ⟨t, List.mem_cons_of_mem _ ht⟩

theorem NoNestedParenthesis.flat {s : List Char} (h : NoNestedParenthesis s) :
    ∀ x ∈ segments s, x.Flat := by
  intro x hx
  cases x with
  | plain c => trivial
  | call a =>
    obtain ⟨t, ht⟩ := exists_mem_foundCalls hx []
    obtain ⟨l, l', hl⟩ := List.append_of_mem hx
    exact ⟨h _ ht, (isArgumentText_of_segments hl).2⟩

/-- If no call opens a parenthesis among its arguments, a text is balanced with its branches exactly if
it was without them, and a character that no new branch encloses stands as deep in parentheses as it
stood. -/
theorem balanced_branchOnContext_iff (s : String) (h : NoNestedParenthesis s.toList) :
    (Balanced (branchOnContext s).toList ↔ Balanced s.toList) ∧
    ∀ l x l', segments s.toList = l ++ x :: l' →
      (∀ a, x = .call a → InBranch (textOf l) a (textOf l')) →
      ∀ u c v, x.text = u ++ c :: v →
        let front := branchedBetween [] l (x.text ++ textOf l') ++ u
        s.toList = (textOf l ++ u) ++ c :: (v ++ textOf l') ∧
          (branchOnContext s).toList =
            front ++ c :: (v ++ branchedBetween (textOf l ++ x.text) l' []) ∧
          depth front = depth (textOf l ++ u) := by
  have hflat := h.flat
  rw [toList_branchOnContext]
  constructor
  · have hopen := staysOpen_branchedBetween_iff hflat (d := 0) [] []
    have hdepth := depth_branchedBetween hflat [] []
    rw [← branchText_eq_branchedBetween, textOf_segments] at hopen hdepth
    rw [Balanced, Balanced, hopen, hdepth]
  · intro l x l' hl hkept u c v huv front
    have hbranched : x.branched (textOf l) (textOf l') = u ++ c :: v := by
      rw [← huv]
      cases x with
      | plain d => rfl
      | call a => exact if_pos (hkept a rfl)
    refine ⟨?_, ?_, ?_⟩
    · rw [← textOf_segments s.toList, hl, textOf_append, textOf_cons, huv]
      simp only [List.append_assoc, List.cons_append]
    · rw [branchText_eq_of_segments hl, hbranched]
      simp only [front, List.append_assoc, List.cons_append]
    · have hfront : ∀ y ∈ l, y.Flat := fun y hy =>
        hflat y (hl ▸ List.mem_append_left _ hy)
      rw [depth_append, depth_append, depth_branchedBetween hfront]

/-- A call that gets its branch inside of parentheses, and one behind it that has its own: the
parenthesis of the second call keeps its depth. -/
theorem balanced_branchOnContext_iff_twoCalls :
    let s := "f(cb.call(that, a), (x ? cb.call(x) : cb()))"
    let l := "f(".toList.map .plain ++ .call "that, a".toList :: ", (x ? ".toList.map .plain
    let l' := " : cb()))".toList.map .plain
    NoNestedParenthesis s.toList ∧
      Balanced s.toList ∧ Balanced (branchOnContext s).toList ∧
      segments s.toList = l ++ .call ['x'] :: l' ∧ InBranch (textOf l) ['x'] (textOf l') ∧
      depth (branchedBetween [] l (callText ['x'] ++ textOf l') ++ callName) =
        depth (textOf l ++ callName) := by
  intro s l l'
  have hnest : NoNestedParenthesis s.toList := by decide +kernel
  have hbalanced : Balanced s.toList := by decide +kernel
  have hl : segments s.toList = l ++ .call ['x'] :: l' := by decide +kernel
  have hbranch : InBranch (textOf l) ['x'] (textOf l') := by decide +kernel
  obtain ⟨hiff, hdepth⟩ := balanced_branchOnContext_iff s hnest
  have hkept : ∀ a, Segment.call ['x'] = .call a → InBranch (textOf l) a (textOf l') := by
    rintro a ⟨⟩
    exact hbranch
  obtain ⟨-, -, hparen⟩ := hdepth l (.call ['x']) l' hl hkept callName '(' ['x', ')'] rfl
  exact ⟨hnest, hbalanced, hiff.2 hbalanced, hl, hbranch, hparen⟩

/-- A parenthesis that is opened among the arguments is opened once more by each of their copies. -/
example : Balanced "cb.call(f(x))".toList ∧ ¬ Balanced (branchOnContext "cb.call(f(x))").toList := by
  decide +kernel

end CollectionLoops.Source
