import CollectionLoops.Proofs.Source.CallHead

/-!
Branches put into a text a second time. Main statement: a text with its branches is left as it is,
unless an argument had the head of a call in it or a call stood directly behind the name of one.
-/
namespace CollectionLoops.Source

/-- The calls among segments, each with the text in front of it and its argument text. -/
def foundCalls (before : List Char) : List Segment → List (List Char × List Char)
  | [] => []
  | .plain c :: l => foundCalls (before ++ [c]) l
  | .call a :: l => (before, a) :: foundCalls (before ++ callText a) l

/-- No complete call that reading the text finds has the head of a call among its arguments. -/
def NoNestedCall (s : List Char) : Prop :=
  ∀ c ∈ foundCalls [] (segments s), ¬ callHead <:+: c.2

/-- No complete call that reading the text finds stands directly behind what a call has in front of
its parenthesis. -/
def NoCallBehindName (s : List Char) : Prop :=
  ∀ c ∈ foundCalls [] (segments s), ¬ callName <:+ c.1

instance (s : List Char) : Decidable (NoNestedCall s) :=
  inferInstanceAs (Decidable (∀ c ∈ foundCalls [] (segments s), ¬ callHead <:+: c.2))

instance (s : List Char) : Decidable (NoCallBehindName s) :=
  inferInstanceAs (Decidable (∀ c ∈ foundCalls [] (segments s), ¬ callName <:+ c.1))

theorem foundCalls_map_plain_append (before g : List Char) (l : List Segment) :
    foundCalls before (g.map .plain ++ l) = foundCalls (before ++ g) l := by
  induction g generalizing before with
  | nil => simp
  | cons c g ih =>
    rw [List.map_cons, List.cons_append, foundCalls, ih, List.append_assoc]
    rfl

theorem closeParen_notMem_branchOpening {a : List Char} (h : IsArgumentText a) :
    ')' ∉ branchOpening a := by
  intro hm
  rw [branchOpening_eq, List.mem_cons, List.mem_append] at hm
  rcases hm with hm | hm | hm
  · exact absurd hm (by decide)
  · exact h.2 ((firstArgument_infix_self a).subset hm)
  · exact absurd hm (by decide)

theorem eq_nil_of_suffix_callText {w t a : List Char} (hw : ')' ∉ w) (h : w <:+ t ++ callText a) :
    w = [] := by
  by_contra hne
  obtain ⟨s, hs⟩ := h
  have hlast := congrArg List.getLast? hs
  rw [callText, ← List.append_assoc, List.getLast?_append, List.getLast?_append,
    List.getLast?_eq_some_getLast hne] at hlast
  have hmem := List.getLast_mem hne
  rw [Option.some.inj hlast] at hmem
  exact hw hmem

/-- A complete call that begins in a gap would have begun there before the gap's end was followed by
something else, unless the name of a call ends the gap and a parenthesis follows it now. -/
theorem not_startsCall_gap_append {u v a s x : List Char} (hname : ¬ callName <:+ u ++ v)
    (hv : v ≠ []) (h : ¬ StartsCall (v ++ callText a ++ s))
    (hx : x.head? = some '(' ∨ callHead <+: x) : ¬ StartsCall (v ++ x) := by
  intro hs
  obtain ⟨b, rest, -, heq⟩ := id hs
  have hpre : callHead <+: v ++ x := ⟨b ++ ')' :: rest, by rw [heq, List.append_assoc]⟩
  rcases prefix_or_of_prefix_append hpre with ⟨p, rfl⟩ | ⟨q, hq, hvq, hqx⟩
  · -- the whole head is in the gap, so that it was already followed by a parenthesis that closes
    rw [List.append_assoc, List.append_assoc, startsCall_callHead_append_iff] at h
    rw [List.append_assoc, startsCall_callHead_append_iff] at hs
    cases p with
    | nil =>
      refine h ⟨by simp [callText], ?_⟩
      rw [callText, callHead_eq]
      simp
    | cons c p => exact h ⟨by simp [callText], by simpa using hs.2⟩
  · rcases hx with hx | hx
    · obtain ⟨c, q, rfl⟩ := List.exists_cons_of_ne_nil hq
      have hc : c = '(' := by
        obtain ⟨t, rfl⟩ := hqx
        simpa using hx
      subst hc
      rw [eq_callName_of_append hvq.symm] at hname
      exact hname (List.suffix_append u callName)
    · rcases List.prefix_or_prefix_of_prefix hqx hx with hq' | hq'
      · exact not_prefix_callHead_of_append hv hq hvq.symm hq'
      · have := hq'.length_le
        rw [hvq, List.length_append] at this
        have := List.length_pos_iff.2 hv
        omega

namespace Cut

/-- No argument text has the head of a call in it, and no gap in front of a call ends with the name of
one. -/
def CallsApart : Cut → Prop
  | .gap _ => True
  | .call g a d => ¬ callHead <:+: a ∧ ¬ callName <:+ g ∧ d.CallsApart

theorem callsApart_of_foundCalls {d : Cut} (before : List Char)
    (hn : ∀ c ∈ foundCalls before d.segments, ¬ callHead <:+: c.2)
    (hb : ∀ c ∈ foundCalls before d.segments, ¬ callName <:+ c.1) : d.CallsApart := by
  induction d generalizing before with
  | gap g => trivial
  | call g a d ih =>
    rw [segments, foundCalls_map_plain_append, foundCalls, List.forall_mem_cons] at hn hb
    refine ⟨hn.1, ?_, ih _ hn.2 hb.2⟩
    exact fun hg => hb.1 (List.suffix_append_of_suffix hg)

/-- The parts of the text with its branches, as segments. -/
def branchedSegments (before : List Char) : Cut → List Segment
  | .gap g => g.map .plain
  | .call g a d =>
    let behind := d.branchedSegments (before ++ g ++ callText a)
    g.map .plain ++
      if InBranch (before ++ g) a d.text then .call a :: behind
      else (branchOpening a).map .plain ++ .call a :: ((branchClosing a).map .plain ++ behind)

@[simp] theorem textOf_branchedSegments (before : List Char) (d : Cut) :
    textOf (d.branchedSegments before) = d.branched before := by
  induction d generalizing before with
  | gap g => exact textOf_map_plain g
  | call g a d ih =>
    rw [branchedSegments, branched, callInBranch, textOf_append, textOf_map_plain]
    split <;> simp [textOf_append, ih]

/-- Reading the text with its branches finds the calls that reading the text found, and no others. -/
theorem isReading_branchedSegments {d : Cut} (hd : d.GapsClear) (ha : d.CallsApart)
    (before : List Char) : IsReading (d.branchedSegments before) := by
  induction d generalizing before with
  | gap g => exact isReading_segments_iff.2 hd
  | call g a d ih =>
    obtain ⟨harg, hgap, hd⟩ := hd
    obtain ⟨hnest, hname, ha⟩ := ha
    have hbehind := ih hd ha (before ++ g ++ callText a)
    have hgap' (x : List Char) (hx : x.head? = some '(' ∨ callHead <+: x) :
        ∀ u v, g = u ++ v → v ≠ [] → ¬ StartsCall (v ++ x) := by
      rintro u v rfl hv
      exact not_startsCall_gap_append hname hv (hgap u v rfl hv) hx
    rw [branchedSegments]
    split
    · refine isReading_map_plain_append_iff.2 ⟨hgap' _ (Or.inr ?_), harg, hbehind⟩
      simp [callText]
    · refine isReading_map_plain_append_iff.2 ⟨hgap' _ (Or.inl ?_), ?_⟩
      · simp [textOf_append, branchOpening]
      refine isReading_map_plain_append_iff.2 ⟨?_, harg, ?_⟩
      · intro u v huv hv
        exact not_startsCall_append (z := ' ') (by decide) (not_callHead_infix_branchOpening hnest)
          (getLast?_branchOpening a) huv hv _
      refine isReading_map_plain_append_iff.2 ⟨?_, hbehind⟩
      intro u v huv hv
      exact not_startsCall_append (z := ')') (by decide) (not_callHead_infix_branchClosing hnest)
        (getLast?_branchClosing a) huv hv _

/-- What a branch has behind its bound arm is there still when the calls behind it got theirs: none of
them can begin in it. -/
theorem branchClosing_prefix_branched {a : List Char} (hnest : ¬ callHead <:+: a) {d : Cut}
    (h : branchClosing a <+: d.text) (before : List Char) :
    branchClosing a <+: d.branched before := by
  cases d with
  | gap g => exact h
  | call g b d =>
    have hg : branchClosing a <+: g := by
      rw [text, callText, List.append_assoc, List.append_assoc, List.append_assoc] at h
      rcases prefix_or_of_prefix_append h with h | ⟨q, hq, heq, hpre⟩
      · exact h
      -- the closing would end in the next call, which begins with characters that do not end one
      rcases prefix_or_of_prefix_append hpre with hpre | ⟨q, -, rfl, -⟩
      · have hlast : q.getLast? = some ')' := by
          have := congrArg List.getLast? heq
          rw [List.getLast?_append, List.getLast?_eq_some_getLast hq, Option.some_or,
            ← List.getLast?_eq_some_getLast hq] at this
          rw [← this, getLast?_branchClosing]
        exact absurd (hpre.subset (List.mem_of_getLast? hlast)) (by decide)
      · refine absurd ?_ (not_callHead_infix_branchClosing hnest)
        rw [heq]
        exact (List.prefix_append callHead q).isInfix.trans (List.suffix_append g _).isInfix
    rw [branched, List.append_assoc]
    exact hg.trans (List.prefix_append g _)

/-- Each call of the text with its branches stands in its own branch. Of the text in front of the parts
the test sees only what holds no closing parenthesis, so that may differ from what it was. -/
theorem branchSegments_branchedSegments {d : Cut} (hd : d.GapsClear) (ha : d.CallsApart)
    (before before' : List Char) (h : ∀ w, ')' ∉ w → w <:+ before → w <:+ before') :
    branchSegments before'.reverse (d.branchedSegments before) = d.branched before := by
  induction d generalizing before before' with
  | gap g => exact branchSegments_map_plain _ g
  | call g a d ih =>
    obtain ⟨harg, -, hd⟩ := hd
    obtain ⟨hnest, -, ha⟩ := ha
    have hfront : ∀ w, ')' ∉ w → w <:+ before ++ g → w <:+ before' ++ g := by
      intro w hw hsuf
      rcases List.suffix_or_suffix_of_suffix hsuf (List.suffix_append before g) with hg | ⟨t, rfl⟩
      · exact List.suffix_append_of_suffix hg
      · obtain ⟨s, hs⟩ := hsuf
        rw [← List.append_assoc, List.append_cancel_right_eq] at hs
        obtain ⟨s', rfl⟩ := h t (fun hm => hw (List.mem_append_left g hm)) ⟨s, hs⟩
        exact ⟨s', by rw [List.append_assoc]⟩
    -- behind a call nothing of the text in front is left to see
    have hbehind (t : List Char) : branchSegments t.reverse
        (d.branchedSegments (before ++ g ++ callText a)) = d.branched (before ++ g ++ callText a) := by
      refine ih hd ha _ t ?_
      intro w hw hsuf
      rw [eq_nil_of_suffix_callText hw hsuf]
      exact List.nil_suffix
    rw [branchedSegments, branched, branchSegments_map_plain_append]
    by_cases hb : InBranch (before ++ g) a d.text
    · have hb' : InBranch (before' ++ g) a (d.branched (before ++ g ++ callText a)) :=
        ⟨hfront _ (closeParen_notMem_branchOpening harg) hb.1,
          branchClosing_prefix_branched hnest hb.2 _⟩
      rw [if_pos hb, branchSegments_call, textOf_branchedSegments, hbehind, callInBranch, if_pos hb',
        callInBranch, if_pos hb, List.append_assoc g]
    · rw [if_neg hb, branchSegments_map_plain_append, branchSegments_call,
        branchSegments_map_plain_append, hbehind, callInBranch, if_pos, callInBranch, if_neg hb]
      · simp only [List.append_assoc]
      · rw [textOf_append, textOf_map_plain]
        exact ⟨List.suffix_append _ _, List.prefix_append _ _⟩

end Cut

/-- Branches are not put in twice into a text in whose complete calls no head of a call is nested, and
none of which stands directly behind the name of a call. Neither condition can be left out. -/
theorem branchOnContext_idempotent :
    (∀ s : String, NoNestedCall s.toList → NoCallBehindName s.toList →
      branchOnContext (branchOnContext s) = branchOnContext s) ∧
    (∃ s : String, ¬ NoNestedCall s.toList ∧ NoCallBehindName s.toList ∧
      branchOnContext (branchOnContext s) ≠ branchOnContext s) ∧
    (∃ s : String, NoNestedCall s.toList ∧ ¬ NoCallBehindName s.toList ∧
      branchOnContext (branchOnContext s) ≠ branchOnContext s) := by
  refine ⟨?_, ⟨"cb.call(cb.call(x)", by decide +kernel⟩, ⟨"cb.callcb.call(x)", by decide +kernel⟩⟩
  intro s hnest hname
  obtain ⟨d, hd⟩ : ∃ d, d = Cut.ofSegments (segments s.toList) := ⟨_, rfl⟩
  obtain ⟨-, hclear⟩ := Cut.text_eq_and_gapsClear_iff.2 hd
  have hapart : d.CallsApart := by
    apply Cut.callsApart_of_foundCalls []
    · rwa [hd, Cut.segments_ofSegments]
    · rwa [hd, Cut.segments_ofSegments]
  have honce : branchText s.toList = d.branched [] := by
    rw [Cut.branchText_eq_branched, hd]
  have hread : segments (d.branched []) = d.branchedSegments [] := by
    rw [← Cut.textOf_branchedSegments, segments_textOf (Cut.isReading_branchedSegments hclear hapart [])]
  rw [← String.toList_inj, toList_branchOnContext, toList_branchOnContext, honce, branchText, hread]
  exact Cut.branchSegments_branchedSegments hclear hapart [] [] (fun w _ h => h)

/-- A call without arguments, one to be branched, one in its branch and one that is not complete. -/
theorem branchOnContext_idempotent_mixed :
    NoNestedCall "cb.call(); cb.call(that, x, y); (that ? cb.call(that) : cb()); cb.call(z".toList ∧
      NoCallBehindName
        "cb.call(); cb.call(that, x, y); (that ? cb.call(that) : cb()); cb.call(z".toList ∧
      branchOnContext (branchOnContext
          "cb.call(); cb.call(that, x, y); (that ? cb.call(that) : cb()); cb.call(z") =
        branchOnContext "cb.call(); cb.call(that, x, y); (that ? cb.call(that) : cb()); cb.call(z" := by
  have hnest : NoNestedCall
      "cb.call(); cb.call(that, x, y); (that ? cb.call(that) : cb()); cb.call(z".toList := by
    decide +kernel
  have hname : NoCallBehindName
      "cb.call(); cb.call(that, x, y); (that ? cb.call(that) : cb()); cb.call(z".toList := by
    decide +kernel
  exact ⟨hnest, hname, branchOnContext_idempotent.1 _ hnest hname⟩

end CollectionLoops.Source
