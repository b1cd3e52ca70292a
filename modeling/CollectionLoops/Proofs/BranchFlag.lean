import CollectionLoops.Method.Visitors
import CollectionLoops.Proofs.Binding
import CollectionLoops.Proofs.Source.Fragments

/-!
The flag by which a loop binds its callback, and the branches in its source. The flag tells whether
a branch was put in when the loop was compiled. Main statement: it tells the truth about the source
unless all branches were there before.
-/
namespace CollectionLoops

namespace Source

/-- Whether a text has a complete call in its own branch in it. -/
def HasBranch (s : List Char) : Prop :=
  ∃ a, IsArgumentText a ∧ branchOpening a ++ callText a ++ branchClosing a <:+: s

/-- Whether reading a text finds a complete call that does not stand in its own branch. -/
def LacksBranch (s : List Char) : Prop := (Cut.ofSegments (segments s)).LacksBranch []

theorem branchText_eq_self_iff (s : List Char) : branchText s = s ↔ ¬ LacksBranch s := by
  have htext : (Cut.ofSegments (segments s)).text = s := by
    rw [← Cut.textOf_segments, Cut.segments_ofSegments, textOf_segments]
  have h := Cut.branched_eq_text_iff [] (Cut.ofSegments (segments s))
  rwa [htext, ← Cut.branchText_eq_branched] at h

/-- A call that lacks its branch gets it, whatever becomes of the calls behind it. -/
theorem Cut.hasBranch_branched {d : Cut} (hd : d.GapsClear) {before : List Char}
    (h : d.LacksBranch before) : HasBranch (d.branched before) := by
  induction d generalizing before with
  | gap g => exact h.elim
  | call g a d ih =>
    obtain ⟨ha, -, hd⟩ := hd
    rw [branched]
    by_cases hb : InBranch (before ++ g) a d.text
    · obtain ⟨c, hc, hin⟩ := ih hd (h.resolve_left (not_not_intro hb))
      exact ⟨c, hc, hin.trans (List.suffix_append _ _).isInfix⟩
    · rw [callInBranch, if_neg hb]
      exact ⟨a, ha, List.infix_append _ _ _⟩

/-- A branch is in the text with its branches if one was put in or if one was there. -/
theorem hasBranch_branchText_iff (s : List Char) :
    HasBranch (branchText s) ↔ LacksBranch s ∨ HasBranch s := by
  by_cases h : LacksBranch s
  · have hclear : (Cut.ofSegments (segments s)).GapsClear := (Cut.text_eq_and_gapsClear_iff.2 rfl).2
    simp only [h, true_or, iff_true]
    rw [Cut.branchText_eq_branched]
    exact Cut.hasBranch_branched hclear h
  · rw [(branchText_eq_self_iff s).2 h]
    simp only [h, false_or]

end Source

namespace LoopSpec

open Source

variable {σ : Type}

theorem bindsCallback_compile_iff (p : LoopSpec σ) (name : String) :
    (p.compile name).bindsCallback = true ↔ LacksBranch p.assemble.toList := by
  change (branchOnContext p.assemble != p.assemble) = true ↔ _
  rw [bne_iff_ne, ne_eq, ← String.toList_inj, toList_branchOnContext, branchText_eq_self_iff,
    not_not]

/-- The flag of a loop agrees with the branches in its source exactly if reading the assembled text
finds a call without its branch or no branch was there before. A loop whose flag is set has a branch
in its source and takes its invoker from the context. -/
theorem bindsCallback_iff_hasBranch_iff (p : LoopSpec σ) (name : String) :
    let l := p.compile name
    ((l.bindsCallback = true ↔ HasBranch l.source.toList) ↔
      (HasBranch p.assemble.toList → LacksBranch p.assemble.toList)) ∧
    (l.bindsCallback = true ↔ LacksBranch p.assemble.toList) ∧
    (l.bindsCallback = true → HasBranch l.source.toList ∧
      ∀ f, (l.settle f).invoker = .resolve f.that) := by
  intro l
  have hflag : l.bindsCallback = true ↔ LacksBranch p.assemble.toList :=
    p.bindsCallback_compile_iff name
  have hsource : HasBranch l.source.toList ↔
      LacksBranch p.assemble.toList ∨ HasBranch p.assemble.toList := by
    rw [← hasBranch_branchText_iff, ← toList_branchOnContext]
    rfl
  refine ⟨?_, hflag, fun hbinds => ⟨?_, fun f => ?_⟩⟩
  · rw [hflag, hsource, iff_self_or]
  · exact hsource.2 (Or.inl (hflag.1 hbinds))
  · rw [Loop.settle, if_pos hbinds]

/-- A loop whose one call stands in its branch before it is compiled. -/
def branched : LoopSpec Unit where
  body := some ⟨"(that ? cb.call(that, a) : cb(a))", Method.eachBody⟩

theorem bindsCallback_branched (name : String) : (branched.compile name).bindsCallback = false := by
  rw [bindsCallback_compile]
  case ha | hb | hc | hd | he | hf | hg => exact String.toList_ofList
  decide +kernel

theorem hasBranch_branched (name : String) :
    HasBranch (branched.compile name).source.toList := by
  have hbody : "(that ? cb.call(that, a) : cb(a))".toList =
      branchOpening "that, a".toList ++ callText "that, a".toList ++
        branchClosing "that, a".toList := by
    decide +kernel
  have hassembled : HasBranch branched.assemble.toList := by
    refine ⟨"that, a".toList, by constructor <;> decide, ?_⟩
    rw [← hbody, assemble, toList_assembleTexts, ← List.append_assoc, ← List.append_assoc,
      ← List.append_assoc, ← List.append_assoc]
    exact List.infix_append _ _ _
  have hbranch := (hasBranch_branchText_iff _).2 (Or.inr hassembled)
  rwa [← toList_branchOnContext] at hbranch

/-- A loop whose one call stood in its branch before: its source branches on the context, but the
callback is not bound to one that is truthy. -/
theorem bindsCallback_of_branched_body :
    let p : LoopSpec Unit := { body := some ⟨"(that ? cb.call(that, a) : cb(a))", Method.eachBody⟩ }
    let l := p.compile "custom"
    HasBranch l.source.toList ∧ l.bindsCallback = false ∧
      ¬ (l.bindsCallback = true ↔ HasBranch l.source.toList) ∧
      (l.settle (.start .undefined .undefined (some (.boolean true)))).invoker = .unbound := by
  intro p l
  have hbinds : l.bindsCallback = false := bindsCallback_branched "custom"
  have hbranch : HasBranch l.source.toList := hasBranch_branched "custom"
  refine ⟨hbranch, hbinds, ?_, ?_⟩
  · rw [hbinds]
    exact fun h => absurd (h.2 hbranch) Bool.false_ne_true
  · rw [Loop.settle, if_neg (by rw [hbinds]; decide)]
    rfl

end LoopSpec

end CollectionLoops
