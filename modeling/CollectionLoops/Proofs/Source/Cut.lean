import CollectionLoops.Proofs.Source.Reading
import Mathlib.Logic.Basic
import Mathlib.Tactic.ByContra

/-!
Texts cut at their calls, into gaps and complete calls in turn. Main statement: there is exactly one
way to cut a text so that no complete call begins inside a gap, and the text with its branches is made
of the same parts, with a branch around each call that did not stand in its own.
-/
namespace CollectionLoops.Source

theorem splitOn_eq_pieces (s : List Char) : s.splitOn ',' = (pieces s).1 :: (pieces s).2 := by
  have h := List.splitOn_intercalate ',' (comma_notMem_pieces s) (by simp)
  rwa [intercalate_pieces] at h

theorem takeWhile_eq_pieces_fst (s : List Char) : s.takeWhile (· != ',') = (pieces s).1 := by
  induction s with
  | nil => rfl
  | cons c s ih =>
    by_cases h : c = ','
    · subst h
      simp
    · rw [pieces_cons h, List.takeWhile_cons_of_pos (by simpa using h), ih]

/-- The first argument: what stands before the first comma, without the white space around it. -/
def firstArgument (a : List Char) : List Char := Text.trim (a.takeWhile (· != ','))

/-- The other arguments: what stands between the commas and behind the last one, each without the
white space around it. -/
def furtherArguments (a : List Char) : List (List Char) := (a.splitOn ',').tail.map Text.trim

theorem ofText_eq (a : List Char) :
    Arguments.ofText a = ⟨firstArgument a, furtherArguments a⟩ := by
  rw [firstArgument, furtherArguments, takeWhile_eq_pieces_fst, splitOn_eq_pieces]
  rfl

def branchOpening (a : List Char) : List Char := "(".toList ++ firstArgument a ++ " ? ".toList

def branchClosing (a : List Char) : List Char :=
  " : cb(".toList ++ ", ".toList.intercalate (furtherArguments a) ++ "))".toList

/-- Whether a call stands in its own branch, by the texts in front of it and behind it. -/
def InBranch (before a after : List Char) : Prop :=
  branchOpening a <:+ before ∧ branchClosing a <+: after

instance (before a after : List Char) : Decidable (InBranch before a after) :=
  inferInstanceAs (Decidable (_ ∧ _))

/-- A call in its branch, where the parts of the branch that are around it already are not repeated. -/
def callInBranch (before a after : List Char) : List Char :=
  if InBranch before a after then callText a
  else branchOpening a ++ callText a ++ branchClosing a

theorem branchHead_ofText (a : List Char) : (Arguments.ofText a).branchHead = branchOpening a := by
  rw [ofText_eq]
  rfl

theorem branchTail_ofText (a : List Char) : (Arguments.ofText a).branchTail = branchClosing a := by
  rw [ofText_eq]
  rfl

theorem isBranched_ofText_iff {before a after : List Char} :
    (Arguments.ofText a).isBranched before.reverse after ↔ InBranch before a after := by
  rw [Arguments.isBranched_iff, branchHead_ofText, branchTail_ofText, List.reverse_reverse]
  rfl

theorem branchCall_eq_callInBranch (before a after : List Char) :
    branchCall before.reverse a after = callInBranch before a after := by
  simp only [branchCall, callInBranch, branchHead_ofText, branchTail_ofText, text_call]
  by_cases h : InBranch before a after
  · rw [if_pos h]
    exact if_pos (isBranched_ofText_iff.2 h)
  · rw [if_neg h]
    exact if_neg (fun hb => h (isBranched_ofText_iff.1 hb))

theorem branchSegments_map_plain_append (before g : List Char) (l : List Segment) :
    branchSegments before.reverse (g.map .plain ++ l) =
      g ++ branchSegments (before ++ g).reverse l := by
  induction g generalizing before with
  | nil => simp
  | cons c g ih =>
    have hc : c :: before.reverse = (before ++ [c]).reverse := by simp
    rw [List.map_cons, List.cons_append, branchSegments_plain, hc, ih, ← List.append_cons]
    rfl

theorem branchSegments_call (before a : List Char) (l : List Segment) :
    branchSegments before.reverse (.call a :: l) =
      callInBranch before a (textOf l) ++ branchSegments (before ++ callText a).reverse l := by
  rw [branchSegments, branchCall_eq_callInBranch, text_call, List.reverse_append]

/-- A text in parts: the gaps, and between them the argument texts of the calls. -/
inductive Cut
  | gap (g : List Char)
  | call (g a : List Char) (rest : Cut)

namespace Cut

def text : Cut → List Char
  | .gap g => g
  | .call g a d => g ++ callText a ++ d.text

/-- The calls are complete, and at no position of a gap does a complete call begin, wherever it
ends. -/
def GapsClear : Cut → Prop
  | .gap g => ∀ u v, g = u ++ v → v ≠ [] → ¬ StartsCall v
  | .call g a d => IsArgumentText a ∧
      (∀ u v, g = u ++ v → v ≠ [] → ¬ StartsCall (v ++ callText a ++ d.text)) ∧ d.GapsClear

/-- Each call is the leftmost complete one behind the call before it, and none follows the last. -/
def CallsLeftmost : Cut → Prop
  | .gap g => ∀ u v, g = u ++ v → ¬ StartsCall v
  | .call g a d =>
      (∀ u v, g ++ callText a ++ d.text = u ++ v → StartsCall v → g.length ≤ u.length) ∧
        d.CallsLeftmost

/-- The text with a branch around each call that does not stand in its own. Whether it does is a
question about the text as it was, of which `before` is what stands in front of these parts. -/
def branched (before : List Char) : Cut → List Char
  | .gap g => g
  | .call g a d => g ++ callInBranch (before ++ g) a d.text ++
      d.branched (before ++ g ++ callText a)

/-- Whether some call does not stand in its own branch. -/
def LacksBranch (before : List Char) : Cut → Prop
  | .gap _ => False
  | .call g a d => ¬ InBranch (before ++ g) a d.text ∨ d.LacksBranch (before ++ g ++ callText a)

def segments : Cut → List Segment
  | .gap g => g.map .plain
  | .call g a d => g.map .plain ++ .call a :: d.segments

def cons (c : Char) : Cut → Cut
  | .gap g => .gap (c :: g)
  | .call g a d => .call (c :: g) a d

/-- Segments as parts: characters that follow one another make up a gap. -/
def ofSegments : List Segment → Cut
  | [] => .gap []
  | .plain c :: l => (ofSegments l).cons c
  | .call a :: l => .call [] a (ofSegments l)

@[simp] theorem segments_cons (c : Char) (d : Cut) : (d.cons c).segments = .plain c :: d.segments := by
  cases d <;> rfl

@[simp] theorem segments_ofSegments (l : List Segment) : (ofSegments l).segments = l := by
  induction l with
  | nil => rfl
  | cons x l ih =>
    cases x with
    | plain c => rw [ofSegments, segments_cons, ih]
    | call a => rw [ofSegments, segments, ih, List.map_nil, List.nil_append]

theorem ofSegments_map_plain (g : List Char) : ofSegments (g.map .plain) = .gap g := by
  induction g with
  | nil => rfl
  | cons c g ih => rw [List.map_cons, ofSegments, ih]; rfl

theorem ofSegments_map_plain_append (g a : List Char) (l : List Segment) :
    ofSegments (g.map .plain ++ .call a :: l) = .call g a (ofSegments l) := by
  induction g with
  | nil => rfl
  | cons c g ih => rw [List.map_cons, List.cons_append, ofSegments, ih]; rfl

@[simp] theorem ofSegments_segments (d : Cut) : ofSegments d.segments = d := by
  induction d with
  | gap g => exact ofSegments_map_plain g
  | call g a d ih => rw [segments, ofSegments_map_plain_append, ih]

@[simp] theorem textOf_segments (d : Cut) : textOf d.segments = d.text := by
  induction d with
  | gap g => exact textOf_map_plain g
  | call g a d ih => simp [segments, text, textOf_append, ih]

/-- The gaps of a cut are clear exactly when its segments are what its text is read into. -/
theorem isReading_segments_iff {d : Cut} : IsReading d.segments ↔ d.GapsClear := by
  induction d with
  | gap g =>
    have h := isReading_map_plain_append_iff (g := g) (l := [])
    simpa [segments, GapsClear, IsReading] using h
  | call g a d ih =>
    rw [segments, isReading_map_plain_append_iff, IsReading, ih, GapsClear, textOf_cons, text_call,
      textOf_segments]
    simp only [List.append_assoc]
    exact and_left_comm

theorem text_eq_and_gapsClear_iff {d : Cut} {s : List Char} :
    d.text = s ∧ d.GapsClear ↔ d = ofSegments (Source.segments s) := by
  constructor
  · rintro ⟨rfl, h⟩
    rw [← textOf_segments, segments_textOf (isReading_segments_iff.2 h), ofSegments_segments]
  · rintro rfl
    constructor
    · rw [← textOf_segments, segments_ofSegments, Source.textOf_segments]
    · rw [← isReading_segments_iff, segments_ofSegments]
      exact isReading_segments s

/-- Where no complete call begins in a gap, a complete call further left than the next one cannot be. -/
theorem GapsClear.callsLeftmost {d : Cut} (h : d.GapsClear) : d.CallsLeftmost := by
  induction d with
  | gap g => exact fun u v hg hv => h u v hg hv.ne_nil hv
  | call g a d ih =>
    obtain ⟨-, hg, hd⟩ := h
    refine ⟨?_, ih hd⟩
    intro u v huv hv
    by_contra hlt
    rw [List.append_assoc] at huv
    rcases List.append_eq_append_iff.1 huv with ⟨w, rfl, -⟩ | ⟨w, rfl, hw⟩
    · simp at hlt
    · have hw0 : w ≠ [] := by
        rintro rfl
        simp at hlt
      rw [hw, ← List.append_assoc] at hv
      exact hg u w rfl hw0 hv

theorem branchSegments_segments (before : List Char) (d : Cut) :
    branchSegments before.reverse d.segments = d.branched before := by
  induction d generalizing before with
  | gap g => exact branchSegments_map_plain _ g
  | call g a d ih =>
    rw [segments, branchSegments_map_plain_append, branchSegments_call, textOf_segments, ih, branched,
      List.append_assoc g]

theorem branchText_eq_branched (s : List Char) :
    branchText s = (ofSegments (Source.segments s)).branched [] := by
  rw [branchText, ← branchSegments_segments, segments_ofSegments]
  rfl

theorem callText_sublist_callInBranch (before a after : List Char) :
    (callText a).Sublist (callInBranch before a after) := by
  unfold callInBranch
  split
  · exact List.Sublist.refl _
  · exact (List.sublist_append_right _ _).trans (List.sublist_append_left _ _)

theorem text_sublist_branched (before : List Char) (d : Cut) :
    d.text.Sublist (d.branched before) := by
  induction d generalizing before with
  | gap g => exact List.Sublist.refl g
  | call g a d ih =>
    exact ((List.Sublist.refl g).append (callText_sublist_callInBranch _ _ _)).append (ih _)

/-- Only calls that do not stand in their own branch make a difference. -/
theorem branched_eq_text_iff (before : List Char) (d : Cut) :
    d.branched before = d.text ↔ ¬ d.LacksBranch before := by
  induction d generalizing before with
  | gap g => simp [branched, text, LacksBranch]
  | call g a d ih =>
    rw [branched, text, LacksBranch]
    by_cases h : InBranch (before ++ g) a d.text
    · rw [callInBranch, if_pos h, List.append_cancel_left_eq, ih]
      simp [h]
    · have hlen := (text_sublist_branched (before ++ g ++ callText a) d).length_le
      simp only [h, not_false_eq_true, true_or, not_true_eq_false, iff_false]
      intro heq
      have := congrArg List.length heq
      simp only [callInBranch, if_neg h, branchOpening, List.length_append,
        show "(".toList.length = 1 from rfl] at this
      omega

end Cut

/-- A text has one cut with clear gaps. Its calls are the leftmost ones that do not overlap, and the
text with its branches is this cut with a branch around each call that did not stand in its own: every
part is kept in its place, and the text changes exactly when some call lacks its branch. -/
theorem branchOnContext_eq_branched_cut (s : String) :
    ∃ d : Cut, (d.text = s.toList ∧ d.GapsClear) ∧
      (∀ d' : Cut, d'.text = s.toList ∧ d'.GapsClear → d' = d) ∧
      d.CallsLeftmost ∧
      (branchOnContext s).toList = d.branched [] ∧
      s.toList.Sublist (branchOnContext s).toList ∧
      (branchOnContext s ≠ s ↔ d.LacksBranch []) := by
  obtain ⟨d, hd⟩ : ∃ d, d = Cut.ofSegments (segments s.toList) := ⟨_, rfl⟩
  obtain ⟨htext, hclear⟩ := Cut.text_eq_and_gapsClear_iff.2 hd
  have hbranch : (branchOnContext s).toList = d.branched [] := by
    rw [toList_branchOnContext, Cut.branchText_eq_branched, hd]
  refine ⟨d, ⟨htext, hclear⟩, ?_, hclear.callsLeftmost, hbranch, ?_, ?_⟩
  · intro d' h
    rw [hd]
    exact Cut.text_eq_and_gapsClear_iff.1 h
  · rw [hbranch, ← htext]
    exact Cut.text_sublist_branched [] d
  · rw [ne_eq, ← String.toList_inj, hbranch, ← htext, Cut.branched_eq_text_iff, not_not]

end CollectionLoops.Source
