import CollectionLoops.Loop.Spec
import CollectionLoops.Proofs.Source.CallHead
import Mathlib.Data.List.Infix

/-!
Branches in the fragments of a loop. No call reaches from a fragment into the text around it if each
one is closed on its line, and no half of a branch does, since that text has in it what a half
cannot have. Main statement: the assembled text with its branches is assembled from the fragments
with theirs.
-/
namespace CollectionLoops

namespace Source

section Lists

variable {α : Type} {w u v y : List α} {c : α}

/-- A prefix does not end in what lacks its last value. -/
theorem prefix_of_getLast?_notMem (hw : w.getLast? = some c) (hc : c ∉ y) (h : w <+: v ++ y) :
    w <+: v := by
  rcases prefix_or_of_prefix_append h with h | ⟨q, hq, rfl, hqy⟩
  · exact h
  · rw [List.getLast?_append, List.getLast?_eq_some_getLast hq, Option.some_or] at hw
    have hmem := List.getLast_mem hq
    rw [Option.some.inj hw] at hmem
    exact absurd (hqy.subset hmem) hc

/-- A suffix does not begin in what lacks its first value. -/
theorem suffix_of_head?_notMem (hw : w.head? = some c) (hc : c ∉ y) (h : w <:+ y ++ v) :
    w <:+ v := by
  rw [← List.reverse_prefix, List.reverse_append] at h
  rw [← List.reverse_prefix]
  refine prefix_of_getLast?_notMem ?_ (mt List.mem_reverse.1 hc) h
  rw [List.getLast?_reverse, hw]

/-- A suffix begins behind a value that it does not hold. -/
theorem suffix_of_notMem (hc : c ∉ w) (h : w <:+ u ++ c :: v) : w <:+ v := by
  rw [← List.reverse_prefix, List.reverse_append, List.reverse_cons, List.append_assoc] at h
  rw [← List.reverse_prefix]
  exact prefix_of_notMem (mt List.mem_reverse.1 hc) h

/-- What ends with a value twice, and holds it nowhere else, does not end behind a place where the
value stands once. -/
theorem prefix_of_twice_at_end {t x : List α} {d : α} (hw : w = t ++ [c, c]) (ht : c ∉ t)
    (hy : c ∉ y) (hne : y ≠ []) (hd : d ≠ c) (h : w <+: v ++ (y ++ c :: d :: x)) : w <+: v := by
  have hlast : w.getLast? = some c := by rw [hw, List.getLast?_append]; rfl
  rw [← List.append_assoc] at h
  rcases prefix_or_of_prefix_append h with h | ⟨q, hq, hwq, hqx⟩
  · exact prefix_of_getLast?_notMem hlast hy h
  rcases List.prefix_cons_iff.1 hqx with rfl | ⟨q, rfl, hqd⟩
  · exact absurd rfl hq
  rcases List.prefix_cons_iff.1 hqd with rfl | ⟨q, rfl, -⟩
  · -- the first of the two would be the last value of `y`
    have hlast : t ++ [c] = v ++ y := by
      rw [hwq, List.append_cons t, List.append_cancel_right_eq] at hw
      exact hw.symm
    have := congrArg List.getLast? hlast
    rw [List.getLast?_append, List.getLast?_append, List.getLast?_eq_some_getLast hne] at this
    have hmem := List.getLast_mem hne
    rw [← Option.some.inj this] at hmem
    exact absurd hmem hy
  · -- behind the value stands another one, so that neither of the two is there
    rw [hwq] at hw
    rcases List.append_eq_append_iff.1 hw with ⟨s, rfl, hs⟩ | ⟨s, hs, hs'⟩
    · cases s with
      | nil =>
        simp only [List.nil_append, List.cons.injEq, true_and] at hs
        exact absurd hs.1 hd
      | cons e s =>
        simp only [List.cons_append, List.cons.injEq] at hs
        simp [hs.1] at ht
    · rcases s with _ | ⟨e, _ | ⟨e', s⟩⟩
      · simp only [List.nil_append, List.cons.injEq, true_and] at hs'
        exact absurd hs'.1.symm hd
      · simp at hs'
      · simp at hs'

end Lists

/-- Every head of a call is followed by a closing parenthesis before its line ends. -/
def ClosesCalls (s : List Char) : Prop :=
  ∀ t, callHead ++ t <:+ s → ')' ∈ t.takeWhile (· != '\n')

instance (s : List Char) : Decidable (ClosesCalls s) :=
  decidable_of_iff
    (∀ u ∈ s.tails, callHead <+: u → ')' ∈ (u.drop callHead.length).takeWhile (· != '\n')) <| by
    constructor
    · intro h t ht
      have := h _ ((List.mem_tails _ _).2 ht) (List.prefix_append callHead t)
      rwa [List.drop_left] at this
    · rintro h u hu ⟨t, rfl⟩
      rw [List.drop_left]
      exact h t ((List.mem_tails _ _).1 hu)

theorem ClosesCalls.of_suffix {s t : List Char} (h : ClosesCalls s) (ht : t <:+ s) :
    ClosesCalls t := fun r hr => h r (hr.trans ht)

theorem closesCalls_of_no_callHead {s : List Char} (h : ¬ callHead <:+: s) : ClosesCalls s :=
  fun t ht => absurd ((List.prefix_append callHead t).isInfix.trans ht.isInfix) h

/-- Where the calls are closed on their lines, the arguments of one stand on one line. -/
theorem newline_notMem_of_closesCalls {a t : List Char} (ha : IsArgumentText a)
    (h : ClosesCalls (callText a ++ t)) : '\n' ∉ a := by
  intro hm
  obtain ⟨u, v, rfl, -⟩ := List.eq_append_cons_of_mem hm
  have hclosed : ')' ∈ (u ++ '\n' :: (v ++ ')' :: t)).takeWhile (· != '\n') := by
    refine h _ ⟨[], ?_⟩
    simp [callText]
  have hline : (u ++ '\n' :: (v ++ ')' :: t)).takeWhile (· != '\n') <+: u := by
    refine prefix_of_notMem ?_ (List.takeWhile_prefix _)
    intro hn
    simpa using List.all_eq_true.1 List.all_takeWhile _ hn
  exact ha.2 (List.mem_append_left _ (hline.subset hclosed))

/-- A call that is not complete does not become so by what follows the text: no parenthesis is
closed too late, and no head is cut off by the end. -/
theorem not_startsCall_append_of_closesCalls {s x : List Char} (hs : ClosesCalls s) (hne : s ≠ [])
    (hx : ∀ c, x.head? = some c → c ∉ callHead) (h : ¬ StartsCall s) : ¬ StartsCall (s ++ x) := by
  intro hstart
  obtain ⟨a, rest, -, heq⟩ := id hstart
  have hpre : callHead <+: s ++ x := ⟨a ++ ')' :: rest, by rw [heq, List.append_assoc]⟩
  rcases prefix_or_of_prefix_append hpre with ⟨p, rfl⟩ | ⟨q, hq, hsq, hqx⟩
  · have hp : ')' ∈ p := (List.takeWhile_prefix _).subset (hs p (List.suffix_refl _))
    obtain ⟨d, p, rfl⟩ := List.exists_cons_of_ne_nil (List.ne_nil_of_mem hp)
    rw [List.append_assoc, startsCall_callHead_append_iff] at hstart
    rw [startsCall_callHead_append_iff] at h
    exact h ⟨hp, by simpa using hstart.2⟩
  · obtain ⟨d, q, rfl⟩ := List.exists_cons_of_ne_nil hq
    obtain ⟨t, rfl⟩ := hqx
    refine hx d rfl ?_
    rw [hsq]
    simp

theorem isReading_append {l l' : List Segment} (hl : IsReading l) (hl' : IsReading l')
    (hcalls : ClosesCalls (textOf l))
    (hhead : ∀ c, (textOf l').head? = some c → c ∉ callHead) : IsReading (l ++ l') := by
  induction l with
  | nil => exact hl'
  | cons x l ih =>
    have hbehind (h : IsReading l) := ih h (hcalls.of_suffix ⟨x.text, rfl⟩)
    cases x with
    | plain c =>
      refine ⟨?_, hbehind hl.2⟩
      have htext : c :: textOf (l ++ l') = textOf (.plain c :: l) ++ textOf l' := by
        simp [textOf_append]
      change ¬ StartsCall (c :: textOf (l ++ l'))
      rw [htext]
      exact not_startsCall_append_of_closesCalls hcalls (List.cons_ne_nil _ _) hhead hl.1
    | call a => exact ⟨hl.1, hbehind hl.2⟩

/-- A text whose calls are closed is read without what follows it. -/
theorem segments_append {s x : List Char} (hs : ClosesCalls s)
    (hx : ∀ c, x.head? = some c → c ∉ callHead) : segments (s ++ x) = segments s ++ segments x := by
  have hread : IsReading (segments s ++ segments x) :=
    isReading_append (isReading_segments s) (isReading_segments x) (by rwa [textOf_segments])
      (by rwa [textOf_segments])
  have := segments_textOf hread
  rwa [textOf_append, textOf_segments, textOf_segments] at this

/-- What holds no head of a call, and ends with none of its characters, is read as it stands. -/
theorem segments_plain_append {s : List Char} {z : Char} (hz : z ∉ callHead)
    (hlast : s.getLast? = some z) (hs : ¬ callHead <:+: s) (x : List Char) :
    segments (s ++ x) = s.map .plain ++ segments x := by
  have hread : IsReading (s.map .plain ++ segments x) :=
    isReading_map_plain_append_iff.2
      ⟨fun u v huv hv => not_startsCall_append hz hs hlast huv hv _, isReading_segments x⟩
  have := segments_textOf hread
  rwa [textOf_append, textOf_map_plain, textOf_segments] at this

theorem branchText_eq_self {s : List Char} (h : ¬ callHead <:+: s) : branchText s = s := by
  have hread : IsReading (s.map .plain ++ []) := by
    refine isReading_map_plain_append_iff.2 ⟨?_, trivial⟩
    rintro u v rfl - ⟨a, rest, -, hv⟩
    rw [textOf_nil, List.append_nil] at hv
    refine h ⟨u, a ++ ')' :: rest, ?_⟩
    rw [hv, List.append_assoc, List.append_assoc]
  have := segments_textOf hread
  rw [List.append_nil, textOf_map_plain] at this
  rw [branchText, this, branchSegments_map_plain]

/-- No opening of a branch begins in a text and ends behind it. -/
def BarsOpenings (b : List Char) : Prop :=
  ∀ a v, IsArgumentText a → '\n' ∉ a → branchOpening a <:+ b ++ v → branchOpening a <:+ v

/-- No closing of a branch begins in front of a text and ends in it. -/
def BarsClosings (x : List Char) : Prop :=
  ∀ a u, IsArgumentText a → '\n' ∉ a → branchClosing a <+: u ++ x → branchClosing a <+: u

theorem callInBranch_append {b a x : List Char} (hb : BarsOpenings b) (hx : BarsClosings x)
    (ha : IsArgumentText a) (hline : '\n' ∉ a) (t u : List Char) :
    callInBranch (b ++ t) a (u ++ x) = callInBranch t a u := by
  have h : InBranch (b ++ t) a (u ++ x) ↔ InBranch t a u := by
    constructor
    · exact fun h => ⟨hb a t ha hline h.1, hx a u ha hline h.2⟩
    · exact fun h => ⟨List.suffix_append_of_suffix h.1, h.2.trans (List.prefix_append u x)⟩
  simp only [callInBranch, h]

/-- Segments in a longer text get the branches that they get by themselves. -/
theorem branchSegments_append {b : List Char} {l l' : List Segment} (hb : BarsOpenings b)
    (hx : BarsClosings (textOf l')) (hl : IsReading l) (hcalls : ClosesCalls (textOf l))
    (t : List Char) :
    branchSegments (b ++ t).reverse (l ++ l') =
      branchSegments t.reverse l ++ branchSegments (b ++ t ++ textOf l).reverse l' := by
  induction l generalizing t with
  | nil => simp
  | cons x l ih =>
    have hbehind (h : IsReading l) := ih h (hcalls.of_suffix ⟨x.text, rfl⟩)
    cases x with
    | plain c =>
      have hc (s : List Char) : c :: s.reverse = (s ++ [c]).reverse := by simp
      rw [List.cons_append, branchSegments_plain, branchSegments_plain, hc, hc, List.append_assoc,
        hbehind hl.2]
      simp
    | call a =>
      have hline : '\n' ∉ a := newline_notMem_of_closesCalls hl.1 hcalls
      rw [List.cons_append, branchSegments_call, branchSegments_call, textOf_append,
        callInBranch_append hb hx hl.1 hline, List.append_assoc b, hbehind hl.2]
      simp

/-- A text that keeps the fragments on its two sides apart: no call and neither half of a branch
reaches into it or across it. -/
structure Separates (s : List Char) : Prop where
  openings : ∀ u, BarsOpenings (u ++ s)
  closings : ∀ x, BarsClosings (s ++ x)
  head : ∃ c ∉ callHead, s.head? = some c
  last : ∃ c ∉ callHead, s.getLast? = some c
  plain : ¬ callHead <:+: s

/-- A fragment gets the branches that it gets by itself if it stands between two separating texts;
the second of them is kept. -/
theorem branchSegments_fragment {b f s : List Char} (hb : BarsOpenings b) (hs : Separates s)
    (hf : ClosesCalls f) (x : List Char) :
    branchSegments b.reverse (segments (f ++ (s ++ x))) =
      branchText f ++ (s ++ branchSegments (b ++ f ++ s).reverse (segments x)) := by
  obtain ⟨c, hc, hhead⟩ := hs.head
  obtain ⟨z, hz, hlast⟩ := hs.last
  have hsx : ∀ d, (s ++ x).head? = some d → d ∉ callHead := by
    intro d hd
    rw [List.head?_append, hhead, Option.some_or] at hd
    rwa [← Option.some.inj hd]
  have hclosings : BarsClosings (textOf (segments (s ++ x))) := by
    rw [textOf_segments]
    exact hs.closings x
  have h := branchSegments_append hb hclosings (isReading_segments f) (by rwa [textOf_segments]) []
  rw [segments_append hf hsx]
  rw [List.append_nil, textOf_segments] at h
  rw [h, segments_plain_append hz hlast hs.plain, branchSegments_map_plain_append]
  rfl

/-- The same for a fragment at the end. -/
theorem branchSegments_last {b f : List Char} (hb : BarsOpenings b) (hf : ClosesCalls f) :
    branchSegments b.reverse (segments f) = branchText f := by
  have hnil : BarsClosings (textOf []) := fun _ _ _ _ h => by rwa [textOf_nil, List.append_nil] at h
  have h := branchSegments_append hb hnil (isReading_segments f) (by rwa [textOf_segments]) []
  rwa [List.append_nil, List.append_nil, branchSegments_nil, List.append_nil] at h

theorem notMem_branchOpening {c : Char} {a : List Char} (hc : c ∉ ['(', ' ', '?', ' '])
    (ha : c ∉ firstArgument a) : c ∉ branchOpening a := by
  rw [branchOpening_eq]
  simp_all

theorem notMem_passedText {c : Char} {a : List Char} (hcomma : c ≠ ',') (hspace : c ≠ ' ')
    (ha : c ∉ a) : c ∉ [',', ' '].intercalate (furtherArguments a) := by
  intro hm
  obtain ⟨u, v, huv⟩ := List.append_of_mem hm
  have hin : [c] <:+: [',', ' '].intercalate (furtherArguments a) := ⟨u, v, by rw [huv]; simp⟩
  obtain ⟨p, hp, hcp⟩ := exists_infix_of_infix_intercalate (List.cons_ne_nil _ _)
    (by simpa using hcomma.symm) (by simpa using hspace.symm) hin
  exact ha ((infix_of_mem_furtherArguments hp).subset (hcp.subset (List.mem_singleton_self c)))

theorem comma_notMem_firstArgument (a : List Char) : ',' ∉ firstArgument a := by
  intro hm
  have := (trim_infix_self _).subset hm
  simpa using List.all_eq_true.1 List.all_takeWhile _ this

/-- Both closing parentheses of a branch stand at its end. -/
theorem exists_branchClosing_eq {a : List Char} (ha : IsArgumentText a) :
    ∃ t, branchClosing a = t ++ [')', ')'] ∧ ')' ∉ t := by
  refine ⟨" : cb(".toList ++ [',', ' '].intercalate (furtherArguments a), rfl, ?_⟩
  rw [List.mem_append, not_or]
  exact ⟨by decide, notMem_passedText (by decide) (by decide) ha.2⟩

theorem newline_notMem_branchClosing {a : List Char} (hline : '\n' ∉ a) :
    '\n' ∉ branchClosing a := by
  rw [branchClosing_eq]
  have := notMem_passedText (c := '\n') (by decide) (by decide) hline
  simp_all

/-- A character that no opening holds bars openings, if no parenthesis is opened behind it. -/
theorem barsOpenings_append {c : Char} {q : List Char} (hq : '(' ∉ q)
    (hc : ∀ a, IsArgumentText a → '\n' ∉ a → c ∉ branchOpening a) (u p : List Char) :
    BarsOpenings (u ++ (p ++ c :: q)) := by
  intro a v ha hline h
  rw [← List.append_assoc, List.append_assoc, List.cons_append] at h
  exact suffix_of_head?_notMem (by rw [branchOpening_eq]; rfl) hq
    (suffix_of_notMem (hc a ha hline) h)

/-- The end of a line bars closings, if no parenthesis is closed in front of it. -/
theorem barsClosings_newline {p : List Char} (hp : ')' ∉ p) (q x : List Char) :
    BarsClosings (p ++ '\n' :: q ++ x) := by
  intro a u ha hline h
  rw [List.append_assoc, ← List.append_assoc] at h
  exact prefix_of_getLast?_notMem (getLast?_branchClosing a) hp
    (prefix_of_notMem (newline_notMem_branchClosing hline) h)

/-- A parenthesis that is closed alone bars closings. -/
theorem barsClosings_closeParen {p : List Char} {d : Char} (hp : ')' ∉ p) (hne : p ≠ [])
    (hd : d ≠ ')') (q x : List Char) : BarsClosings (p ++ ')' :: d :: q ++ x) := by
  intro a u ha hline h
  rw [List.append_assoc] at h
  obtain ⟨t, ht, hmem⟩ := exists_branchClosing_eq ha
  exact prefix_of_twice_at_end ht hmem hp hne hd h

/-- The texts between two fragments of a loop. -/
def beforeCount : List Char := "\nfor (i = 0, n = ".toList

def beforeBody : List Char := "; i < n; ++i) \x7b ".toList

def beforeEpilogue : List Char := " \x7d\n".toList

theorem beforeCount_eq : beforeCount =
    ['\n', 'f', 'o', 'r', ' ', '(', 'i', ' ', '=', ' ', '0'] ++ ',' :: [' ', 'n', ' ', '=', ' '] :=
  String.toList_ofList

theorem beforeBody_eq : beforeBody =
    [';', ' ', 'i', ' ', '<', ' ', 'n', ';', ' ', '+', '+', 'i'] ++ ')' :: [' ', '\x7b', ' '] :=
  String.toList_ofList

theorem beforeEpilogue_eq : beforeEpilogue = [' ', '\x7d'] ++ '\n' :: [] := String.toList_ofList

/-- The context in an opening ends in front of the first comma. -/
theorem separates_beforeCount : Separates beforeCount := by
  rw [beforeCount_eq]
  refine ⟨fun u => ?_, barsClosings_newline (p := []) (by decide) _, ?_, ?_, by decide⟩
  · refine barsOpenings_append (by decide) (fun a _ _ => ?_) _ _
    exact notMem_branchOpening (by decide) (comma_notMem_firstArgument a)
  · exact ⟨'\n', by decide, rfl⟩
  · exact ⟨' ', by decide, rfl⟩

theorem separates_beforeBody : Separates beforeBody := by
  rw [beforeBody_eq]
  refine ⟨fun u => ?_, barsClosings_closeParen (by decide) (by decide) (by decide) _, ?_, ?_,
    by decide⟩
  · refine barsOpenings_append (by decide) (fun a ha _ => ?_) _ _
    exact notMem_branchOpening (by decide) fun h => ha.2 ((firstArgument_infix_self a).subset h)
  · exact ⟨';', by decide, rfl⟩
  · exact ⟨' ', by decide, rfl⟩

theorem separates_beforeEpilogue : Separates beforeEpilogue := by
  rw [beforeEpilogue_eq]
  refine ⟨fun u => ?_, barsClosings_newline (by decide) _, ?_, ?_, by decide⟩
  · refine barsOpenings_append (by decide) (fun a _ hline => ?_) _ _
    exact notMem_branchOpening (by decide) fun h => hline ((firstArgument_infix_self a).subset h)
  · exact ⟨' ', by decide, rfl⟩
  · exact ⟨'\n', by decide, rfl⟩

/-- The assembled text of fragments that close their calls has the branches of the fragments. -/
theorem branchText_assembled {p c b e : List Char} (hp : ClosesCalls p) (hc : ClosesCalls c)
    (hb : ClosesCalls b) (he : ClosesCalls e) :
    branchText (p ++ (beforeCount ++ (c ++ (beforeBody ++ (b ++ (beforeEpilogue ++ e)))))) =
      branchText p ++ (beforeCount ++ (branchText c ++ (beforeBody ++ (branchText b ++
        (beforeEpilogue ++ branchText e))))) := by
  have hstart : BarsOpenings [] := fun _ _ _ _ h => h
  have hprologue := branchSegments_fragment hstart separates_beforeCount hp
  rw [List.reverse_nil] at hprologue
  rw [branchText, hprologue,
    branchSegments_fragment (separates_beforeCount.openings _) separates_beforeBody hc,
    branchSegments_fragment (separates_beforeBody.openings _) separates_beforeEpilogue hb,
    branchSegments_last (separates_beforeEpilogue.openings _) he]

end Source

/-- A fragment with another text for the same step. -/
def Fragment.mapSource {α : Type} (f : String → String) (x : Fragment α) : Fragment α :=
  { x with source := f x.source }

namespace LoopSpec

open Source

variable {σ : Type}

/-- The loop with other texts in the slots that are filled. -/
def mapSources (f : String → String) (p : LoopSpec σ) : LoopSpec σ where
  prologue := p.prologue.map (·.mapSource f)
  count := p.count.map (·.mapSource f)
  body := p.body.map (·.mapSource f)
  epilogue := p.epilogue.map (·.mapSource f)

theorem toList_assembleTexts (p c b e : String) :
    (assembleTexts p c b e).toList = p.toList ++ (beforeCount ++ (c.toList ++ (beforeBody ++
      (b.toList ++ (beforeEpilogue ++ e.toList))))) := by
  have h (s t u : String) : (p ++ s ++ c ++ t ++ b ++ u ++ e).toList =
      p.toList ++ (s.toList ++ (c.toList ++ (t.toList ++ (b.toList ++
        (u.toList ++ e.toList))))) := by
    simp only [String.toList_append, List.append_assoc]
  exact h _ _ _

/-- The default texts hold no call. -/
theorem not_callHead_infix_default {d : String}
    (hd : d ∈ ["", "receiver ? receiver.length : 0", "return receiver"]) :
    ¬ callHead <:+: d.toList := by
  simp only [List.mem_cons, List.not_mem_nil, or_false] at hd
  rcases hd with rfl | rfl | rfl <;> decide +kernel

/-- The text of a slot closes its calls if the fragment in it does, and gets its branches there. -/
theorem closesCalls_source {α : Type} {x : Option (Fragment α)} {d : Fragment α}
    (hd : ¬ callHead <:+: d.source.toList)
    (hx : ∀ s, some s = x.map (·.source) → ClosesCalls s.toList) :
    ClosesCalls (x.getD d).source.toList ∧
      branchText (x.getD d).source.toList =
        ((x.map (·.mapSource branchOnContext)).getD d).source.toList := by
  cases x with
  | none => exact ⟨closesCalls_of_no_callHead hd, branchText_eq_self hd⟩
  | some x => exact ⟨hx _ rfl, (toList_branchOnContext _).symm⟩

/-- If each call in a fragment is closed before its line ends, the text of the loop with its branches
is assembled from the fragments with theirs, an empty slot keeping its default: the text between the
fragments is not touched. -/
theorem branchOnContext_assemble (p : LoopSpec σ)
    (hp : ∀ s, some s ∈ p.sources → ClosesCalls s.toList) :
    branchOnContext p.assemble = (p.mapSources branchOnContext).assemble := by
  have hslot : ∀ x ∈ p.sources, ∀ s, some s = x → ClosesCalls s.toList :=
    fun x hx s hs => hp s (hs ▸ hx)
  rw [sources, List.forall_mem_cons, List.forall_mem_cons, List.forall_mem_cons,
    List.forall_mem_singleton] at hslot
  obtain ⟨hprologue, hcount, hbody, hepilogue⟩ := hslot
  obtain ⟨hclosesP, heqP⟩ := closesCalls_source (d := Fragment.noPrologue.map (StorePrologue.lift (σ := σ)))
    (not_callHead_infix_default List.mem_cons_self) hprologue
  obtain ⟨hclosesC, heqC⟩ := closesCalls_source (d := Fragment.receiverLength.map (StoreCount.lift (σ := σ)))
    (not_callHead_infix_default (by simp [Fragment.map, Fragment.receiverLength])) hcount
  obtain ⟨hclosesB, heqB⟩ := closesCalls_source (d := Fragment.noBody (σ := σ))
    (not_callHead_infix_default List.mem_cons_self) hbody
  obtain ⟨hclosesE, heqE⟩ := closesCalls_source (d := Fragment.returnReceiver.map (StoreEpilogue.lift (σ := σ)))
    (not_callHead_infix_default (by simp [Fragment.map, Fragment.returnReceiver])) hepilogue
  rw [← String.toList_inj, toList_branchOnContext, assemble, assemble, toList_assembleTexts,
    toList_assembleTexts, prologueFragment, countFragment, bodyFragment, epilogueFragment,
    branchText_assembled hclosesP hclosesC hclosesB hclosesE, heqP, heqC,
    heqB, heqE]
  rfl

/-- A loop with a call in its prologue, one in its branch already in its body, and one without
arguments. -/
theorem branchOnContext_assemble_mixed :
    let p : LoopSpec Unit :=
      { prologue := some ⟨"cb.call(that, 0)\nn = 0", fun _ f => pure f⟩
        body := some ⟨"(that ? cb.call(that, i) : cb(i)); cb.call()", fun _ f _ => pure (.next f)⟩ }
    (∀ s, some s ∈ p.sources → ClosesCalls s.toList) ∧
      branchOnContext p.assemble = (p.mapSources branchOnContext).assemble := by
  intro p
  have hp : ∀ s, some s ∈ p.sources → ClosesCalls s.toList := by
    intro s hs
    simp only [p, sources, Option.map_some, Option.map_none, List.mem_cons, Option.some.injEq,
      reduceCtorEq, List.not_mem_nil, or_false, false_or] at hs
    rcases hs with rfl | rfl <;> decide +kernel
  exact ⟨hp, branchOnContext_assemble p hp⟩

/-- A call that its fragment leaves open is closed by the text behind the fragment. -/
example :
    let p : LoopSpec Unit := { count := some ⟨"cb.call(that", fun _ _ => pure 0⟩ }
    branchOnContext p.assemble ≠ (p.mapSources branchOnContext).assemble := by
  decide +kernel

end LoopSpec

end CollectionLoops
