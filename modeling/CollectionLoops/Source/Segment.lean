/-!
The bound callback calls in a piece of source text, found from left to right. Main statement: the
segments of a text, put together, are the text.
-/
namespace CollectionLoops.Source

/-- What a bound callback call begins with. -/
def callHead : List Char := "cb.call(".toList

/-- The arguments of the complete call that `s` begins with, and the text after it. A call is
complete if a parenthesis closes it; its arguments are the text up to the first one, and not empty. -/
def completeCall? (s : List Char) : Option (List Char × List Char) :=
  match callHead.isPrefixOf? s with
  | none => none
  | some r =>
    match r.takeWhile (· != ')'), r.dropWhile (· != ')') with
    | c :: a, _ :: rest => some (c :: a, rest)
    | _, _ => none

theorem isPrefixOf?_eq_some_iff (p s r : List Char) : p.isPrefixOf? s = some r ↔ s = p ++ r := by
  induction p generalizing s with
  | nil =>
    change some s = some r ↔ s = r
    rw [Option.some.injEq]
  | cons c p ih =>
    cases s with
    | nil =>
      change none = some r ↔ [] = c :: (p ++ r)
      simp
    | cons d s =>
      change (if c == d then p.isPrefixOf? s else none) = some r ↔ d :: s = c :: (p ++ r)
      by_cases h : c = d
      · simp [h, ih]
      · simp [h, Ne.symm h]

/-- The argument text of a complete call is not empty and holds no closing parenthesis. -/
theorem completeCall?_eq_some_iff {s a rest : List Char} :
    completeCall? s = some (a, rest) ↔ s = callHead ++ a ++ ')' :: rest ∧ a ≠ [] ∧ ')' ∉ a := by
  have split (r : List Char) : r = r.takeWhile (· != ')') ++ r.dropWhile (· != ')') :=
    List.takeWhile_append_dropWhile.symm
  constructor
  · intro h
    unfold completeCall? at h
    split at h
    · simp at h
    · rename_i r hr
      rw [isPrefixOf?_eq_some_iff] at hr
      split at h
      · rename_i c a' d rest' ht hd
        obtain ⟨rfl, rfl⟩ : c :: a' = a ∧ rest' = rest := by simpa using h
        have hd' : d = ')' := by
          have := List.head?_dropWhile_not (· != ')') r
          simpa [hd] using this
        refine ⟨?_, by simp, ?_⟩
        · rw [hr, split r, ht, hd, hd', List.append_assoc]
        · intro hm
          rw [← ht] at hm
          simpa using List.all_eq_true.1 List.all_takeWhile _ hm
      · simp at h
  · rintro ⟨rfl, hne, hmem⟩
    have hall : ∀ x ∈ a, (x != ')') = true := by
      intro x hx
      simp only [bne_iff_ne, ne_eq]
      rintro rfl
      exact hmem hx
    have ht : (a ++ ')' :: rest).takeWhile (· != ')') = a := by
      rw [List.takeWhile_append_of_pos hall]; simp
    have hd : (a ++ ')' :: rest).dropWhile (· != ')') = ')' :: rest := by
      rw [List.dropWhile_append_of_pos hall]; simp
    have hp : callHead.isPrefixOf? (callHead ++ a ++ ')' :: rest) = some (a ++ ')' :: rest) := by
      rw [isPrefixOf?_eq_some_iff, List.append_assoc]
    unfold completeCall?
    rw [hp]
    simp only [ht, hd]
    cases a with
    | nil => exact absurd rfl hne
    | cons c a => rfl

/-- A character outside all complete calls, or a complete call with its argument text. -/
inductive Segment
  | plain (c : Char)
  | call (arguments : List Char)
  deriving DecidableEq, Repr

def Segment.text : Segment → List Char
  | .plain c => [c]
  | .call a => callHead ++ a ++ [')']

theorem length_lt_of_completeCall? {s a rest : List Char} (h : completeCall? s = some (a, rest)) :
    rest.length < s.length := by
  rw [(completeCall?_eq_some_iff.1 h).1]
  simp only [List.length_append, List.length_cons]
  omega

/-- Reads a text from left to right; after a complete call the reading goes on behind it. -/
def segments (s : List Char) : List Segment :=
  match _h : completeCall? s with
  | some (a, rest) => .call a :: segments rest
  | none =>
    match s with
    | [] => []
    | c :: r => .plain c :: segments r
termination_by s.length
decreasing_by
  · exact length_lt_of_completeCall? ‹_›
  · simp

theorem segments_nil : segments [] = [] := by
  unfold segments
  rfl

theorem segments_cons_of_none {c : Char} {r : List Char} (h : completeCall? (c :: r) = none) :
    segments (c :: r) = .plain c :: segments r := by
  rw [segments]
  split <;> simp_all

theorem segments_of_completeCall? {s a rest : List Char} (h : completeCall? s = some (a, rest)) :
    segments s = .call a :: segments rest := by
  rw [segments]
  split <;> simp_all

def textOf (l : List Segment) : List Char := l.flatMap Segment.text

@[simp] theorem textOf_nil : textOf [] = [] := rfl

@[simp] theorem textOf_cons (x : Segment) (l : List Segment) :
    textOf (x :: l) = x.text ++ textOf l := rfl

/-- Nothing of a text is lost or invented by reading it. -/
@[simp] theorem textOf_segments (s : List Char) : textOf (segments s) = s := by
  fun_induction segments s with
  | case1 s a rest h ih =>
    rw [textOf_cons, ih, (completeCall?_eq_some_iff.1 h).1]
    simp [Segment.text]
  | case2 h => rfl
  | case3 c r h ih => rw [textOf_cons, ih]; rfl

end CollectionLoops.Source
