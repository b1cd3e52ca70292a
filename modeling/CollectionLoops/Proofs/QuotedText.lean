import CollectionLoops.Text.Quoted

/-!
Reading quoted text. Main statement: a quoted text is read back as the text that it quotes, whatever
comes after its closing quote, so that no quoted text stands for two texts or is the beginning of
another one.
-/
namespace CollectionLoops.Text

/-- The value of a hexadecimal digit; letters are small. -/
def hexValue (d : Char) : Nat :=
  if d.isDigit then d.toNat - '0'.toNat else d.toNat - 'a'.toNat + 10

/-- The number that hexadecimal digits write. -/
def ofHexDigits (ds : List Char) : Nat := ds.foldl (fun n d => 16 * n + hexValue d) 0

/-- The character that one character after a backslash stands for. -/
def unescape? : Char → Option Char
  | '0' => some '\x00'
  | 't' => some '\t'
  | 'n' => some '\n'
  | 'r' => some '\r'
  | '"' => some '"'
  | '\\' => some '\\'
  | _ => none

/-- Reads one character between quotes, which may be an escape; the rest of the text. -/
def readCharacter? : List Char → Option (Char × List Char)
  | '\\' :: 'u' :: '{' :: l =>
    match l.dropWhile (· != '}') with
    | _ :: rest => some (.ofNat (ofHexDigits (l.takeWhile (· != '}'))), rest)
    | [] => none
  | '\\' :: c :: rest => (unescape? c).map (·, rest)
  | ['\\'] | '"' :: _ | [] => none
  | c :: rest => some (c, rest)

theorem length_lt_of_readCharacter? {l rest : List Char} {c : Char}
    (h : readCharacter? l = some (c, rest)) : rest.length < l.length := by
  unfold readCharacter? at h
  split at h
  · split at h
    · rename_i hd
      obtain ⟨-, rfl⟩ := Prod.mk.inj (Option.some.inj h)
      have hle := hd ▸ (List.dropWhile_suffix _).length_le
      simp only [List.length_cons] at hle ⊢
      omega
    · cases h
  · obtain ⟨d, -, hd⟩ := Option.map_eq_some_iff.1 h
    obtain ⟨-, rfl⟩ := Prod.mk.inj hd
    simp only [List.length_cons]
    omega
  · cases h
  · cases h
  · cases h
  · obtain ⟨-, rfl⟩ := Prod.mk.inj (Option.some.inj h)
    exact Nat.lt_succ_self _

/-- Reads up to the closing quote: the text before it, and what comes after it. -/
def readToQuote? (l : List Char) : Option (List Char × List Char) :=
  match l with
  | '"' :: rest => some ([], rest)
  | l =>
    match _h : readCharacter? l with
    | some (c, rest) => (readToQuote? rest).map fun (s, rest) => (c :: s, rest)
    | none => none
termination_by l.length
decreasing_by exact length_lt_of_readCharacter? _h

/-- Reads a quoted text: the text that it quotes, and what comes after it. -/
def readQuoted? : List Char → Option (List Char × List Char)
  | '"' :: l => readToQuote? l
  | _ => none

theorem readToQuote?_quote (rest : List Char) : readToQuote? ('"' :: rest) = some ([], rest) := by
  rw [readToQuote?]

theorem readToQuote?_of_readCharacter? {l rest : List Char} {c : Char}
    (h : readCharacter? l = some (c, rest)) :
    readToQuote? l = (readToQuote? rest).map fun (s, rest) => (c :: s, rest) := by
  rw [readToQuote?]
  · split
    · rename_i c' rest' h'
      rw [h] at h'
      cases h'
      rfl
    · rename_i h'
      rw [h] at h'
      cases h'
  · rintro l' rfl
    cases h

theorem hexValue_digitChar {d : Nat} (h : d < 16) : hexValue (Nat.digitChar d) = d := by
  revert d
  decide

theorem ofHexDigits_concat (ds : List Char) (d : Char) :
    ofHexDigits (ds ++ [d]) = 16 * ofHexDigits ds + hexValue d := by
  rw [ofHexDigits, List.foldl_append]
  rfl

theorem ofHexDigits_toDigits (n : Nat) : ofHexDigits (Nat.toDigits 16 n) = n := by
  induction n using Nat.strongRecOn with
  | ind n ih =>
    rw [Nat.toDigits_eq_if (by decide)]
    split
    · rename_i hn
      exact (Nat.zero_add _).trans (hexValue_digitChar hn)
    · rename_i hn
      rw [ofHexDigits_concat, ih (n / 16) (by omega), hexValue_digitChar (Nat.mod_lt n (by decide)),
        Nat.div_add_mod]

theorem closeBrace_notMem_toDigits (n : Nat) : '}' ∉ Nat.toDigits 16 n := by
  induction n using Nat.strongRecOn with
  | ind n ih =>
    rw [Nat.toDigits_eq_if (by decide)]
    split
    · simp
    · rename_i hn
      rw [List.mem_append, List.mem_singleton]
      rintro (h | h)
      · exact ih (n / 16) (by omega) h
      · have := h.symm
        simp at this

theorem readCharacter?_codePointEscape (c : Char) (rest : List Char) :
    readCharacter? (codePointEscape c ++ rest) = some (c, rest) := by
  have hdigits : ∀ d ∈ Nat.toDigits 16 c.toNat, (d != '}') = true := by
    intro d hd
    rw [bne_iff_ne]
    rintro rfl
    exact closeBrace_notMem_toDigits _ hd
  have htake : (Nat.toDigits 16 c.toNat ++ '}' :: rest).takeWhile (· != '}') =
      Nat.toDigits 16 c.toNat := by
    rw [List.takeWhile_append_of_pos hdigits]
    simp
  have hdrop : (Nat.toDigits 16 c.toNat ++ '}' :: rest).dropWhile (· != '}') = '}' :: rest := by
    rw [List.dropWhile_append_of_pos hdigits]
    simp
  simp only [codePointEscape, List.append_assoc, List.cons_append, List.nil_append,
    readCharacter?, htake, hdrop, ofHexDigits_toDigits, Char.ofNat_toNat]

/-- An escape is read as the character that it stands for, and so is a character that has none. -/
theorem readCharacter?_escape (c : Char) (rest : List Char) :
    readCharacter? (escape c ++ rest) = some (c, rest) := by
  unfold escape
  split
  case h_7 hquote hbackslash =>
    split
    · exact readCharacter?_codePointEscape c rest
    · rw [List.singleton_append, readCharacter?]
      all_goals simp_all
  all_goals rfl

/-- Reading up to the closing quote gives back the text between the quotes. -/
theorem readToQuote?_flatMap_escape (s rest : List Char) :
    readToQuote? (s.flatMap escape ++ '"' :: rest) = some (s, rest) := by
  induction s with
  | nil => exact readToQuote?_quote rest
  | cons c s ih =>
    rw [List.flatMap_cons, List.append_assoc,
      readToQuote?_of_readCharacter? (readCharacter?_escape c _), ih]
    rfl

theorem readQuoted?_quoted (s rest : List Char) :
    readQuoted? (quoted s ++ rest) = some (s, rest) := by
  rw [quoted, List.append_assoc, List.cons_append, readQuoted?, List.singleton_append]
  exact readToQuote?_flatMap_escape s rest

/-- Where one quoted text ends cannot be mistaken. -/
theorem quoted_append_inj {s t a b : List Char} (h : quoted s ++ a = quoted t ++ b) :
    s = t ∧ a = b := by
  have hread := readQuoted?_quoted s a
  rw [h, readQuoted?_quoted, Option.some.injEq, Prod.mk.injEq] at hread
  exact ⟨hread.1.symm, hread.2.symm⟩

end CollectionLoops.Text
