import CollectionLoops.Text.Unprintable

/-!
Quoted text: between double quotes, and every character that would be mistaken or not be seen is
written as an escape.
-/
namespace CollectionLoops.Text

/-- The escape of an arbitrary character: its code point, in hexadecimal digits between braces. -/
def codePointEscape (c : Char) : List Char :=
  ['\\', 'u', '{'] ++ Nat.toDigits 16 c.toNat ++ ['}']

/-- A character as it stands in quoted text. -/
def escape (c : Char) : List Char :=
  match c with
  | '\x00' => ['\\', '0']
  | '\t' => ['\\', 't']
  | '\n' => ['\\', 'n']
  | '\r' => ['\\', 'r']
  | '"' => ['\\', '"']
  | '\\' => ['\\', '\\']
  | _ => if isUnprintable c then codePointEscape c else [c]

/-- The quoted form of a text. -/
def quoted (s : List Char) : List Char := '"' :: s.flatMap escape ++ ['"']

def quote (s : String) : String := String.ofList (quoted s.toList)

@[simp] theorem toList_quote (s : String) : (quote s).toList = quoted s.toList := by simp [quote]

end CollectionLoops.Text
