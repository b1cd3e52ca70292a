import CollectionLoops.Decimal.NumberText
import CollectionLoops.Store
import CollectionLoops.Text.Quoted

/-!
The texts of values. A string is shown as it is where it stands alone and quoted where it stands
inside a container; the quoted text of a value quotes the string at the top as well. A locked
container hides what it holds. A value that is inside itself has no text.
-/
namespace CollectionLoops.Store

/-- Pieces between a comma and a space. -/
def listText (l : List (List Char)) : List Char := ", ".toList.intercalate l

/-- The text of a value inside a container, if containers do not show what they hold. -/
def hiddenText : Value → List Char
  | .undefined => "undefined".toList
  | .null => "null".toList
  | .boolean true => "true".toList
  | .boolean false => "false".toList
  | .number n => (Decimal.numberText n).toList
  | .string t => Text.quoted t.toList
  | .array _ => "[Array]".toList
  | .object _ => "[Object]".toList
  | .function _ => "[Function]".toList

/-- The text of an array with items of the given texts. -/
def arrayText (items : List (List Char)) : List Char := '[' :: listText items ++ [']']

/-- The text of an object with properties of the given texts. -/
def objectText : List (List Char) → List Char
  | [] => "\x7b\x7d".toList
  | l => "\x7b ".toList ++ listText l ++ " \x7d".toList

/-- The text of a value inside a container, through at most `depth` levels of containers; none if these
are too few. A locked container hides what it holds and needs no level. -/
def quotedWithin? (s : Store) (locked : Value → Bool) : Nat → Value → Option (List Char)
  | 0, v => if v.isContainer && !locked v then none else some (hiddenText v)
  | depth + 1, v =>
    if locked v then some (hiddenText v)
    else match v with
      | .array r => ((s.items r).toList.mapM (s.quotedWithin? locked depth)).map arrayText
      | .object r => ((s.properties r).entries.mapM fun e =>
          (s.quotedWithin? locked depth e.2).map fun t => e.1.toList ++ ": ".toList ++ t).map
        objectText
      | _ => some (hiddenText v)

/-- The quoted text of a value. Writing the text of a value inside itself does not end; for any other
one there are levels enough, as many as there are containers and one more. -/
def quotedText? (s : Store) (v : Value) (locked : Value → Bool := fun _ => false) : Option String :=
  (s.quotedWithin? locked (s.size + 1) v).map String.ofList

/-- The text of a value that stands alone, if it ends. -/
def text? (s : Store) (v : Value) (locked : Value → Bool := fun _ => false) : Option String :=
  match v with
  | .string t => some t
  | _ => s.quotedText? v locked

@[simp] theorem text?_string (s : Store) (t : String) : s.text? (.string t) = some t := rfl

/-- A value that is no container is shown the same at every depth. -/
theorem quotedWithin?_of_not_isContainer (s : Store) (locked : Value → Bool) (depth : Nat)
    {v : Value} (h : v.isContainer = false) :
    s.quotedWithin? locked depth v = some (hiddenText v) := by
  cases depth <;> cases v <;> simp_all [quotedWithin?, Value.isContainer]

theorem quotedText?_of_not_isContainer (s : Store) {v : Value} (h : v.isContainer = false) :
    s.quotedText? v = some (String.ofList (hiddenText v)) := by
  rw [quotedText?, quotedWithin?_of_not_isContainer s _ _ h]
  rfl

end CollectionLoops.Store
