import Offside.Text.Lines

/-!
# Lists and blocks in print

* `commaList`, `tupleText`: items with commas between them; a tuple of one has a comma after it.
* `parenthesized`: a text in parentheses.
* `blockText`: a body in braces, one level deeper, on lines of its own.
-/

namespace Offside.Printing

/-- Items with commas between them. -/
def commaList (items : List String) : String := ", ".intercalate items

/-- A text in parentheses. -/
def parenthesized (text : String) : String := "(" ++ text ++ ")"

/-- A text in parentheses if it needs them. -/
def parenthesizedIf (needed : Bool) (text : String) : String :=
  if needed then parenthesized text else text

/-- The items of a tuple. -/
def tupleText (items : List String) : String :=
  parenthesized (commaList items ++ if items.length = 1 then "," else "")

/-- A body in braces. -/
def blockText (body : String) : String :=
  if body.isEmpty then "\x7b\x7d" else "\x7b\n" ++ Text.indented body ++ "\x7d"

end Offside.Printing
