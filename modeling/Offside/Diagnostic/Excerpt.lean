import Offside.Source.Location
import Offside.Text.Lines

/-!
# Excerpts

The part of a message that shows the source text it is about.

* `sourceLine`: the text of a row, empty if there is no such row; row zero stands for row one.
* `Location.excerpt`: the lines shown. A location on one row is underlined by tildes, or by one
  caret if it has at most one character. Of a location on several rows the first and the last are
  shown: a caret and tildes to the end of the first, tildes and a caret up to the end on the last.
  The length of the first row is counted in bytes.
* `Location.isDrawable`: whether the marks fit into a text.
-/

namespace Offside

/-- The text of a row of the source. -/
def sourceLine (source : String) (row : Nat) : String :=
  ((Text.lines source)[row - 1]?).getD ""

/-- Every text has fewer bytes than this. -/
def Text.sizeBound : Nat := 0x8000000000000000

/-- `n` copies of a character. -/
def Text.copies (n : Nat) (c : Char) : String := String.ofList (List.replicate n c)

namespace Location

/-- The line under a location on one row. -/
def underline (a : Location) : String :=
  let width := a.stop.col - a.start.col
  Text.copies (a.start.col - 1) ' ' ++ if width ≤ 1 then "^" else Text.copies width '~'

/-- The source text of a location, with marks under it. -/
def excerpt (source : String) (a : Location) : List String :=
  let first := sourceLine source a.start.row
  if a.start.row = a.stop.row then
    [first, a.underline]
  else
    [ first,
      Text.copies (a.start.col - 1) ' ' ++ "^"
        ++ Text.copies (first.utf8ByteSize - a.start.col) '~',
      sourceLine source a.stop.row,
      Text.copies (a.stop.col - 2) '~' ++ "^" ]

/-- The lengths of the runs of blanks and of tildes that mark `a` and that its columns determine. -/
def markRuns (a : Location) : List Nat :=
  if a.start.row = a.stop.row then [a.start.col - 1, a.stop.col - a.start.col]
  else [a.start.col - 1, a.stop.col - 2]

/-- Whether no run of marks is too long for a text. -/
def isDrawable (a : Location) : Bool := a.markRuns.all (· < Text.sizeBound)

end Location

end Offside
