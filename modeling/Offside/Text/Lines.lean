/-!
# Lines

How a text falls into lines: a line feed ends a line, one carriage return right before it belongs
to the line end, and a text that ends in a line feed has no further, empty line.

* `splitLines`: the lines as character lists; `lines`: as strings.
* `indented`: every line of a text moved four columns to the right and ended by a line feed.
-/

namespace Offside.Text

/-- The lines of a character sequence, without their line ends. -/
def splitLines : List Char → List (List Char)
  | [] => []
  | '\n' :: rest => [] :: splitLines rest
  | '\r' :: '\n' :: rest => [] :: splitLines rest
  | c :: rest =>
    match splitLines rest with
    | [] => [[c]]
    | line :: others => (c :: line) :: others

/-- The lines of a text, without their line ends. -/
def lines (text : String) : List String := (splitLines text.toList).map String.ofList

/-- Four spaces before each line of a text, and a line feed after it. -/
def indented (text : String) : String :=
  String.join ((lines text).map fun line => "    " ++ line ++ "\n")

end Offside.Text
