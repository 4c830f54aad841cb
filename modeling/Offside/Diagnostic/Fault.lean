/-!
# Faults

A fault is a rule of the program itself that a request breaks. It has no place in the source text,
and no source text gives rise to one: a fault needs a location or a number that nobody read from a
text.

* `Fault`: the rules that can be broken; `Fault.message`: how each is said.
-/

namespace Offside

/-- A rule of the program that is broken. -/
inductive Fault where
  /-- A location would have ended before it starts. -/
  | inverted
  /-- A column or a position would have left its sixty-four bits. -/
  | overflow
  /-- A line would have been longer than a text can be. -/
  | overlong
deriving DecidableEq

/-- How a fault is said. -/
def Fault.message : Fault → String
  | inverted => "location must not end before it starts"
  | overflow => "attempt to add with overflow"
  | overlong => "capacity overflow"

end Offside
