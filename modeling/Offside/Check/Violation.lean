import Offside.Diagnostic.Basic

/-!
# Violations

* `Violation`: what a parsed program can do wrong; `Violation.phase`, `Violation.message`: how it is
  reported.
-/

namespace Offside

/-- What a parsed program can do wrong. -/
inductive Violation where
  /-- The end of a function can be reached. -/
  | mayFallThrough
  /-- No function is named `main`. -/
  | mainMissing
  /-- The entry point has another type than it must have. -/
  | mainResult
  /-- The entry point has other parameters than it must have. -/
  | mainParameter
  /-- A break leaves a loop outside its function. -/
  | breakEscapes
deriving DecidableEq

namespace Violation

/-- The phase that reports a violation. The parser resolves every break inside its function, so a
break that escapes is no fault of the program. -/
def phase : Violation → Phase
  | breakEscapes => .internal
  | _ => .wellFormedness

/-- How a violation is said. -/
def message : Violation → String
  | mayFallThrough =>
    "The function may reach the end of control flow without returning a value."
  | mainMissing => "A function named main must exist."
  | mainResult => "main() must return an immutable Int32."
  | mainParameter => "main() must take one immutable () argument."
  | breakEscapes => "A break escaped its enclosing function."

end Violation

end Offside
