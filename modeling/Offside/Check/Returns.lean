import Offside.Check.Violation
import Offside.Syntax.Statement

/-!
# Functions return

Whether the end of a function can be reached is judged from how control leaves its body.

* `Escape`: how control leaves a list of statements: never past its end, past its end, or by a
  break.
* `Statement.escape`, `Statement.escapeAll`: how control leaves a statement, a list. In a list the
  last statement that does not simply pass control on decides; of two branches the worse one does.
* `checkReturns`: every function body is left by returning only.
-/

namespace Offside

/-- How control leaves a list of statements. -/
inductive Escape where
  /-- It returns, or it never ends. -/
  | settled
  /-- It may run past the end. -/
  | falls
  /-- It may leave the loop that is `depth` loops outside the innermost one around the list. -/
  | breaks (depth : Nat)
deriving DecidableEq

namespace Escape

/-- Returning is better than falling through, and that is better than a break, the worse the more
loops it leaves. -/
def rank : Escape → Int
  | settled => -1
  | falls => 0
  | breaks depth => depth + 1

/-- The worse of two ways. -/
def worse (a b : Escape) : Escape := if a.rank ≤ b.rank then b else a

/-- How control leaves a loop, given how it leaves the body. -/
def ofLoop : Escape → Escape
  | settled => settled
  | falls => settled
  | breaks 0 => falls
  | breaks (depth + 1) => breaks depth

end Escape

namespace Statement

mutual

/-- How control leaves a statement. -/
def escape : Statement → Escape
  | returnValue .. => .settled
  | breakLoop _ depth => .breaks depth
  | forever _ _ body => (escapeAll body).ofLoop
  | branch _ _ yes no => (escapeAll yes).worse (escapeAll no)
  | nested _ body => escapeAll body
  | assign .. | call .. | letBind .. => .falls

/-- How control leaves a list of statements. -/
def escapeAll : List Statement → Escape
  | [] => .falls
  | s :: ss =>
    match escapeAll ss with
    | .falls => escape s
    | other => other

end

end Statement

/-- The violation of a function body, if there is one. -/
def bodyViolation? (body : List Statement) : Option Violation :=
  match Statement.escapeAll body with
  | .settled => none
  | .falls => some .mayFallThrough
  | .breaks _ => some .breakEscapes

/-- No function can reach its end without returning. The first that can is reported. -/
def checkReturns : List Declaration → Except (Located Violation) Unit
  | [] => .ok ()
  | .function loc _ _ _ body :: rest =>
    match bodyViolation? body with
    | none => checkReturns rest
    | some violation => .error ⟨violation, loc⟩
  | .letBind .. :: rest => checkReturns rest

end Offside
