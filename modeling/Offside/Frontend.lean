import Offside.Check.Entry
import Offside.Check.Returns
import Offside.Grammar.Declarations
import Offside.Layout.Arrangement
import Offside.Token.Nesting

/-!
# The front end

* `Cause`: what can go wrong in any stage; `Located.diagnostic`: how it is shown.
* `Frontend.tokenize`, `Frontend.layOut`, `Frontend.parse`, `Frontend.check`: the stages, with their
  errors as causes.
* `Frontend.compile`: all stages in order, ending at the first problem.
-/

namespace Offside

/-- What can go wrong in any stage. -/
inductive Cause where
  /-- In the characters, the brackets or the indentation. -/
  | lexical (error : LexicalError)
  /-- In the order of the tokens. -/
  | parse (error : ParseError)
  /-- In the parsed program. -/
  | check (violation : Violation)

namespace Cause

/-- The phase that reports a cause. -/
def phase : Cause → Phase
  | lexical _ => .lexical
  | parse _ => .parse
  | check violation => violation.phase

/-- How a cause is said. -/
def message : Cause → String
  | lexical error => error.message
  | parse error => error.message
  | check violation => violation.message

end Cause

/-- A cause as it is shown. -/
def Located.diagnostic (e : Located Cause) : Diagnostic := ⟨e.cause.phase, e.loc, e.cause.message⟩

namespace Frontend

/-- The token trees of a source text. -/
def tokenize (source : String) : Except (Failure Cause) (List Token) :=
  (Token.ofSource source).mapError fun e => .reported (e.map .lexical)

/-- The layout of token trees. -/
def layOut (tokens : List Token) : Except (Failure Cause) (List Token) :=
  (Layout.layout tokens).mapError (Failure.map .lexical)

/-- The declarations of laid-out tokens. -/
def parse (span : Location) (tokens : List Token) : Except (Failure Cause) (List Declaration) :=
  (parseDeclarations span tokens).mapError (Failure.map .parse)

/-- The result of a check. -/
def check (result : Except (Located Violation) Unit) : Except (Failure Cause) Unit :=
  result.mapError fun e => .reported (e.map .check)

/-- The declarations of a source text that passes every stage. -/
def compile (requireMain : Bool) (source : String) : Except (Failure Cause) (List Declaration) := do
  let span := sourceSpan source
  let tokens ← tokenize source
  let laidOut ← layOut tokens
  let program ← parse span laidOut
  check (checkReturns program)
  if requireMain then check (checkEntry span program)
  return program

end Frontend

end Offside
