import Offside.Diagnostic.Basic
import Offside.Token.Basic

/-!
# Parse errors

* `Ending`: what a sequence of sibling tokens is, the whole input or the interior of a block.
* `ParseError`: what would have fitted, and what was found instead; `ParseError.message`: how it is
  said.
-/

namespace Offside

/-- What ends where a sequence of sibling tokens ends. -/
inductive Ending where
  /-- The whole input. -/
  | input
  /-- The interior of a block. -/
  | block
deriving DecidableEq

/-- What an end is called in messages. -/
def Ending.name : Ending → String
  | input => "the end of the input"
  | block => "the end of the block"

/-- What an unexpected token is called in messages. -/
def TokenKind.describe : TokenKind → String
  | block => "block"
  | comma => "comma"
  | identifier => "identifier"
  | number => "number"
  | operator => "operator"
  | reserved => "reserved word"
  | semicolon => "semicolon"

/-- What stands where something else was expected. -/
inductive Found where
  /-- A token that does not fit. -/
  | token (kind : TokenKind) (text : String)
  /-- An expression of the wrong shape. -/
  | expression (description : String)
  /-- No further token. -/
  | ending (ending : Ending)

/-- How what was found is said. -/
def Found.message : Found → String
  | token kind text => "found the " ++ kind.describe ++ " \"" ++ text ++ "\""
  | expression description => "found " ++ description
  | ending e => "reached " ++ e.name

/-- What would have fitted, and what was found instead. -/
structure ParseError where
  /-- What would have fitted. -/
  expected : String
  /-- What was found. -/
  found : Found

/-- How a parse error is said. -/
def ParseError.message (e : ParseError) : String :=
  "The parser expected " ++ e.expected ++ " but " ++ e.found.message ++ "."

end Offside
