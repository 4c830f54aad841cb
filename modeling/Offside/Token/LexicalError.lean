import Offside.Diagnostic.Basic
import Offside.Token.Block

/-!
# Lexical errors

* `LexicalError`: what can be wrong with the characters, the brackets or the indentation of a source
  text; `LexicalError.message`: how it is said.
-/

namespace Offside

/-- What can be wrong with the characters, the brackets or the indentation of a text. -/
inductive LexicalError where
  /-- A tab character. -/
  | tab
  /-- A bracket that is never closed. -/
  | unclosed (bracket : Bracket)
  /-- A closing character without its opener. -/
  | unmatched (bracket : Bracket)
  /-- A character that begins no token. -/
  | unrecognized (c : Char)
  /-- A brace cut off by the end of an indented block or of the input. -/
  | cutOffBrace
  /-- A closing brace to the left of the statements around it. -/
  | dedentedBrace
  /-- A line inside brackets at or to the left of the statements around them. -/
  | dedentedLine
  /-- A closing bracket at or to the left of the statements around it. -/
  | dedentedCloser
deriving DecidableEq

/-- How a lexical error is said. -/
def LexicalError.message : LexicalError → String
  | tab => "Tab characters are not allowed; indent with spaces."
  | unclosed bracket => "Unclosed " ++ bracket.opener.toString ++ "."
  | unmatched bracket => "Unmatched closing bracket " ++ bracket.closer.toString ++ "."
  | unrecognized c => "Unrecognized token " ++ c.toString ++ "."
  | cutOffBrace => "The parser can't implicitly close an explicit brace."
  | dedentedBrace => "The closing \x7d must be at or to the right of the semicolon column of its "
      ++ "enclosing block."
  | dedentedLine => "The statement ended before all brackets were closed."
  | dedentedCloser => "The statement ended before you closed the brackets."

end Offside
