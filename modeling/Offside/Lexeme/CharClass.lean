import Offside.Token.Block

/-!
# Character classes

* `CharClass.of?`: what a character can begin. Letters and digits are those of ASCII; a character of
  no class begins nothing.
* `isWordChar`, `isOperatorChar`: what continues a name, an operator.
-/

namespace Offside

/-- What a character can begin. -/
inductive CharClass where
  /-- A name or a keyword. -/
  | letter
  /-- A number. -/
  | digit
  /-- An operator. -/
  | operator
  /-- A comma or a semicolon. -/
  | separator
  /-- A bracket that opens a group, or a backtick. -/
  | opener (bracket : Bracket)
  /-- A bracket that closes a group. -/
  | closer (bracket : Bracket)
  /-- A space or a line end. -/
  | blank
  /-- A comment. -/
  | comment
  /-- A tab, which is never allowed. -/
  | tab
deriving DecidableEq

/-- The characters of operators. -/
def operatorChars : List Char :=
  ['!', '$', '%', '&', '*', '+', '-', '.', '/', ':', '<', '=', '>', '?', '@', '\\', '^', '|', '~']

/-- Whether a character can stand in an operator. -/
def isOperatorChar (c : Char) : Bool := operatorChars.contains c

/-- Whether a character can begin a name. -/
def isWordStart (c : Char) : Bool := c.isAlpha || c == '_'

/-- Whether a character can continue a name. -/
def isWordChar (c : Char) : Bool := isWordStart c || c.isDigit

/-- The class of a character. -/
def CharClass.of? (c : Char) : Option CharClass :=
  if isWordStart c then some .letter
  else if c.isDigit then some .digit
  else if isOperatorChar c then some .operator
  else if c = ',' ∨ c = ';' then some .separator
  else if c = ' ' ∨ c = '\r' ∨ c = '\n' then some .blank
  else if c = '#' then some .comment
  else if c = '\t' then some .tab
  else
    match Bracket.ofOpener? c with
    | some bracket => some (.opener bracket)
    | none => (Bracket.ofCloser? c).map .closer

end Offside
