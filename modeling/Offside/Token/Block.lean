/-!
# Blocks

* `Bracket`: the four pairs of characters that enclose a group.
* `BlockKind`: how a block is delimited, by brackets or by indentation after `do`.
* `BlockKind.ofOpener?`: the kind of a block from the text that opens it.
-/

namespace Offside

/-- A pair of characters that enclose a group. -/
inductive Bracket where
  /-- `( )` -/
  | paren
  /-- `[ ]` -/
  | square
  /-- Braces, which enclose statements. -/
  | brace
  /-- Backticks, which enclose an infix function. -/
  | backtick
deriving DecidableEq

namespace Bracket

/-- The character that opens a group. -/
def opener : Bracket → Char
  | paren => '('
  | square => '['
  | brace => '\x7b'
  | backtick => '\x60'

/-- The character that closes a group. -/
def closer : Bracket → Char
  | paren => ')'
  | square => ']'
  | brace => '\x7d'
  | backtick => '\x60'

/-- Every bracket. -/
def all : List Bracket := [paren, square, brace, backtick]

/-- The bracket that a character opens. -/
def ofOpener? (c : Char) : Option Bracket := all.find? fun b => b.opener == c

/-- The bracket that a character closes. -/
def ofCloser? (c : Char) : Option Bracket := all.find? fun b => b.closer == c

/-- A bracket is known by its opener. -/
@[simp] theorem ofOpener?_opener (b : Bracket) : ofOpener? b.opener = some b := by
  cases b <;> decide

/-- A bracket is known by its closer. -/
@[simp] theorem ofCloser?_closer (b : Bracket) : ofCloser? b.closer = some b := by
  cases b <;> decide

end Bracket

/-- How a block is delimited. -/
inductive BlockKind where
  /-- By a pair of brackets. -/
  | bracketed (bracket : Bracket)
  /-- By the indentation of what follows `do`. -/
  | indented
deriving DecidableEq

/-- The word that opens an indented block. -/
def blockWord : String := "do"

namespace BlockKind

/-- The text that opens a block. -/
def opener : BlockKind → String
  | bracketed b => b.opener.toString
  | indented => blockWord

/-- The character that closes a block, if one does. -/
def closer? : BlockKind → Option Char
  | bracketed b => some b.closer
  | indented => none

/-- Every kind of block. -/
def all : List BlockKind := Bracket.all.map bracketed ++ [indented]

/-- The kind of block that a text opens. -/
def ofOpener? (text : String) : Option BlockKind := all.find? fun k => k.opener == text

/-- A block is known by its opener. -/
@[simp] theorem ofOpener?_opener (k : BlockKind) : ofOpener? k.opener = some k := by
  rcases k with (_ | _ | _ | _) | _ <;> decide

/-- Whether a block encloses statements, so that line starts inside it separate them. -/
def holdsStatements : BlockKind → Bool
  | bracketed .brace => true
  | indented => true
  | bracketed _ => false

end BlockKind

end Offside
