/-!
# Reserved words

* `Reserved`: the keywords, and the words that stand for an operator attached to its operand.
* `Reserved.keyword?`: the keywords are what a source text can spell; the other words are names when
  they are written out.
* `Reserved.ofAttached?`: the word that an operator becomes before its operand.
-/

namespace Offside

/-- A reserved word. -/
inductive Reserved where
  /-- `break` -/
  | breakLoop
  /-- `def` -/
  | define
  /-- `else` -/
  | otherwise
  /-- `forever` -/
  | forever
  /-- `if` -/
  | ifThen
  /-- `let` -/
  | letBind
  /-- `return` -/
  | returnValue
  /-- `var` -/
  | varMark
  /-- A minus sign before its operand. -/
  | negate
  /-- A star before its operand. -/
  | valueAt
  /-- An ampersand before its operand. -/
  | addressOf
  /-- A colon. -/
  | asType
deriving DecidableEq

namespace Reserved

/-- The text of a reserved word. -/
def text : Reserved → String
  | breakLoop => "break"
  | define => "def"
  | otherwise => "else"
  | forever => "forever"
  | ifThen => "if"
  | letBind => "let"
  | returnValue => "return"
  | varMark => "var"
  | negate => "negate"
  | valueAt => "valueAt"
  | addressOf => "addressOf"
  | asType => "asType"

/-- The words that a source text can spell. -/
def keywords : List Reserved :=
  [breakLoop, define, otherwise, forever, ifThen, letBind, returnValue, varMark]

/-- Every reserved word. -/
def all : List Reserved := keywords ++ [negate, valueAt, addressOf, asType]

/-- The reserved word of a text. -/
def ofText? (s : String) : Option Reserved := all.find? fun r => r.text == s

/-- The keyword that a word in a source text is. -/
def keyword? (s : String) : Option Reserved := keywords.find? fun r => r.text == s

/-- The word that an operator becomes when it is attached to the operand after it. -/
def ofAttached? (operator : String) : Option Reserved :=
  if operator = "-" then some negate
  else if operator = "*" then some valueAt
  else if operator = "&" then some addressOf
  else none

/-- A reserved word is known by its text. -/
@[simp] theorem ofText?_text (r : Reserved) : ofText? r.text = some r := by
  cases r <;> decide

end Reserved

end Offside
