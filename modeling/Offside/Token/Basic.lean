import Offside.Source.Location
import Offside.Token.Block
import Offside.Token.Reserved

/-!
# Tokens

Tokens form trees: a block holds the tokens of its interior.

* `TokenKind`: the classes of tokens; `Token`: a token with its text, location and interior.
* `Token.reserved?`, `Token.blockKind?`: what a token's text means for its class.
* `Token.weight`, `Token.totalWeight`: the number of tokens in a tree, in a sequence of trees.
* `Token.dump`, `Token.dumpAll`: the written form of trees, `(Token @r,c,r,c text Kind children)`.
* `isPositive`: whether a number's text denotes a number greater than zero.
-/

namespace Offside

/-- The class of a token. -/
inductive TokenKind where
  /-- A bracketed group or an indented block. -/
  | block
  /-- A comma. -/
  | comma
  /-- A name. -/
  | identifier
  /-- A decimal literal with an optional minus sign. -/
  | number
  /-- A run of operator characters. -/
  | operator
  /-- A reserved word. -/
  | reserved
  /-- A semicolon, written or inserted by layout. -/
  | semicolon
deriving DecidableEq

/-- The name of a class in the written form of tokens. -/
def TokenKind.name : TokenKind → String
  | block => "Block"
  | comma => "Comma"
  | identifier => "Identifier"
  | number => "Number"
  | operator => "Operator"
  | reserved => "Reserved"
  | semicolon => "Semicolon"

/-- A token with its interior. -/
structure Token where
  /-- The class of the token. -/
  kind : TokenKind
  /-- The text of the token; for a block, what opens it. -/
  text : String
  /-- Where the token is; a block runs from its opener through its closer. -/
  loc : Location
  /-- The interior of a block. -/
  children : List Token

namespace Token

/-- A token without interior. -/
def leaf (kind : TokenKind) (text : String) (loc : Location) : Token := ⟨kind, text, loc, []⟩

/-- A block. -/
def block (kind : BlockKind) (loc : Location) (children : List Token) : Token :=
  ⟨.block, kind.opener, loc, children⟩

/-- A semicolon. -/
def semicolon (loc : Location) : Token := leaf .semicolon ";" loc

/-! ## Tests -/

/-- Whether a token has the given class and text. -/
def is (t : Token) (kind : TokenKind) (text : String) : Bool := t.kind == kind && t.text == text

/-- The reserved word that a token is. -/
def reserved? (t : Token) : Option Reserved :=
  if t.kind = .reserved then Reserved.ofText? t.text else none

/-- Whether a token is the given reserved word. -/
def isReserved (t : Token) (word : Reserved) : Bool := t.reserved? == some word

/-- The kind of block that a token is. A block with an unknown opener has none. -/
def blockKind? (t : Token) : Option BlockKind :=
  if t.kind = .block then BlockKind.ofOpener? t.text else none

/-- Whether a token is a block of the given kind. -/
def isBlock (t : Token) (kind : BlockKind) : Bool := t.blockKind? == some kind

/-! ## Size -/

mutual

/-- The number of tokens in a tree. -/
def weight : Token → Nat
  | ⟨_, _, _, children⟩ => 1 + totalWeight children

/-- The number of tokens in a sequence of trees. -/
def totalWeight : List Token → Nat
  | [] => 0
  | t :: ts => weight t + totalWeight ts

end

/-- A tree has its root and its interior. -/
theorem weight_eq (t : Token) : t.weight = 1 + totalWeight t.children := by
  cases t
  rw [weight]

/-- No trees have no tokens. -/
@[simp] theorem totalWeight_nil : totalWeight [] = 0 := by rw [totalWeight]

/-- The tokens of a sequence are those of its trees. -/
@[simp] theorem totalWeight_cons (t : Token) (ts : List Token) :
    totalWeight (t :: ts) = t.weight + totalWeight ts := by rw [totalWeight]

/-- Joined sequences have the tokens of both. -/
@[simp] theorem totalWeight_append (s t : List Token) :
    totalWeight (s ++ t) = totalWeight s + totalWeight t := by
  induction s with
  | nil => simp
  | cons a s ih => simp [ih, Nat.add_assoc]

/-! ## Written form -/

mutual

/-- The written form of a tree. -/
def dump : Token → String
  | ⟨kind, text, loc, children⟩ =>
    "(Token " ++ loc.machine ++ " " ++ text ++ " " ++ kind.name
      ++ (if children.isEmpty then "" else " " ++ dumpAll children) ++ ")"

/-- The written forms of a sequence of trees, one after another. -/
def dumpAll : List Token → String
  | [] => ""
  | t :: ts => dump t ++ dumpAll ts

end

end Token

/-- Whether the text of a number denotes a number greater than zero. -/
def isPositive (number : String) : Bool := number != "0" && number.toList.head? != some '-'

end Offside
