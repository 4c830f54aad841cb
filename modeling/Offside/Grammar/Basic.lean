import Offside.Grammar.Parser

/-!
# Grammars by binding power

A syntactic category is described by what a token means where it begins a form, and by what it means
where it continues one. The same walk reads the forms of every category.

* `Grammar`: such a description; `Extension`: how a token continues a form, and how tightly it
  binds.
* `Grammar.extendUpTo`: continues a form as long as the next token binds tighter than asked for.
* `Grammar.parse`, `Grammar.continueFrom`: read a form, with its first token ahead or just consumed.
* `Grammar.barren`: the grammar without forms.

The forms of a category nest, so its grammar is a tower: at level zero it is barren, and each level
reads the parts of its forms with the level below. A form consumes a token before it reads a part,
so the level `Parser.weight` is enough (`Grammar.atWeight`).
-/

namespace Offside

/-- How a token continues the form to its left. -/
structure Extension (α : Type) where
  /-- How tightly the token binds to that form. -/
  power : Nat
  /-- Reads what the token introduces, once it is consumed, and combines it with the form. -/
  combine : α → Parse α

/-- A syntactic category, described by the meaning of tokens in it. -/
structure Grammar (α : Type) where
  /-- What the category is called in messages. -/
  expected : String
  /-- Reads a form whose first token has just been consumed. -/
  start : Token → Parse α
  /-- How the next token continues the form before it, if it does. -/
  extend? : Parser → Token → Option (Extension α)

namespace Grammar

variable {α : Type}

/-- The grammar without forms. -/
def barren (expected : String) : Grammar α where
  expected := expected
  start t := Parse.unexpected expected (some t)
  extend? _ _ := none

/-- Continues a form by at most `bound` tokens that bind tighter than `power`. -/
def extendUpTo (g : Grammar α) (power : Nat) : (bound : Nat) → α → Parse α
  | 0, form => return form
  | bound + 1, form => fun p =>
    match p.rest with
    | [] => .ok form p
    | t :: _ =>
      match g.extend? p t with
      | none => .ok form p
      | some extension =>
        if power < extension.power then
          (extension.combine form >>= extendUpTo g power bound) (p.pass t)
        else .ok form p

/-- Reads a form whose first token has just been consumed, and continues it. -/
def continueFrom (g : Grammar α) (power : Nat) (t : Token) : Parse α := do
  let form ← g.start t
  let p ← get
  g.extendUpTo power p.rest.length form

/-- Reads a form and continues it. -/
def parse (g : Grammar α) (power : Nat) : Parse α := do
  let t ← Parse.expectToken g.expected
  g.continueFrom power t

/-- Reads a form with the level of a tower of grammars that the remaining tokens call for. -/
def atWeight (tower : Nat → Grammar α) (power : Nat) : Parse α := fun p =>
  (tower p.weight).parse power p

end Grammar

end Offside
