import Offside.Grammar.Basic
import Offside.Syntax.TypeExpr

/-!
# The grammar of types

    type = ground | "_" | "var" type | "*" type | "(" [type ("," type)*] ")"
         | "[" [number | name] "]" type | type "->" type

* `TypeExpr.start`, `TypeExpr.extend?`: the forms, given how to read their parts. The operand of
  `var`, `*` and a buffer size stops before an arrow, and arrows associate to the right.
* `TypeExpr.grammar`, `TypeExpr.parse`: the grammar.
-/

namespace Offside

/-- The size of a buffer: a number, a name, or nothing. -/
def BufferSize.read : Parse BufferSize := do
  match ← Parse.advance with
  | none => return .unknown
  | some t =>
    if t.kind = .number then return .literal t.text
    else if t.kind = .identifier then return .external t.text
    else Parse.unexpected "a buffer size" (some t)

namespace TypeExpr

/-- How tightly an arrow binds. -/
def arrowPower : Nat := 1

/-- What types are called in messages. -/
def expected : String := "a type"

/-- Whether a token is a star before a type, attached to it or not. -/
def isStar (t : Token) : Bool := t.isReserved .valueAt || t.is .operator "*"

/-- A type in parentheses: nothing is the unit type, one type without a comma is that type, and
several are a tuple. -/
def ofMembers (loc : Location) : List TypeExpr × Bool → TypeExpr
  | ([], _) => ground loc .immutable .unit
  | ([member], false) => member.relocate loc
  | (members, _) => tuple loc .immutable members

/-- Reads a type that begins with `t`. -/
def start (parts : Grammar TypeExpr) (t : Token) : Parse TypeExpr :=
  if t.kind = .identifier then
    if t.text = "_" then return unknown t.loc .immutable
    else
      match Ground.ofName? t.text with
      | some g => return ground t.loc .immutable g
      | none => Parse.unexpected expected (some t)
  else if t.isReserved .varMark then do
    let inner ← parts.parse arrowPower
    return (inner.withModality .mutable).relocate (t.loc.join inner.loc)
  else if isStar t then do
    let pointee ← parts.parse arrowPower
    return pointer (t.loc.join pointee.loc) .immutable pointee
  else
    match t.blockKind? with
    | some (.bracketed .paren) => do
      let members ← Parse.within t (Parse.list (parts.parse 0))
      return ofMembers t.loc members
    | some (.bracketed .square) => do
      let size ← Parse.within t BufferSize.read
      let element ← parts.parse arrowPower
      return buffer (t.loc.join element.loc) .immutable size element
    | _ => Parse.unexpected expected (some t)

/-- An arrow continues a type. -/
def extend? (parts : Grammar TypeExpr) (t : Token) : Option (Extension TypeExpr) :=
  if t.is .operator "->" then
    some
      { power := arrowPower
        combine := fun domain => do
          let codomain ← parts.parse (arrowPower - 1)
          return arrow (domain.loc.join codomain.loc) .immutable domain codomain }
  else none

/-- The grammar of types that nest up to a level. -/
def grammar : (level : Nat) → Grammar TypeExpr
  | 0 => .barren expected
  | level + 1 =>
    { expected := expected
      start := fun t => start (grammar level) t
      extend? := fun _ t => extend? (grammar level) t }

/-- Reads a type. -/
def parse (power : Nat) : Parse TypeExpr := Grammar.atWeight grammar power

end TypeExpr

end Offside
