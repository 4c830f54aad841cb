import Offside.Grammar.Expressions
import Offside.Syntax.Statement

/-!
# The grammars of introduced names

    reference = ["var"] name [":" type]
    binding   = reference ("," reference)* "=" expression
    bindings  = binding ("," binding)*

* `Reference.grammar`, `Binding.grammar`: the grammars; `Reference.parse`, `Binding.parse`.
* `Binding.parseAll`: the bindings of a `let`.
-/

namespace Offside

namespace Reference

/-- How tightly an annotation binds to its name. -/
def annotationPower : Nat := 1

/-- What introduced names are called in messages. -/
def expected : String := "a name"

/-- The name that `t` spells, introduced by the token `first`. -/
def ofName (first t : Token) (mutable : Bool) : Reference where
  loc := first.loc.join t.loc
  mutable := mutable
  name := t.text
  type := .unknown t.loc.endPoint .immutable

/-- Reads a name that is introduced by `t`. -/
def start (t : Token) : Parse Reference :=
  if t.kind = .identifier then return ofName t t false
  else if t.isReserved .varMark then do
    let name ← Parse.expect expected (·.kind == .identifier)
    return ofName t name true
  else Parse.unexpected expected (some t)

/-- An annotation continues a name. -/
def extend? (types : Grammar TypeExpr) (t : Token) : Option (Extension Reference) :=
  if t.isReserved .asType then
    some
      { power := annotationPower
        combine := fun r => do
          let type ← types.parse 0
          return { r with loc := r.loc.join type.loc, type := type } }
  else none

/-- The grammar of introduced names whose types nest up to a level. -/
def grammar (level : Nat) : Grammar Reference where
  expected := expected
  start t := start t
  extend? _ t := extend? (TypeExpr.grammar level) t

/-- Reads an introduced name. -/
def parse (power : Nat) : Parse Reference := Grammar.atWeight grammar power

end Reference

namespace Binding

/-- What bindings are called in messages. -/
def expected : String := "a binding"

/-- Reads a binding that begins with `t`. -/
def start (references : Grammar Reference) (values : Grammar Expr) (t : Token) :
    Parse Binding := do
  let name ← references.continueFrom 0 t
  let names ← Parse.afterCommas (references.parse 0)
  let _ ← Parse.expect "an equals sign" (·.is .operator "=")
  let value ← values.parse 0
  return ⟨t.loc.join value.loc, name :: names, value⟩

/-- The grammar of bindings whose types and values nest up to a level. -/
def grammar (level : Nat) : Grammar Binding where
  expected := expected
  start t := start (Reference.grammar level) (Expr.grammar level) t
  extend? _ _ := none

/-- Reads a binding. -/
def parse (power : Nat) : Parse Binding := Grammar.atWeight grammar power

/-- The bindings of a `let`. -/
def parseAll (bindings : Grammar Binding) : Parse (List Binding) := do
  let first ← bindings.parse 0
  let others ← Parse.afterCommas (bindings.parse 0)
  return first :: others

/-- Where a `let` with some bindings is written. -/
def letLoc (t : Token) (bindings : List Binding) : Location :=
  bindings.getLast?.elim t.loc fun last => t.loc.join last.loc

end Binding

end Offside
