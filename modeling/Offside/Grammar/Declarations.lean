import Offside.Grammar.Statements

/-!
# The grammar of declarations

    declaration = "def" name "(" [reference ("," reference)*] ")" type body
                | "let" bindings

* `Declaration.grammar`, `Declaration.parse`: the grammar.
* `parseDeclarations`, `parseStatements`, `parseExpression`, `parseType`: read all tokens of an
  input as one category.
-/

namespace Offside

namespace Declaration

/-- What declarations are called in messages. -/
def expected : String := "a declaration"

/-- The rest of a function, with types and statements that nest up to a level. -/
def functionRest (level : Nat) (t : Token) : Parse Declaration := do
  let name ← Parse.expect "a function name" (·.kind == .identifier)
  let list ← Parse.expect "a parameter list" (·.isBlock (.bracketed .paren))
  let (params, _) ← Parse.within list (Parse.list ((Reference.grammar level).parse 0))
  let result ← (TypeExpr.grammar level).parse 0
  let block ← Parse.expectBody
  let body ← Statement.body (Statement.grammar level) block
  return function (t.loc.join block.loc) name.text params result body

/-- Reads a declaration that begins with `t`. -/
def start (level : Nat) (t : Token) : Parse Declaration :=
  match t.reserved? with
  | some .define => functionRest level t
  | some .letBind => do
    let all ← Binding.parseAll (Binding.grammar level)
    return letBind (Binding.letLoc t all) all
  | _ => Parse.unexpected expected (some t)

/-- The grammar of declarations whose parts nest up to a level. -/
def grammar (level : Nat) : Grammar Declaration where
  expected := expected
  start t := start level t
  extend? _ _ := none

/-- Reads a declaration. -/
def parse (power : Nat) : Parse Declaration := Grammar.atWeight grammar power

end Declaration

/-! ## Whole inputs -/

/-- The declarations of a program. Errors at the end of the tokens are reported at the end of
`span`. -/
def parseDeclarations (span : Location) (tokens : List Token) :
    Except (Failure ParseError) (List Declaration) :=
  (Parse.sequence (Declaration.parse 0)).result (Parser.ofTokens span tokens)

/-- The statements of an input. -/
def parseStatements (span : Location) (tokens : List Token) :
    Except (Failure ParseError) (List Statement) :=
  (Parse.sequence (Statement.parse 0)).result (Parser.ofTokens span tokens)

/-- The one expression of an input. -/
def parseExpression (span : Location) (tokens : List Token) : Except (Failure ParseError) Expr :=
  Parse.result (do let e ← Expr.parse 0; Parse.expectEnd; return e) (Parser.ofTokens span tokens)

/-- The one type of an input. -/
def parseType (span : Location) (tokens : List Token) : Except (Failure ParseError) TypeExpr :=
  Parse.result (do let t ← TypeExpr.parse 0; Parse.expectEnd; return t)
    (Parser.ofTokens span tokens)

end Offside
