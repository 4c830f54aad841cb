import Offside.Grammar.Bindings

/-!
# The grammar of statements

    statement = "if" expr body [";"] ["else" (body | statement)]
              | "forever" [name] body | "break" [name] | "let" bindings | "return" expr
              | body | expr "=" expr | expr

A body is a block that holds statements. Only another `if` may stand in place of the body after
`else`, and an expression that is a statement of its own must be an application.

* `Statement.start`: the forms, given how to read their parts.
* `Statement.grammar`, `Statement.parse`: the grammar.
-/

namespace Offside

namespace Statement

/-- What statements are called in messages. -/
def expected : String := "a statement"

/-- The statements inside a block. -/
def body (parts : Grammar Statement) (block : Token) : Parse (List Statement) :=
  Parse.within block (Parse.sequence (parts.parse 0))

/-- The rest of a conditional statement. A second condition after `else` is its only statement. -/
def conditional (parts : Grammar Statement) (values : Grammar Expr) (t : Token) :
    Parse Statement := do
  let condition ← values.parse 0
  let yesBlock ← Parse.expectBody
  let yes ← body parts yesBlock
  let loc := t.loc.join yesBlock.loc
  match ← Parse.acceptElse with
  | none => return branch loc condition yes []
  | some _ =>
    match ← Parse.accept (·.isReserved .ifThen) with
    | some chained =>
      let no ← parts.start chained
      return branch (loc.join no.loc) condition yes [no]
    | none =>
      let noBlock ← Parse.expectBody
      let no ← body parts noBlock
      return branch (loc.join noBlock.loc) condition yes no

/-- The rest of a loop. -/
def loop (parts : Grammar Statement) (t : Token) : Parse Statement := do
  let label? ← Parse.accept (·.kind == .identifier)
  let block ← Parse.expectBody
  let label? := label?.map Token.text
  let inner ← Parse.insideLoop label? (body parts block)
  return forever (t.loc.join block.loc) label? inner

/-- The rest of a break. -/
def leaveLoop (t : Token) : Parse Statement := do
  match ← Parse.accept (·.kind == .identifier) with
  | none =>
    match (← get).loopDepth? none with
    | some depth => return breakLoop t.loc depth
    | none => Parse.unexpected "a loop around this break" (some t)
  | some label =>
    match (← get).loopDepth? (some label.text) with
    | some depth => return breakLoop (t.loc.join label.loc) depth
    | none => Parse.unexpected "the label of an enclosing loop" (some label)

/-- An application as a statement of its own. -/
def ofApplication : Expr → Parse Statement
  | .apply loc style function args => return call loc style function args
  | e => Parse.fail ⟨"a function call", .expression e.describe⟩ e.loc

/-- An assignment or a call that begins with `t`. -/
def assignmentOrCall (values : Grammar Expr) (t : Token) : Parse Statement := do
  let e ← values.continueFrom 0 t
  match ← Parse.accept (·.is .operator "=") with
  | some _ =>
    let value ← values.parse 0
    let target ← e.expectPlace
    return assign (e.loc.join value.loc) target value
  | none =>
    match ← Parse.peek with
    | none => ofApplication e
    | some next =>
      if next.kind = .semicolon then ofApplication e
      else Parse.unexpected "an equals sign or the end of the statement" (some next)

/-- A block, an assignment or a call that begins with `t`. -/
def simple (parts : Grammar Statement) (values : Grammar Expr) (t : Token) : Parse Statement :=
  if t.blockKind?.any BlockKind.holdsStatements then do
    let inner ← body parts t
    return nested t.loc inner
  else assignmentOrCall values t

/-- Reads a statement that begins with `t`. -/
def start (parts : Grammar Statement) (bindings : Grammar Binding) (values : Grammar Expr)
    (t : Token) : Parse Statement :=
  match t.reserved? with
  | some .ifThen => conditional parts values t
  | some .forever => loop parts t
  | some .breakLoop => leaveLoop t
  | some .letBind => do
    let all ← Binding.parseAll bindings
    return letBind (Binding.letLoc t all) all
  | some .returnValue => do
    let value ← values.parse 0
    return returnValue (t.loc.join value.loc) value
  | some .negate | some .valueAt | some .addressOf | none => simple parts values t
  | some _ => Parse.unexpected expected (some t)

/-- The grammar of statements that nest up to a level. -/
def grammar : (level : Nat) → Grammar Statement
  | 0 => .barren expected
  | level + 1 =>
    { expected := expected
      start := fun t =>
        start (grammar level) (Binding.grammar (level + 1)) (Expr.grammar (level + 1)) t
      extend? := fun _ _ => none }

/-- Reads a statement. -/
def parse (power : Nat) : Parse Statement := Grammar.atWeight grammar power

end Statement

end Offside
