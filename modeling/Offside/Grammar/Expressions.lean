import Offside.Grammar.Types
import Offside.Syntax.Expr
import Offside.Syntax.Operator

/-!
# The grammar of expressions

From loose to tight: the binary operators by `binaryOperators`, with backtick calls among `+` and
`-`; type ascription; application by juxtaposition; and indices and argument lists that directly
follow their operand. Binary operators associate to the left. The operand of `-`, `*` and `&` may be
an application but no ascription.

* `Expr.application`: a function with its arguments, located from the function to its last argument.
* `Expr.start`, `Expr.extend?`: the forms, given how to read their parts.
* `Expr.grammar`, `Expr.parse`: the grammar.
-/

namespace Offside

namespace Expr

/-- How tightly a backtick call binds. -/
def backtickPower : Nat := 5

/-- How tightly a type ascription binds. -/
def ascriptionPower : Nat := 11

/-- How tightly `-`, `*` and `&` hold their operand. -/
def unaryPower : Nat := 11

/-- How tightly juxtaposed arguments bind. -/
def applicationPower : Nat := 12

/-- How tightly indices and argument lists bind to what they directly follow. -/
def attachedPower : Nat := 13

/-- What expressions are called in messages. -/
def expected : String := "an expression"

/-! ## Pieces -/

/-- A function with its arguments, located from the function to its last argument. -/
def application (style : CallStyle) (function : Expr) (args : List Expr) : Expr :=
  let loc := args.getLast?.elim function.loc fun last => function.loc.join last.loc
  apply loc style function args

/-- The name that a token spells. -/
def ofName (t : Token) : Expr := ident t.loc t.text

/-- An expression in parentheses: one without a comma is that expression, others are a tuple. -/
def ofParts (loc : Location) : List Expr × Bool → Expr
  | ([part], false) => part.relocate loc
  | (parts, _) => tuple loc parts

/-- The place that an expression names, or the error that it names none. -/
def expectPlace (e : Expr) : Parse Place :=
  match Place.ofExpr e with
  | .ok place => return place
  | .error part =>
    Parse.fail ⟨"an assignable expression", .expression part.describe⟩ part.loc

/-- Whether a token can begin a juxtaposed argument. Brackets can if they do not directly follow
what is before them. -/
def beginsArgument (p : Parser) (t : Token) : Bool :=
  match t.kind with
  | .identifier | .number => true
  | .reserved => t.isReserved .negate || t.isReserved .valueAt || t.isReserved .addressOf
  | .block =>
    (t.isBlock (.bracketed .paren) || t.isBlock (.bracketed .square)) && !p.adjacent t
  | _ => false

/-- Juxtaposed arguments, at most `bound` of them. -/
def argumentsUpTo (parts : Grammar Expr) : (bound : Nat) → Parse (List Expr)
  | 0 => return []
  | bound + 1 => fun p =>
    match p.rest with
    | [] => .ok [] p
    | t :: _ =>
      if beginsArgument p t then
        (do
          let arg ← parts.continueFrom applicationPower t
          let others ← argumentsUpTo parts bound
          return arg :: others : Parse (List Expr)) (p.pass t)
      else .ok [] p

/-- All juxtaposed arguments from here on. -/
def arguments (parts : Grammar Expr) : Parse (List Expr) := fun p =>
  argumentsUpTo parts p.rest.length p

/-! ## Forms by their first token -/

/-- The operand of a sign that has just been consumed, and the expression that they form. -/
def unary (parts : Grammar Expr) (t : Token) (sign : Reserved) : Parse Expr := do
  let operand ← parts.parse unaryPower
  let loc := t.loc.join operand.loc
  match sign with
  | .valueAt => return valueAt loc operand
  | .addressOf => do
    let target ← expectPlace operand
    return addressOf loc target
  | _ => return application .curried (ofName t) [operand]

/-- The rest of a conditional expression. -/
def conditional (parts : Grammar Expr) (t : Token) : Parse Expr := do
  let condition ← parts.parse 0
  let yesBlock ← Parse.expectBody
  let yes ← Parse.within yesBlock (parts.parse 0)
  match ← Parse.acceptElse with
  | none => do
    let next? ← Parse.peek
    Parse.unexpected "an else branch" next?
  | some _ =>
    let noBlock ← Parse.expectBody
    let no ← Parse.within noBlock (parts.parse 0)
    return ifThen (t.loc.join noBlock.loc) condition yes no

/-- Reads an expression that begins with `t`. -/
def start (parts : Grammar Expr) (t : Token) : Parse Expr :=
  match t.kind with
  | .identifier => return ofName t
  | .number => return number t.loc t.text
  | .reserved =>
    match t.reserved? with
    | some .negate => unary parts t .negate
    | some .valueAt => unary parts t .valueAt
    | some .addressOf => unary parts t .addressOf
    | some .ifThen => conditional parts t
    | _ => Parse.unexpected expected (some t)
  | .block =>
    match t.blockKind? with
    | some (.bracketed .paren) => do
      let elements ← Parse.within t (Parse.list (parts.parse 0))
      return ofParts t.loc elements
    | some (.bracketed .square) => do
      let (elements, _) ← Parse.within t (Parse.list (parts.parse 0))
      return buffer t.loc elements
    | _ => Parse.unexpected expected (some t)
  | _ => Parse.unexpected expected (some t)

/-! ## Forms by the token that continues them -/

/-- A binary operator and its right operand. -/
def infixCall (parts : Grammar Expr) (t : Token) (power : Nat) : Extension Expr where
  power := power
  combine left := do
    let right ← parts.parse power
    return application .curried (ofName t) [left, right]

/-- A type ascription. -/
def ascription (types : Grammar TypeExpr) : Extension Expr where
  power := ascriptionPower
  combine value := do
    let type ← types.parse 0
    return asType (value.loc.join type.loc) value type

/-- A function in backticks and its right operand. -/
def backtickCall (parts : Grammar Expr) (t : Token) : Extension Expr where
  power := backtickPower
  combine left := do
    let function ← Parse.within t (parts.parse 0)
    let right ← parts.parse backtickPower
    return apply (left.loc.join right.loc) .curried function [left, right]

/-- An index. -/
def indexing (parts : Grammar Expr) (t : Token) : Extension Expr where
  power := attachedPower
  combine base := do
    let offset ← Parse.within t (parts.parse 0)
    return index (base.loc.join t.loc) base offset

/-- A list of arguments in parentheses. -/
def listCall (parts : Grammar Expr) (t : Token) : Extension Expr where
  power := attachedPower
  combine function := do
    let (args, _) ← Parse.within t (Parse.list (parts.parse 0))
    return apply (function.loc.join t.loc) .tupled function args

/-- Juxtaposed arguments, all of them in one application. -/
def juxtaposition (parts : Grammar Expr) (t : Token) : Extension Expr where
  power := applicationPower
  combine function := do
    let first ← parts.continueFrom applicationPower t
    let others ← arguments parts
    return application .curried function (first :: others)

/-- Juxtaposed arguments, if `t` can begin one. -/
def juxtaposition? (parts : Grammar Expr) (p : Parser) (t : Token) : Option (Extension Expr) :=
  if beginsArgument p t then some (juxtaposition parts t) else none

/-- How `t` continues the expression before it. -/
def extend? (parts : Grammar Expr) (types : Grammar TypeExpr) (p : Parser) (t : Token) :
    Option (Extension Expr) :=
  match t.kind with
  | .operator => (bindingPower? t.text).map (infixCall parts t)
  | .reserved =>
    if t.isReserved .asType then some (ascription types) else juxtaposition? parts p t
  | .block =>
    match t.blockKind? with
    | some (.bracketed .backtick) => some (backtickCall parts t)
    | some (.bracketed .square) =>
      if p.adjacent t then some (indexing parts t) else juxtaposition? parts p t
    | some (.bracketed .paren) =>
      if p.adjacent t then some (listCall parts t) else juxtaposition? parts p t
    | _ => juxtaposition? parts p t
  | _ => juxtaposition? parts p t

/-! ## The grammar -/

/-- The grammar of expressions that nest up to a level. -/
def grammar : (level : Nat) → Grammar Expr
  | 0 => .barren expected
  | level + 1 =>
    { expected := expected
      start := fun t => start (grammar level) t
      extend? := fun p t => extend? (grammar level) (TypeExpr.grammar (level + 1)) p t }

/-- Reads an expression. -/
def parse (power : Nat) : Parse Expr := Grammar.atWeight grammar power

end Expr

end Offside
