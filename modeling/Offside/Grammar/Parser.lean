import Offside.Grammar.ParseError

/-!
# Parsers

A parser walks over a sequence of sibling tokens. The interiors of blocks are walked by parsers of
their own.

* `Parser`: where a parser stands. `Parser.adjacent` tells whether a token directly follows the one
  consumed last, and `Parser.loopDepth?` which of the loops around the place a break leaves.
* `Parse`: an action of a parser. It yields a value or a failure, and in both cases the parser that
  is left.
* `Parse.advance`, `Parse.expect`, `Parse.accept`, ...: single steps.
* `Parse.inside`, `Parse.within`: the interior of a block; `Parse.insideLoop`: the body of a loop.
* `Parse.items`: items up to the end with separators between them.
-/

namespace Offside

/-- Where a parser stands. -/
structure Parser where
  /-- The tokens not yet consumed. -/
  rest : List Token
  /-- How many tokens are consumed. -/
  position : Nat
  /-- Where the token consumed last ends. -/
  lastStop? : Option Cursor
  /-- What ends where the tokens end. -/
  ending : Ending
  /-- Where errors at the end of the tokens are reported. -/
  endLoc : Location
  /-- The labels of the loops around this place, innermost first. -/
  loops : List (Option String)

namespace Parser

/-- A parser for the tokens of an input. -/
def ofTokens (span : Location) (tokens : List Token) : Parser :=
  ⟨tokens, 0, none, .input, span.endPoint, []⟩

/-- The number of tokens not yet consumed, interiors included. -/
def weight (p : Parser) : Nat := Token.totalWeight p.rest

/-- Whether `t` directly follows the token consumed last. -/
def adjacent (p : Parser) (t : Token) : Bool := p.lastStop? == some t.loc.start

/-- The error of finding `t`, or the end, in place of what is expected. -/
def unexpected (p : Parser) (expected : String) : Option Token → Failure ParseError
  | some t => .reported ⟨⟨expected, .token t.kind t.text⟩, t.loc⟩
  | none => .reported ⟨⟨expected, .ending p.ending⟩, p.endLoc⟩

/-- How many loops a break passes before the one that it leaves. Without a label that is the
innermost loop, with a label the innermost loop of this label. -/
def loopDepth? (p : Parser) : (label? : Option String) → Option Nat
  | none => if p.loops.isEmpty then none else some 0
  | some label => p.loops.findIdx? (· == some label)

/-- The parser past its next token. -/
def pass (p : Parser) (t : Token) : Parser :=
  { p with rest := p.rest.tail, position := p.position + 1, lastStop? := some t.loc.stop }

/-- The parser for the interior of a block. -/
def interior (p : Parser) (block : Token) (endLoc : Location) : Parser :=
  { p with
    rest := block.children
    position := 0
    lastStop? := none
    ending := .block
    endLoc := endLoc }

end Parser

/-- An action of a parser. -/
abbrev Parse := EStateM (Failure ParseError) Parser

namespace Parse

variable {α : Type}

/-! ## Single steps -/

/-- The next token, which stays. -/
def peek : Parse (Option Token) := fun p => .ok p.rest.head? p

/-- The token `n` places after the next one; all tokens stay. The place must have a position. -/
def peekNth (n : Nat) : Parse (Option Token) := fun p =>
  if p.position + n < coordinateBound then .ok p.rest[n]? p else .error (.fault .overflow) p

/-- Consumes the next token. -/
def advance : Parse (Option Token) := fun p =>
  match p.rest with
  | [] => .ok none p
  | t :: _ => .ok (some t) (p.pass t)

/-- Whether all tokens are consumed. -/
def isDone : Parse Bool := fun p => .ok p.rest.isEmpty p

/-- Fails on finding `t?` in place of what is expected. -/
def unexpected (expected : String) (t? : Option Token) : Parse α := fun p =>
  .error (p.unexpected expected t?) p

/-- Fails with a cause at a place. -/
def fail (cause : ParseError) (loc : Location) : Parse α := fun p =>
  .error (.reported ⟨cause, loc⟩) p

/-- Consumes the next token, whatever it is. -/
def expectToken (expected : String) : Parse Token := fun p =>
  match p.rest with
  | [] => .error (p.unexpected expected none) p
  | t :: _ => .ok t (p.pass t)

/-- Consumes the next token if it fits, and fails otherwise. -/
def expect (expected : String) (fits : Token → Bool) : Parse Token := fun p =>
  match p.rest with
  | [] => .error (p.unexpected expected none) p
  | t :: _ => if fits t then .ok t (p.pass t) else .error (p.unexpected expected (some t)) p

/-- Consumes the next token if it fits. -/
def accept (fits : Token → Bool) : Parse (Option Token) := fun p =>
  match p.rest with
  | [] => .ok none p
  | t :: _ => if fits t then .ok (some t) (p.pass t) else .ok none p

/-- Fails unless all tokens are consumed. -/
def expectEnd : Parse Unit := fun p =>
  match p.rest with
  | [] => .ok () p
  | t :: _ => .error (p.unexpected p.ending.name (some t)) p

/-- Consumes a block that holds statements. -/
def expectBody : Parse Token :=
  expect "a \x7b \x7d or do block" fun t => t.blockKind?.any BlockKind.holdsStatements

/-- Consumes `else`, and a semicolon that layout has put before it. -/
def acceptElse : Parse (Option Token) := fun p =>
  match p.rest with
  | [] => .ok none p
  | t :: after =>
    if t.isReserved .otherwise then .ok (some t) (p.pass t)
    else
      match after with
      | [] => .ok none p
      | u :: _ =>
        if t.kind = .semicolon ∧ u.isReserved .otherwise then .ok (some u) ((p.pass t).pass u)
        else .ok none p

/-! ## Blocks and loops -/

/-- Runs an action on the interior of a block. Errors at its end are reported at its closer, or
where it ends if it is indented. -/
def inside (block : Token) (action : Parse α) : Parse α := fun p =>
  let endLoc? :=
    if block.isBlock .indented then some block.loc.endPoint else block.loc.lastChar?
  match endLoc? with
  | none => .error (.fault .inverted) p
  | some endLoc =>
    match action (p.interior block endLoc) with
    | .ok a q => .ok a { p with loops := q.loops }
    | .error e q => .error e { p with loops := q.loops }

/-- Runs an action that must consume the whole interior of a block. -/
def within (block : Token) (action : Parse α) : Parse α :=
  inside block do
    let a ← action
    expectEnd
    return a

/-- Runs an action inside one more loop. -/
def insideLoop (label? : Option String) (action : Parse α) : Parse α := fun p =>
  match action { p with loops := label? :: p.loops } with
  | .ok a q => .ok a { q with loops := q.loops.tail }
  | .error e q => .error e { q with loops := q.loops.tail }

/-! ## Sequences -/

/-- Items with separators between them, at most `bound` of them. Also tells whether there was a
separator. -/
def itemsUpTo (separator : TokenKind) (item : Parse α) : (bound : Nat) → Parse (List α × Bool)
  | 0 => return ([], false)
  | bound + 1 => do
    if ← isDone then return ([], false)
    let a ← item
    if ← isDone then return ([a], false)
    let p ← get
    let _ ← expect ("a " ++ separator.describe ++ " or " ++ p.ending.name) (·.kind == separator)
    let (others, _) ← itemsUpTo separator item bound
    return (a :: others, true)

/-- Items up to the end of the tokens with separators between them; one may also stand at the end.
Each separator consumes a token, so the number of tokens bounds the number of items. -/
def items (separator : TokenKind) (item : Parse α) : Parse (List α × Bool) := fun p =>
  itemsUpTo separator item p.rest.length p

/-- Items with semicolons between them, up to the end of the tokens. -/
def sequence (item : Parse α) : Parse (List α) := Prod.fst <$> items .semicolon item

/-- Items with commas between them, up to the end of the tokens, and whether there was a comma. -/
def list (item : Parse α) : Parse (List α × Bool) := items .comma item

/-- Items that each follow a comma, at most `bound` of them. -/
def afterCommasUpTo (item : Parse α) : (bound : Nat) → Parse (List α)
  | 0 => return []
  | bound + 1 => do
    match ← accept (·.kind == .comma) with
    | none => return []
    | some _ =>
      let a ← item
      let others ← afterCommasUpTo item bound
      return a :: others

/-- All items that each follow a comma, as long as there is one. -/
def afterCommas (item : Parse α) : Parse (List α) := fun p =>
  afterCommasUpTo item p.rest.length p

/-! ## Results -/

/-- The value of an action, without the parser that is left. -/
def result (action : Parse α) (p : Parser) : Except (Failure ParseError) α :=
  match action p with
  | .ok a _ => .ok a
  | .error e _ => .error e

end Parse

end Offside
