import Offside.Token.Basic

/-!
# Statement separators

Once its blocks are laid out, a run of statements is punctuated: a token that begins a line in the
column of the run begins a statement, so a semicolon goes before it. Semicolons that separate
nothing are dropped.

* `Placed`: a laid-out token and where its source text begins.
* `separate`: semicolons before line starts, none at the beginning and no two in a row.
* `punctuate`: moreover none at the end.
-/

namespace Offside.Layout

/-- A laid-out token and where it begins in the source. -/
structure Placed where
  /-- The start of the token before it was laid out. -/
  start : Cursor
  /-- The laid-out token. -/
  token : Token

/-- The tokens of a run with semicolons before line starts. `inStatement` says whether a statement
is under way, so that a semicolon would end it, and the token before these ends on `row`. -/
def separate (column : Nat) : (row : Nat) → (inStatement : Bool) → List Placed → List Token
  | _, _, [] => []
  | row, inStatement, p :: rest =>
    let begins := inStatement && row < p.start.row && p.start.col == column
    let mark := if begins then [Token.semicolon (Location.point p.start)] else []
    let row' := p.token.loc.stop.row
    if p.token.kind = .semicolon then
      if inStatement && !begins then mark ++ p.token :: separate column row' false rest
      else mark ++ separate column row' false rest
    else mark ++ p.token :: separate column row' true rest

/-- A sequence of tokens without a semicolon at its end. -/
def dropFinalSemicolon (tokens : List Token) : List Token :=
  if tokens.getLast?.any (·.kind = .semicolon) then tokens.dropLast else tokens

/-- The tokens of a run of statements, with a semicolon between each two statements. -/
def punctuate (column : Nat) (run : List Placed) : List Token :=
  dropFinalSemicolon (separate column 0 false run)

end Offside.Layout
