import Offside.Token.Basic
import Offside.Token.LexicalError

/-!
# The offside rule

What indentation means at one place of a token tree, and what it makes of one block.

* `Rules`: the column of the statements around a place, and the column at which an indented block
  around it ends.
* `dedents`, `splitRegion`: the tokens up to the first that begins a line at or to the left of a
  column. They are the region of a `do`, and in brackets there may be none after them.
* `Rules.enter`: the interior of a block with the rules that hold inside it, or the rule that the
  block breaks. Braces hold statements of their own and must close to the right of the statements
  around them; a `do` takes the region after it; any other block must end before the statement that
  it is in.
* `Rules.enter_weight`: entering a block hands every token on once, to its interior or to its rest.
-/

namespace Offside.Layout

/-- What indentation means at one place. -/
structure Rules where
  /-- The column in which a token that begins a line begins a statement. -/
  column : Nat
  /-- The column at or to the left of which the indented block around this place ends. -/
  limit? : Option Nat

/-! ## Regions -/

/-- Whether a token begins a line after `row` at or to the left of `column`. -/
def dedents (column row : Nat) (t : Token) : Bool :=
  row < t.loc.start.row && t.loc.start.col ≤ column

/-- The tokens before the first that begins a line at or to the left of `column`, and the others.
The token before them ends on `row`. -/
def splitRegion (column : Nat) : (row : Nat) → List Token → List Token × List Token
  | _, [] => ([], [])
  | row, t :: rest =>
    if dedents column row t then ([], t :: rest)
    else
      let (region, after) := splitRegion column t.loc.stop.row rest
      (t :: region, after)

/-- A region and the tokens after it are all tokens, in order. -/
theorem splitRegion_append (column row : Nat) (ts : List Token) :
    (splitRegion column row ts).1 ++ (splitRegion column row ts).2 = ts := by
  induction ts generalizing row with
  | nil => rfl
  | cons t rest ih =>
    rw [splitRegion]
    split
    · rfl
    · simp only [List.cons_append, ih]

/-! ## Blocks -/

/-- The interior of a block that is being laid out. -/
structure Interior where
  /-- The rules inside the block. -/
  rules : Rules
  /-- The tokens inside the block. -/
  tokens : List Token
  /-- The tokens that follow the block. -/
  rest : List Token
  /-- The location of the whole block. -/
  loc : Location
  /-- Whether the block holds statements. -/
  holdsStatements : Bool

namespace Rules

/-- A failure of the text at a place. -/
def breach {α : Type} (cause : LexicalError) (loc : Location) : Except (Failure LexicalError) α :=
  .error (.reported ⟨cause, loc⟩)

/-- A brace on a later row than its opener must not end an indented block and must not stand to the
left of the statements around it. -/
def checkBrace (r : Rules) (t : Token) : Except (Failure LexicalError) Unit :=
  match t.loc.lastChar? with
  | none => .error (.fault .inverted)
  | some close =>
    if close.start.row ≤ t.loc.start.row then .ok ()
    else if r.limit?.any (close.start.col ≤ ·) then breach .cutOffBrace close
    else if close.start.col < r.column then breach .dedentedBrace close
    else .ok ()

/-- No line inside brackets, and no closer on a later row, may stand at or to the left of the
statements around them. -/
def checkBrackets (r : Rules) (t : Token) : Except (Failure LexicalError) Unit :=
  match (splitRegion r.column t.loc.start.row t.children).2 with
  | child :: _ => breach .dedentedLine child.loc
  | [] =>
    match t.loc.lastChar? with
    | none => .error (.fault .inverted)
    | some close =>
      if t.loc.start.row < close.start.row ∧ close.start.col ≤ r.column then
        breach .dedentedCloser close
      else .ok ()

/-- The column in which tokens begin, or `default` if there are none. -/
def columnOf (default : Nat) (tokens : List Token) : Nat :=
  match tokens with
  | [] => default
  | t :: _ => t.loc.start.col

/-- The interior of a `do` block: what it holds already, and the region after it. -/
def enterIndented (r : Rules) (t : Token) (rest : List Token) : Interior :=
  let (region, after) := splitRegion r.column t.loc.stop.row rest
  let tokens := t.children ++ region
  { rules := ⟨max (columnOf r.column tokens) r.column, some r.column⟩
    tokens := tokens
    rest := after
    loc := (tokens.getLast?).elim t.loc fun last => t.loc.join last.loc
    holdsStatements := true }

/-- The interior of a block, given the tokens after it. -/
def enter (r : Rules) (t : Token) (rest : List Token) : Except (Failure LexicalError) Interior :=
  match t.blockKind? with
  | some (.bracketed .brace) =>
    (r.checkBrace t).map fun _ =>
      { rules := ⟨columnOf r.column t.children, none⟩
        tokens := t.children
        rest := rest
        loc := t.loc
        holdsStatements := true }
  | some .indented => .ok (r.enterIndented t rest)
  | _ =>
    (r.checkBrackets t).map fun _ =>
      { rules := r
        tokens := t.children
        rest := rest
        loc := t.loc
        holdsStatements := false }

/-- A `do` hands every token on once, to its interior or to its rest. -/
theorem enterIndented_weight (r : Rules) (t : Token) (rest : List Token) :
    Token.totalWeight (r.enterIndented t rest).tokens
      + Token.totalWeight (r.enterIndented t rest).rest + 1 = Token.totalWeight (t :: rest) := by
  have h := congrArg Token.totalWeight (splitRegion_append r.column t.loc.stop.row rest)
  simp only [Token.totalWeight_append] at h
  simp only [enterIndented, Token.totalWeight_append, Token.totalWeight_cons, Token.weight_eq]
  omega

/-- A block hands every token on once, to its interior or to its rest. -/
theorem enter_weight {r : Rules} {t : Token} {rest : List Token} {interior : Interior}
    (h : r.enter t rest = .ok interior) :
    Token.totalWeight interior.tokens + Token.totalWeight interior.rest + 1
      = Token.totalWeight (t :: rest) := by
  unfold enter at h
  split at h
  · cases hc : r.checkBrace t with
    | error e => simp [hc, Except.map] at h
    | ok _ =>
      simp only [hc, Except.map, Except.ok.injEq] at h
      subst h
      simp only [Token.totalWeight_cons, Token.weight_eq]
      omega
  · simp only [Except.ok.injEq] at h
    subst h
    exact enterIndented_weight r t rest
  · cases hc : r.checkBrackets t with
    | error e => simp [hc, Except.map] at h
    | ok _ =>
      simp only [hc, Except.map, Except.ok.injEq] at h
      subst h
      simp only [Token.totalWeight_cons, Token.weight_eq]
      omega

end Rules

end Offside.Layout
