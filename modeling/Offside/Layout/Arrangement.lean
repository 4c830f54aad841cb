import Offside.Layout.Punctuation
import Offside.Layout.Rules

/-!
# Layout

The offside rule turns the indentation of a token tree into explicit structure: semicolons between
statements, and the tokens of an indented block inside its `do`.

* `arrange`: the blocks among some sibling tokens, laid out from left to right.
* `layout`: the layout of a whole token tree.
-/

namespace Offside.Layout

/-- A block with its laid-out interior. -/
def Interior.close (interior : Interior) (t : Token) (run : List Placed) : Token :=
  { t with
    loc := interior.loc
    children :=
      if interior.holdsStatements then punctuate interior.rules.column run
      else run.map Placed.token }

/-- Lays out the blocks among sibling tokens. Each token is paired with where it began. -/
def arrange (r : Rules) : List Token → Except (Failure LexicalError) (List Placed)
  | [] => .ok []
  | t :: rest =>
    if t.kind = .block then
      match h : r.enter t rest with
      | .error failure => .error failure
      | .ok interior =>
        have := Rules.enter_weight h
        do
          let run ← arrange interior.rules interior.tokens
          let others ← arrange r interior.rest
          .ok (⟨t.loc.start, interior.close t run⟩ :: others)
    else do
      let others ← arrange r rest
      .ok (⟨t.loc.start, t⟩ :: others)
  termination_by tokens => Token.totalWeight tokens
  decreasing_by
    · omega
    · omega
    · simp only [Token.totalWeight_cons, Token.weight_eq]
      omega

/-- Lays out a whole token tree. Its first token sets the column of the statements. -/
def layout (tokens : List Token) : Except (Failure LexicalError) (List Token) :=
  let rules : Rules := ⟨Rules.columnOf 1 tokens, none⟩
  (arrange rules tokens).map (punctuate rules.column)

end Offside.Layout
