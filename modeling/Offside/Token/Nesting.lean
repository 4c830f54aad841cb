import Offside.Lexeme.Scanner

/-!
# Token trees

A run of tokens and a group of brackets are read by two functions that call each other. A run ends
before the first character that begins no token of it, be it a closer or not, and whoever asked for
the run decides what to make of that character.

* `Scanner.readRun`: the tokens of a run, and where it ends.
* `Scanner.readGroup`: a group, from its opener to its closer.
* `Scanner.stuck`: the error of a character that nothing reads.
* `Token.ofSource`: the token trees of a source text.

Groups of backticks do not nest. Whether one is open around a run is handed down to it, also through
the groups of other brackets in between.
-/

namespace Offside

namespace Scanner

/-- The error where reading is stuck. -/
def stuck (s : Scanner) (inBackticks : Bool) (text : List Char) : Located LexicalError :=
  ⟨match text with
    | [] => .unrecognized ' '
    | c :: _ =>
      match closed? inBackticks c with
      | some bracket => .unmatched bracket
      | none => .unrecognized c,
    Location.one s.cursor⟩

/-- The error of a group that is still open at the end of the input. -/
def unclosed (s : Scanner) (bracket : Bracket) : Located LexicalError :=
  ⟨if bracket = .brace then .cutOffBrace else .unclosed bracket, Location.one s.cursor⟩

mutual

/-- The tokens of a run, up to the end of the text or a character that begins none. Within a group
of backticks, a backtick is such a character. -/
def readRun (inBackticks : Bool) (s : Scanner) (text : List Char) :
    Except (Located LexicalError) (List Token × Stand text) := do
  match ← s.skipBlank text with
  | ⟨s, [], h⟩ => return ([], ⟨s, [], h⟩)
  | ⟨s, c :: rest, h⟩ =>
    match s.leaf? c rest with
    | some leaf =>
      let (tokens, stand) ← readRun inBackticks (s.past leaf.used leaf.separates) leaf.rest
      return (leaf.token :: tokens, stand.within (leaf.rest_suffix.trans h))
    | none =>
      match CharClass.of? c with
      | some (.opener bracket) =>
        if bracket = .backtick ∧ inBackticks then
          return ([], ⟨s, c :: rest, h⟩)
        else
          let (group, inner) ← readGroup inBackticks bracket s c rest
          let (tokens, stand) ← readRun inBackticks inner.scanner inner.rest
          return (group :: tokens,
            (stand.within inner.rest_suffix).within ((List.suffix_cons c rest).trans h))
      | _ => return ([], ⟨s, c :: rest, h⟩)
  termination_by 2 * text.length
  decreasing_by
    · have hleaf := leaf.length_lt
      have htext := h.length_le
      omega
    · have htext := h.length_le
      rw [List.length_cons] at htext
      omega
    · have htext := h.length_le
      have hinner := inner.rest_suffix.length_le
      rw [List.length_cons] at htext
      omega

/-- The group that `c` opens, and where reading stands after its closer. -/
def readGroup (inBackticks : Bool) (bracket : Bracket) (s : Scanner) (c : Char)
    (rest : List Char) : Except (Located LexicalError) (Token × Stand rest) := do
  let inside := inBackticks || bracket == .backtick
  let (tokens, stand) ← readRun inside (s.past [c] true) rest
  match stand with
  | ⟨_, [], _⟩ => throw (s.unclosed bracket)
  | ⟨last, d :: after, h⟩ =>
    if d = bracket.closer then
      let loc := (s.locate [c]).join (last.locate [d])
      return (Token.block (.bracketed bracket) loc tokens,
        ⟨last.past [d] false, after, (List.suffix_cons d after).trans h⟩)
    else throw (last.stuck inside (d :: after))
  termination_by 2 * rest.length + 1

end

end Scanner

/-- The token trees of a source text. -/
def Token.ofSource (source : String) : Except (Located LexicalError) (List Token) := do
  let (tokens, stand) ← Scanner.initial.readRun false source.toList
  match stand with
  | ⟨_, [], _⟩ => return tokens
  | ⟨s, c :: rest, _⟩ => throw (s.stuck false (c :: rest))

end Offside
