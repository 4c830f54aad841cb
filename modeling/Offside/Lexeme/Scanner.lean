import Offside.Lexeme.CharClass
import Offside.Token.Basic
import Offside.Token.LexicalError

/-!
# Reading characters

* `Scanner`: where reading stands, and whether the next token is separated from the one before it.
* `Leaf`: a token without interior that a text begins with. `Scanner.leaf?`: the one that is next.
* `Scanner.skipBlank`: past blanks and comments. A comment runs to the end of its line; a tab is
  never allowed.
* `closed?`: which group a character closes.

An operator consisting of `-`, `*` or `&` alone that is separated from what is before it and
attached to what follows becomes a reserved word (`operatorToken`), and a minus sign that is
separated and attached to a digit belongs to the number.
-/

namespace Offside

/-! ## Tokens -/

/-- The token of a word: `do` opens a block, keywords are reserved, the others are names. -/
def wordToken (word : String) (loc : Location) : Token :=
  if word = blockWord then Token.block .indented loc []
  else if (Reserved.keyword? word).isSome then Token.leaf .reserved word loc
  else Token.leaf .identifier word loc

/-- Whether a character right after an operator can begin its operand. -/
def beginsOperand (c : Char) : Bool :=
  match CharClass.of? c with
  | some .letter | some (.opener _) => true
  | _ => false

/-- The token of an operator. -/
def operatorToken (operator : String) (separated attached : Bool) (loc : Location) : Token :=
  match Reserved.ofAttached? operator, separated && attached with
  | some word, true => Token.leaf .reserved word.text loc
  | _, _ =>
    if operator = ":" then Token.leaf .reserved Reserved.asType.text loc
    else Token.leaf .operator operator loc

/-- The token of a comma or a semicolon. -/
def separatorToken (c : Char) (loc : Location) : Token :=
  Token.leaf (if c = ',' then .comma else .semicolon) c.toString loc

/-- A token without interior that a text begins with. -/
structure Leaf (text : List Char) where
  /-- The token. -/
  token : Token
  /-- The characters that it is read from. -/
  used : List Char
  /-- What follows them. -/
  rest : List Char
  /-- Whether it separates what follows from what is before it. -/
  separates : Bool
  /-- These characters and what follows them are the text. -/
  used_append : used ++ rest = text
  /-- A token is read from something. -/
  used_ne : used ≠ []

namespace Leaf

variable {text : List Char}

/-- What follows a token is a suffix of the text. -/
theorem rest_suffix (leaf : Leaf text) : leaf.rest <:+ text := ⟨leaf.used, leaf.used_append⟩

/-- What follows a token is shorter than the text. -/
theorem length_lt (leaf : Leaf text) : leaf.rest.length < text.length := by
  have hused : 0 < leaf.used.length := List.length_pos_iff.2 leaf.used_ne
  have htext := congrArg List.length leaf.used_append
  rw [List.length_append] at htext
  omega

/-- The token of a run of characters, of which `c` is the first. -/
def run (continues : Char → Bool) (token : List Char → Token) (c : Char) (rest : List Char) :
    Leaf (c :: rest) where
  token := token (c :: rest.takeWhile continues)
  used := c :: rest.takeWhile continues
  rest := rest.dropWhile continues
  separates := false
  used_append := by rw [List.cons_append, List.takeWhile_append_dropWhile]
  used_ne := List.cons_ne_nil _ _

end Leaf

/-! ## Where reading stands -/

/-- Where reading stands. -/
structure Scanner where
  /-- The cursor of the next character. -/
  cursor : Cursor
  /-- Whether something separates the next token from the one before it. -/
  separated : Bool

namespace Scanner

/-- Where reading begins. -/
def initial : Scanner := ⟨Cursor.origin, true⟩

/-- Past `text`, with the next token separated from it or not. -/
def past (s : Scanner) (text : List Char) (separated : Bool) : Scanner :=
  ⟨s.cursor.after text, separated⟩

/-- The location of `text` when it is next. -/
def locate (s : Scanner) (text : List Char) : Location := Location.ofText s.cursor text

/-- Whether `c` is a minus sign that, followed by `rest`, begins a number. -/
def beginsNumber (s : Scanner) (c : Char) (rest : List Char) : Bool :=
  c == '-' && s.separated && rest.head?.any Char.isDigit

/-! ## The next token -/

/-- A word. -/
def word (s : Scanner) : (c : Char) → (rest : List Char) → Leaf (c :: rest) :=
  .run isWordChar fun text => wordToken (String.ofList text) (s.locate text)

/-- A number, perhaps with a minus sign. -/
def number (s : Scanner) : (c : Char) → (rest : List Char) → Leaf (c :: rest) :=
  .run Char.isDigit fun text => Token.leaf .number (String.ofList text) (s.locate text)

/-- An operator. -/
def operator (s : Scanner) (c : Char) (rest : List Char) : Leaf (c :: rest) :=
  .run isOperatorChar (fun text => operatorToken (String.ofList text) s.separated
    ((rest.dropWhile isOperatorChar).head?.any beginsOperand) (s.locate text)) c rest

/-- A comma or a semicolon. -/
def separator (s : Scanner) (c : Char) (rest : List Char) : Leaf (c :: rest) where
  token := separatorToken c (s.locate [c])
  used := [c]
  rest := rest
  separates := true
  used_append := rfl
  used_ne := List.cons_ne_nil _ _

/-- The token without interior that begins with `c`, if one does. -/
def leaf? (s : Scanner) (c : Char) (rest : List Char) : Option (Leaf (c :: rest)) :=
  match CharClass.of? c with
  | some .letter => some (s.word c rest)
  | some .digit => some (s.number c rest)
  | some .operator => some (if s.beginsNumber c rest then s.number c rest else s.operator c rest)
  | some .separator => some (s.separator c rest)
  | _ => none

end Scanner

/-! ## Blanks and comments -/

/-- Where reading stands in a text. -/
structure Stand (text : List Char) where
  /-- The cursor, and whether the next token is separated. -/
  scanner : Scanner
  /-- What remains to be read. -/
  rest : List Char
  /-- It is the end of the text. -/
  rest_suffix : rest <:+ text

/-- Where reading stands in a text, with something before it. -/
def Stand.within {rest text : List Char} (stand : Stand rest) (h : rest <:+ text) : Stand text :=
  ⟨stand.scanner, stand.rest, stand.rest_suffix.trans h⟩

namespace Scanner

/-- Whether a comment goes on with a character. -/
def continuesComment (c : Char) : Bool := c != '\n' && c != '\t'

/-- What follows a run of characters is shorter than the run with it. -/
theorem length_dropWhile_lt (p : Char → Bool) (c : Char) (rest : List Char) :
    (rest.dropWhile p).length < (c :: rest).length :=
  Nat.lt_succ_of_le (List.dropWhile_sublist p).length_le

/-- Past the comment that begins with `c`, up to the end of its line. -/
def skipComment (s : Scanner) (c : Char) (rest : List Char) :
    Except (Located LexicalError) Scanner :=
  let next := s.past (c :: rest.takeWhile continuesComment) true
  if (rest.dropWhile continuesComment).head? = some '\t' then
    .error ⟨.tab, Location.one next.cursor⟩
  else .ok next

/-- Past the blanks and comments that are next. -/
def skipBlank (s : Scanner) : (text : List Char) → Except (Located LexicalError) (Stand text)
  | [] => .ok ⟨s, [], List.suffix_refl _⟩
  | c :: rest =>
    match CharClass.of? c with
    | some .blank => do
      let stand ← skipBlank (s.past [c] true) rest
      return stand.within (List.suffix_cons c rest)
    | some .comment => do
      let next ← s.skipComment c rest
      let stand ← skipBlank next (rest.dropWhile continuesComment)
      return stand.within ((List.dropWhile_suffix _).trans (List.suffix_cons c rest))
    | some .tab => .error ⟨.tab, Location.one s.cursor⟩
    | _ => .ok ⟨s, c :: rest, List.suffix_refl _⟩
  termination_by text => text.length
  decreasing_by
    · exact Nat.lt_succ_self _
    · exact length_dropWhile_lt continuesComment c rest

end Scanner

/-- The bracket whose group a character closes. A backtick closes one where one is open. -/
def closed? (inBackticks : Bool) (c : Char) : Option Bracket :=
  match CharClass.of? c with
  | some (.closer bracket) => some bracket
  | some (.opener .backtick) => if inBackticks then some .backtick else none
  | _ => none

end Offside
