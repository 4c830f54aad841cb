import Offside.Check.Violation
import Offside.Grammar.ParseError
import Offside.Proofs.Diagnostic.Reading
import Offside.Syntax.Expr
import Offside.Token.LexicalError

/-!
# Messages can be read back

No message can be mistaken for the middle part of a diagnostic, whatever it takes from the source.

* `Text.Unspaced`: a text without spaces and line feeds, as all tokens have.
* `Text.Phrase`: words that can stand in a message. `Text.Legible`: a message that is read back.
* `LexicalError.message_legible`, `Violation.message_legible`: the messages of the lexer, of layout
  and of the checks.
* `ParseError.Sayable`: an error of the parser that is made of phrases and texts of tokens.
  `ParseError.message_legible`: its message.
* `Diagnostic.reread`: a diagnostic with a legible message is read back from both forms.
-/

namespace Offside

namespace Text

/-! ## Phrases -/

/-- A text without spaces and line feeds. -/
structure Unspaced (text : String) : Prop where
  space : ' ' ∉ text.toList
  line : '\n' ∉ text.toList

/-- Words on one line that stand in a message after a space. -/
structure Phrase (text : String) : Prop where
  quiet : quiet (' ' :: text.toList) = true
  line : '\n' ∉ text.toList

instance (text : String) : Decidable (Phrase text) :=
  decidable_of_iff (Text.quiet (' ' :: text.toList) = true ∧ '\n' ∉ text.toList)
    ⟨fun h => ⟨h.1, h.2⟩, fun h => ⟨h.quiet, h.line⟩⟩

/-- A phrase with a text right after it that has no spaces. -/
theorem Phrase.append {a b : String} (ha : Phrase a) (hb : Unspaced b) : Phrase (a ++ b) := by
  refine ⟨?_, ?_⟩
  · rw [String.toList_append, ← List.cons_append]
    exact quiet_append ha.quiet (quiet_of_notMem hb.space)
  · rw [String.toList_append, List.mem_append, not_or]
    exact ⟨ha.line, hb.line⟩

/-- One phrase after another, with a space between them. -/
theorem Phrase.then {a b : String} (ha : Phrase a) (hb : Phrase b) : Phrase (a ++ " " ++ b) := by
  have htext : (a ++ " " ++ b).toList = a.toList ++ ' ' :: b.toList := by
    simp [String.toList_append]
  refine ⟨?_, ?_⟩
  · rw [htext, ← List.cons_append]
    exact quiet_append ha.quiet hb.quiet
  · rw [htext, List.mem_append, List.mem_cons, not_or, not_or]
    exact ⟨ha.line, by decide, hb.line⟩

/-- A message that can be read back in both forms of a diagnostic. -/
structure Legible (message : String) : Prop where
  tidy : Tidy message.toList
  clear : Clear (' ' :: message.toList)

/-- A phrase that ends in a full stop is legible. -/
theorem Phrase.legible {text : String} (h : Phrase text)
    (hend : text.toList.getLast? = some '.') : Legible text :=
  ⟨⟨h.line, '.', hend, by decide⟩, .of_quiet h.quiet⟩

/-- A sentence that is given by its characters is legible, as can be computed. -/
theorem Legible.ofList {text : List Char} (hquiet : Text.quiet (' ' :: text) = true)
    (hend : text.getLast? = some '.') (hline : text.contains '\n' = false) :
    Legible (String.ofList text) := by
  have hchars : (String.ofList text).toList = text := String.toList_ofList
  refine Phrase.legible ⟨?_, ?_⟩ ?_
  · rwa [hchars]
  · rw [hchars]
    simpa using hline
  · rwa [hchars]

end Text

open Text

/-- A diagnostic with a legible message is read back from both forms. -/
theorem Diagnostic.reread {d : Diagnostic} (hloc : d.loc.Bounded) (h : Legible d.message) :
    ofHuman d.human = .ok d ∧ ofMachine d.phase d.machine = .ok d :=
  ⟨ofHuman_human hloc h.tidy h.clear, ofMachine_machine hloc h.tidy⟩

/-! ## Errors of the lexer, of layout and of the checks -/

/-- The message about a character that ends no line is legible, and so are the other messages. -/
theorem LexicalError.message_legible {e : LexicalError} (h : e ≠ .unrecognized '\n') :
    Legible e.message := by
  cases e with
  | unrecognized c =>
    have hline : '\n' ≠ c := fun hc => h (hc ▸ rfl)
    have htext : (message (.unrecognized c)).toList
        = "Unrecognized token".toList ++ [' ', c, '.'] := by
      have hfirst : "Unrecognized token ".toList = "Unrecognized token".toList ++ [' '] := by decide
      have hstop : ".".toList = ['.'] := by decide
      show ("Unrecognized token " ++ c.toString ++ ".").toList = _
      simp only [String.toList_append, Char.toString_eq_singleton, String.toList_singleton,
        hfirst, hstop, List.append_assoc, List.cons_append, List.nil_append]
    have hword : Text.quiet (' ' :: "Unrecognized token".toList) = true := by decide
    -- the character can be a space, or the first letter of the middle part
    have hclash : Text.quiet [' ', c, '.'] = true := by simp [Text.quiet, headerStart, clashes]
    refine Phrase.legible ⟨?_, ?_⟩ ?_
    · rw [htext, ← List.cons_append]
      exact quiet_append hword hclash
    · rw [htext, List.mem_append, not_or]
      exact ⟨by decide, by simp [hline]⟩
    · rw [htext, List.getLast?_append]
      rfl
  | unclosed bracket => cases bracket <;> exact Phrase.legible (by decide) (by decide)
  | unmatched bracket => cases bracket <;> exact Phrase.legible (by decide) (by decide)
  | dedentedBrace => exact Phrase.legible (by decide) (by decide)
  | tab | cutOffBrace | dedentedLine | dedentedCloser =>
    exact Legible.ofList (by decide) (by decide) (by decide)

/-- The messages of the checks are legible. -/
theorem Violation.message_legible (v : Violation) : Legible v.message := by
  cases v <;> exact Legible.ofList (by decide) (by decide) (by decide)

/-! ## Errors of the parser -/

/-- What an expression is called in messages is a phrase. -/
theorem Expr.describe_phrase (e : Expr) : Phrase e.describe := by
  cases e <;> (rw [describe]; decide)

/-- What was found is a token with a text without spaces, a phrase, or an end. -/
def Found.Sayable : Found → Prop
  | token _ text => Unspaced text
  | expression description => Phrase description
  | ending _ => True

/-- What was expected is a phrase, and what was found can be said. -/
structure ParseError.Sayable (e : ParseError) : Prop where
  expected : Phrase e.expected
  found : e.found.Sayable

/-- What was found is said in a phrase. -/
theorem Found.message_phrase {found : Found} (h : found.Sayable) : Phrase found.message := by
  cases found with
  | token kind text =>
    have hkind : Phrase ("found the " ++ kind.describe ++ " \"") := by cases kind <;> decide
    exact (hkind.append h).append ⟨by decide, by decide⟩
  | expression description =>
    have hfound : Phrase "found" := by decide
    exact hfound.then h
  | ending e => cases e <;> decide

/-- The messages of the parser are legible. -/
theorem ParseError.message_legible {e : ParseError} (h : e.Sayable) : Legible e.message := by
  have hbegin : Phrase "The parser expected" := by decide
  have hbut : Phrase "but" := by decide
  have hphrase : Phrase ("The parser expected" ++ " " ++ e.expected
      ++ " " ++ ("but" ++ " " ++ e.found.message)) :=
    (hbegin.then h.expected).then (hbut.then (Found.message_phrase h.found))
  have hmessage : e.message = "The parser expected" ++ " " ++ e.expected
      ++ " " ++ ("but" ++ " " ++ e.found.message) ++ "." := by
    have hfirst : "The parser expected " = "The parser expected" ++ " " := by decide
    have hthen : " but " = " " ++ ("but" ++ " ") := by decide
    show "The parser expected " ++ e.expected ++ " but " ++ e.found.message ++ "." = _
    simp only [hfirst, hthen, String.append_assoc]
  rw [hmessage]
  refine Phrase.legible (hphrase.append ⟨by decide, by decide⟩) ?_
  rw [String.toList_append, List.getLast?_append]
  rfl

end Offside
