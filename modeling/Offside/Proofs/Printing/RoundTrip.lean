import Offside.Proofs.Check.Erasure
import Offside.Proofs.Check.Stages
import Offside.Proofs.Grammar.Locations
import Offside.Proofs.Printing.Programs

/-!
# Printing and reading back

* `printed_expression_parsed`: an expression that is parsed from a source text is printed as a
  source text that is parsed to the same expression up to locations.
* `printed_type_parsed`: so is a type.
* `printed_program_compiled_iff`: a program that passes every stage is printed as a source text that
  does so too and yields the same program up to locations, exactly if no call in it is misread.
-/

namespace Offside

open Token Parse Parser Scanner

/-! ## Expressions -/

/-- Printing an expression is faithful: an expression that is parsed from the whole of a source text
is printed as a source text that is tokenized, laid out and parsed to an expression that differs in
locations only. -/
theorem printed_expression_parsed {source : String} {tokens laidOut : List Token} {e : Expr}
    (hlex : Token.ofSource source = .ok tokens) (hlayout : Layout.layout tokens = .ok laidOut)
    (hparse : parseExpression (sourceSpan source) laidOut = .ok e) :
    ∃ tokens' laidOut' e', Token.ofSource e.print = .ok tokens' ∧
      Layout.layout tokens' = .ok laidOut' ∧
      parseExpression (sourceSpan e.print) laidOut' = .ok e' ∧ e'.erase = e.erase := by
  obtain ⟨s, c, -, hfrom⟩ := expr_from_of_parseExpression (ordered_of_source hlex hlayout) hparse
  obtain ⟨ts, hfragment, htightly, -⟩ := hfrom.printable.tokens initial fun _ => rfl
  have hp : (ofTokens (sourceSpan e.print) ts).rest = ts ++ [] := (List.append_nil ts).symm
  obtain ⟨e', hread, herase⟩ := htightly.rereads.whole (Nat.le_refl (totalWeight ts))
    (show (ofTokens (sourceSpan e.print) ts).rest = ts from rfl)
  refine ⟨ts, ts, e', hfragment.piece.lexes.ofSource endsWord_nil,
    Layout.layout_flat hfragment.piece.flat, ?_, herase⟩
  have hexpr : Expr.parse 0 (ofTokens (sourceSpan e.print) ts)
      = .ok e' ((ofTokens (sourceSpan e.print) ts).passAll ts) := hread
  unfold parseExpression Parse.result
  rw [bind_eq hexpr, bind_eq (expectEnd_eq (passAll_rest hp))]
  rfl

/-- An expression with a star, an index, an operator and a negative number. -/
theorem printed_expression_parsed_signs : ∃ tokens laidOut e,
    Token.ofSource "*p[i] - -2" = .ok tokens ∧ Layout.layout tokens = .ok laidOut ∧
      parseExpression (sourceSpan "*p[i] - -2") laidOut = .ok e ∧
      ∃ tokens' laidOut' e', Token.ofSource e.print = .ok tokens' ∧
        Layout.layout tokens' = .ok laidOut' ∧
        parseExpression (sourceSpan e.print) laidOut' = .ok e' ∧ e'.erase = e.erase := by
  obtain ⟨tokens, laidOut, e, hlex, hlayout, hparse⟩ :=
    exists_parsed "*p[i] - -2" (parseExpression (sourceSpan "*p[i] - -2")) (by decide +kernel)
  exact ⟨tokens, laidOut, e, hlex, hlayout, hparse, printed_expression_parsed hlex hlayout hparse⟩

/-! ## Types -/

/-- Printing a type is faithful: a type that is parsed from the whole of a source text is printed as
a source text that is tokenized, laid out and parsed to a type that differs in locations only. -/
theorem printed_type_parsed {source : String} {tokens laidOut : List Token} {type : TypeExpr}
    (hlex : Token.ofSource source = .ok tokens) (hlayout : Layout.layout tokens = .ok laidOut)
    (hparse : parseType (sourceSpan source) laidOut = .ok type) :
    ∃ tokens' laidOut' type', Token.ofSource type.print = .ok tokens' ∧
      Layout.layout tokens' = .ok laidOut' ∧
      parseType (sourceSpan type.print) laidOut' = .ok type' ∧ type'.erase = type.erase := by
  have hfrom : type.ReadFrom laidOut :=
    type_from_of_parseType (ordered_of_source hlex hlayout) hparse
  obtain ⟨ts, hfragment, hrereads, -⟩ := hfrom.printable initial fun _ => rfl
  obtain ⟨type', hread, herase⟩ := hrereads.parseType (sourceSpan type.print)
  exact ⟨ts, ts, type', hfragment.piece.lexes.ofSource endsWord_nil,
    Layout.layout_flat hfragment.piece.flat, hread, herase⟩

/-- A type in which pointers, arrows and marks are inside one another. -/
theorem printed_type_parsed_nested : ∃ tokens laidOut type,
    Token.ofSource "*(*var (_ -> [4] Int8)) -> var (Int8,)" = .ok tokens ∧
      Layout.layout tokens = .ok laidOut ∧
      parseType (sourceSpan "*(*var (_ -> [4] Int8)) -> var (Int8,)") laidOut = .ok type ∧
      ∃ tokens' laidOut' type', Token.ofSource type.print = .ok tokens' ∧
        Layout.layout tokens' = .ok laidOut' ∧
        parseType (sourceSpan type.print) laidOut' = .ok type' ∧ type'.erase = type.erase := by
  obtain ⟨tokens, laidOut, type, hlex, hlayout, hparse⟩ :=
    exists_parsed "*(*var (_ -> [4] Int8)) -> var (Int8,)"
      (parseType (sourceSpan "*(*var (_ -> [4] Int8)) -> var (Int8,)")) (by decide +kernel)
  exact ⟨tokens, laidOut, type, hlex, hlayout, hparse, printed_type_parsed hlex hlayout hparse⟩

/-! ## Programs -/

section Programs

variable {requireMain : Bool} {source : String} {ds : List Declaration}

/-- The declarations of a source text that passes every stage are printable. -/
theorem printable_of_compile (h : Frontend.compile requireMain source = .ok ds) :
    ∀ d ∈ ds, d.Printable := by
  obtain ⟨tokens, laidOut, hlex, hlayout, hparse, -⟩ := Frontend.compile_ok_iff.1 h
  obtain ⟨b, hfrom⟩ :=
    declarations_from_of_parseDeclarations (ordered_of_source hlex hlayout) hparse
  exact hfrom.all fun _ _ hd => hd.printable

/-- A program in which no call is misread is printed as a source text that passes every stage. -/
theorem compile_printProgram (h : Frontend.compile requireMain source = .ok ds)
    (hgood : ds.any Declaration.misread = false) :
    ∃ ds', Frontend.compile requireMain (printProgram ds) = .ok ds' ∧
      ds'.map Declaration.erase = ds.map Declaration.erase := by
  obtain ⟨raw, tokens, hlex, hlayout, hparsed⟩ := printProgram_parsed (printable_of_compile h)
  have hspan := hparsed (sourceSpan (printProgram ds))
  rw [hgood] at hspan
  obtain ⟨ds', hparse, herase⟩ := hspan
  obtain ⟨-, -, -, -, -, hreturns, hentry⟩ := Frontend.compile_ok_iff.1 h
  refine ⟨ds', Frontend.compile_ok_iff.2 ⟨raw, tokens, hlex, hlayout, hparse, ?_, ?_⟩, herase⟩
  · rw [← checkReturns_erase, herase, checkReturns_erase]
    exact hreturns
  · intro hmain
    rw [← checkEntry_erase (sourceSpan source), herase, checkEntry_erase _ (sourceSpan source)]
    exact hentry hmain

/-- A program in which a call is misread is printed as a source text that is not accepted. -/
theorem compile_printProgram_misread (h : Frontend.compile requireMain source = .ok ds)
    (hbad : ds.any Declaration.misread = true) (ds' : List Declaration) :
    Frontend.compile requireMain (printProgram ds) ≠ .ok ds' := by
  intro hcompile
  obtain ⟨raw, tokens, hlex, hlayout, hparsed⟩ := printProgram_parsed (printable_of_compile h)
  obtain ⟨raw', tokens', hlex', hlayout', hparse, -⟩ := Frontend.compile_ok_iff.1 hcompile
  cases hlex.symm.trans hlex'
  cases hlayout.symm.trans hlayout'
  have hspan := hparsed (sourceSpan (printProgram ds))
  rw [hbad] at hspan
  obtain ⟨e, herror⟩ := hspan
  cases herror.symm.trans hparse

/-- A program that passes every stage is printed as a source text that does so too and yields a
program that differs in locations only, exactly if no call in it is misread. -/
theorem printed_program_compiled_iff (h : Frontend.compile requireMain source = .ok ds) :
    (∃ ds', Frontend.compile requireMain (printProgram ds) = .ok ds' ∧
        ds'.map Declaration.erase = ds.map Declaration.erase) ↔
      ds.any Declaration.misread = false := by
  constructor
  · rintro ⟨ds', hcompile, -⟩
    cases hmisread : ds.any Declaration.misread with
    | false => rfl
    | true => exact absurd hcompile (compile_printProgram_misread h hmisread ds')
  · exact compile_printProgram h

/-- A source text that passes every stage, with a property of what it yields. -/
theorem Frontend.exists_compiled {P : List Declaration → Bool}
    (h : (Frontend.compile requireMain source).toOption.any P = true) :
    ∃ ds, Frontend.compile requireMain source = .ok ds ∧ P ds = true := exists_ok_of_any h

end Programs

/-- A program with a loop and with calls of operators. -/
theorem printed_program_compiled_loop : ∃ ds,
    Frontend.compile true
        "def main(u: ()) Int32 \x7b forever \x7b (x + y) + f a \x7d \x7d" = .ok ds ∧
      ∃ ds', Frontend.compile true (printProgram ds) = .ok ds' ∧
        ds'.map Declaration.erase = ds.map Declaration.erase := by
  obtain ⟨ds, hcompile, hgood⟩ : ∃ ds, Frontend.compile true
      "def main(u: ()) Int32 \x7b forever \x7b (x + y) + f a \x7d \x7d" = .ok ds ∧
      (!ds.any Declaration.misread) = true := Frontend.exists_compiled (by decide +kernel)
  rw [Bool.not_eq_true'] at hgood
  exact ⟨ds, hcompile, (printed_program_compiled_iff hcompile).2 hgood⟩

/-- A call whose left operand is a conditional expression is printed as a text that is not read
back. -/
theorem conditional_call_misread : ∃ ds,
    Frontend.compile false
        "def f() () \x7b (if c \x7b 1 \x7d else \x7b 2 \x7d) + b; return () \x7d" = .ok ds ∧
      ¬ ∃ ds', Frontend.compile false (printProgram ds) = .ok ds' ∧
        ds'.map Declaration.erase = ds.map Declaration.erase := by
  obtain ⟨ds, hcompile, hbad⟩ : ∃ ds, Frontend.compile false
      "def f() () \x7b (if c \x7b 1 \x7d else \x7b 2 \x7d) + b; return () \x7d" = .ok ds ∧
      ds.any Declaration.misread = true := Frontend.exists_compiled (by decide +kernel)
  refine ⟨ds, hcompile, ?_⟩
  rintro ⟨ds', hprinted, -⟩
  exact compile_printProgram_misread hcompile hbad ds' hprinted

end Offside
