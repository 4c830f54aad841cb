import Mathlib
import Offside.Proofs.Grammar.Programs
import Offside.Proofs.Layout.Order
import Offside.Proofs.Token.Nesting

/-!
# Where nodes are

What the derivations say about the locations of the nodes that a source text is parsed to.

* `parsed_located`: every node of a parsed source text is located from the start of the first token
  to the end of the last token that it was parsed from and contains its parts, except that the
  application of a binary operator begins with the operator and leaves its left operand outside, and
  that a backtick call and a call as a statement begin where the expression begins that they begin
  with.
* `operator_located`: that exception is real.
-/

namespace Offside

open Token Parse Parser

/-- An action that consumes all tokens reads them. -/
theorem Parse.Reads.whole {α : Type} {action : Parse α} {R : List Token → α → Prop}
    (h : Reads [] action R) {span : Location} {ts : List Token} {a : α} (ho : Ordered ts)
    (hok : Parse.result (do let a ← action; Parse.expectEnd; return a) (ofTokens span ts) = .ok a) :
    R ts a := by
  obtain ⟨q, hok⟩ := result_ok hok
  obtain ⟨haction, hrest⟩ := whole_ok hok
  obtain ⟨used, hused, hR⟩ := h (ofTokens span ts) a _ rfl ho haction
  have hall : ts = used ++ _ := hused.1
  rw [hrest, List.append_nil] at hall
  exact hall ▸ hR

/-- A sequence reads all tokens. -/
theorem Parse.Reads.wholeSequence {α : Type} {action : Parse α} {R : List Token → α → Prop}
    (h : Reads [] action R) {span : Location} {ts : List Token} {as : List α} (ho : Ordered ts)
    (hok : (Parse.sequence action).result (ofTokens span ts) = .ok as) :
    ∃ b, Separated .semicolon R b ts as := by
  obtain ⟨q, hok⟩ := result_ok hok
  obtain ⟨⟨as, b⟩, hitems, rfl⟩ := map_ok.1 hok
  exact ⟨b, (h.items (p := ofTokens span ts) rfl ho hitems).2⟩

/-- A source text that is tokenized, laid out and parsed, as can be computed. -/
theorem exists_parsed {α : Type} (source : String)
    (parse : List Token → Except (Failure ParseError) α)
    (h : (do
      let tokens ← (Token.ofSource source).toOption
      let laidOut ← (Layout.layout tokens).toOption
      (parse laidOut).toOption).isSome = true) :
    ∃ tokens laidOut a, Token.ofSource source = .ok tokens ∧ Layout.layout tokens = .ok laidOut ∧
      parse laidOut = .ok a := by
  cases hlex : Token.ofSource source with
  | error e =>
    rw [hlex] at h
    cases h
  | ok tokens =>
    rw [hlex] at h
    cases hlayout : Layout.layout tokens with
    | error e => simp [Except.toOption, hlayout] at h
    | ok laidOut =>
      cases hparse : parse laidOut with
      | error e => simp [Except.toOption, hlayout, hparse] at h
      | ok a => exact ⟨tokens, laidOut, a, rfl, hlayout, hparse⟩

/-- The laid-out tokens of a source text are in order. -/
theorem ordered_of_source {source : String} {tokens laidOut : List Token}
    (hlex : Token.ofSource source = .ok tokens) (hlayout : Layout.layout tokens = .ok laidOut) :
    Ordered laidOut := ⟨_, _, Layout.layout_inOrder (Token.ofSource_inOrder hlex) hlayout⟩

section Whole

variable {span : Location} {ts : List Token}

theorem type_from_of_parseType {type : TypeExpr} (ho : Ordered ts)
    (h : parseType span ts = .ok type) : type.ReadFrom ts := by
  have hreads : Reads [] (TypeExpr.parse 0) TypeExpr.ReadFrom :=
    fun p type q hp ho hok => TypeExpr.grammar_reads p.weight [] 0 p type q hp ho hok
  exact hreads.whole ho h

theorem expr_from_of_parseExpression {e : Expr} (ho : Ordered ts)
    (h : parseExpression span ts = .ok e) : e.From ts := by
  have hreads : Reads [] (Expr.parse 0) Expr.From :=
    fun p e q hp ho hok => (Expr.grammar_sound p.weight).reads [] 0 p e q hp ho hok
  exact hreads.whole ho h

theorem statements_from_of_parseStatements {xs : List Statement} (ho : Ordered ts)
    (h : parseStatements span ts = .ok xs) : Statement.ListFrom [] ts xs := by
  have hreads : Reads [] (Statement.parse 0) (Statement.From []) :=
    fun p x q hp ho hok => (Statement.grammar_sound p.weight).reads
      (Statement.grammar_extend? p.weight) [] p x q hp ho hok
  obtain ⟨b, hsep⟩ := hreads.wholeSequence ho h
  exact .of_separated hsep

theorem declarations_from_of_parseDeclarations {ds : List Declaration} (ho : Ordered ts)
    (h : parseDeclarations span ts = .ok ds) :
    ∃ b, Separated .semicolon Declaration.ReadFrom b ts ds := by
  have hreads : Reads [] (Declaration.parse 0) Declaration.ReadFrom :=
    fun p d q hp ho hok => Declaration.grammar_reads p.weight 0 p d q hp ho hok
  exact hreads.wholeSequence ho h

end Whole

/-- Every node of a source text that is parsed, as a type, as an expression, as statements or as
declarations, has a derivation from the tokens of the text, which says where the node is. -/
theorem parsed_located {source : String} {tokens laidOut : List Token} (span : Location)
    (hlex : Token.ofSource source = .ok tokens) (hlayout : Layout.layout tokens = .ok laidOut) :
    (∀ type, parseType span laidOut = .ok type → type.ReadFrom laidOut) ∧
    (∀ e, parseExpression span laidOut = .ok e →
      ∃ skipped covered, laidOut = skipped ++ covered ∧ e.ReadFrom skipped covered) ∧
    (∀ xs, parseStatements span laidOut = .ok xs → Statement.ListFrom [] laidOut xs) ∧
    (∀ ds, parseDeclarations span laidOut = .ok ds →
      ∃ b, Separated .semicolon Declaration.ReadFrom b laidOut ds) := by
  have ho : Ordered laidOut := ordered_of_source hlex hlayout
  exact ⟨fun type => type_from_of_parseType ho, fun e => expr_from_of_parseExpression ho,
    fun xs => statements_from_of_parseStatements ho,
    fun ds => declarations_from_of_parseDeclarations ho⟩

/-- The statements of a text with operators, a backtick call and juxtaposed arguments. -/
theorem parsed_located_calls : ∃ tokens laidOut xs,
    Token.ofSource "f(a) + g b; c \x60h\x60 -d" = .ok tokens ∧ Layout.layout tokens = .ok laidOut ∧
      parseStatements (Location.point Cursor.origin) laidOut = .ok xs ∧
      Statement.ListFrom [] laidOut xs := by
  obtain ⟨tokens, laidOut, xs, hlex, hlayout, hparse⟩ :=
    exists_parsed "f(a) + g b; c \x60h\x60 -d" (parseStatements (Location.point Cursor.origin))
      (by decide +kernel)
  exact ⟨tokens, laidOut, xs, hlex, hlayout, hparse,
    (parsed_located _ hlex hlayout).2.2.1 xs hparse⟩

/-- The application of an operator neither spans its tokens nor contains its left operand. -/
theorem operator_located : ∃ tokens laidOut e,
    Token.ofSource "a + b" = .ok tokens ∧ Layout.layout tokens = .ok laidOut ∧
      parseExpression (sourceSpan "a + b") laidOut = .ok e ∧
      ¬ e.loc.Spans laidOut ∧ ∃ part ∈ e.parts, ¬ part.Within e.loc := by
  have hleft : (⟨1, 1⟩ : Cursor) ≤ ⟨1, 2⟩ := by decide
  have hsign : (⟨1, 3⟩ : Cursor) ≤ ⟨1, 4⟩ := by decide
  have hright : (⟨1, 5⟩ : Cursor) ≤ ⟨1, 6⟩ := by decide
  have hall : (⟨1, 3⟩ : Cursor) ≤ ⟨1, 6⟩ := by decide
  refine ⟨[.leaf .identifier "a" ⟨_, _, hleft⟩, .leaf .operator "+" ⟨_, _, hsign⟩,
      .leaf .identifier "b" ⟨_, _, hright⟩], _,
    .apply ⟨_, _, hall⟩ .curried (.ident ⟨_, _, hsign⟩ "+")
      [.ident ⟨_, _, hleft⟩ "a", .ident ⟨_, _, hright⟩ "b"],
    by rw [Token.ofSource_eq_trees]; cbv, by cbv, by cbv, ?_, ⟨_, _, hleft⟩, ?_, ?_⟩
  · rintro ⟨hstart, -⟩
    cases hstart
  · exact List.mem_cons_of_mem _ List.mem_cons_self
  · rintro ⟨hstart, -⟩
    exact absurd (show (⟨1, 3⟩ : Cursor) ≤ ⟨1, 1⟩ from hstart) (by decide)

end Offside
