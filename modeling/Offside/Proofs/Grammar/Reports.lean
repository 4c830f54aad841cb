import Offside.Grammar.Declarations
import Offside.Proofs.Grammar.Discipline
import Offside.Proofs.Grammar.Expressions

/-!
# What the grammar reports

Every form of the grammar is read steadily: whether it is there or not, the parser ends further
along in the same loops, and an error names what is expected and a token that is there.

* `TypeExpr.grammar_steady`, `Expr.grammar_steady`, `Reference.grammar_steady`,
  `Binding.grammar_steady`, `Statement.grammar_steady`, `Declaration.grammar_steady`: one level
  after another, by one lemma for each way to begin a form and to continue it.
* `parseDeclarations_names`: the errors of a whole program.
-/

namespace Offside

open Token Parse

variable {P : Token → Prop} {t : Token}

/-! ## Types -/

theorem BufferSize.read_steady : Parse.Steady P (fun _ => True) read := by
  unfold read
  refine Parse.Steady.advance.bind fun t? ht => ?_
  cases t? with
  | none => exact .pure trivial
  | some t =>
    refine .ite (fun _ => .pure trivial) fun _ => .ite (fun _ => .pure trivial) fun _ => ?_
    exact .unexpected_some (by decide) (ht t rfl)

namespace TypeExpr

variable {parts : Grammar TypeExpr}

theorem expected_phrase : Text.Phrase expected := by decide

/-- Types begin steadily. -/
theorem start_steady (h : Grammar.Steady P parts) (ht : t.Every P) :
    Parse.Steady P (fun _ => True) (start parts t) := by
  have hunexpected : Parse.Steady P (fun _ : TypeExpr => True)
      (Parse.unexpected expected (some t)) := .unexpected_some expected_phrase ht
  unfold start
  refine .ite (fun _ => .ite (fun _ => .pure trivial) fun _ => ?_) fun _ =>
    .ite (fun _ => ?_) fun _ => .ite (fun _ => ?_) fun _ => ?_
  · cases Ground.ofName? t.text with
    | none => exact hunexpected
    | some g => exact .pure trivial
  · exact (h.parse arrowPower).bind fun inner _ => .pure trivial
  · exact (h.parse arrowPower).bind fun pointee _ => .pure trivial
  · split
    · exact (Parse.Steady.within ht (.list (h.parse 0))).bind fun members _ => .pure trivial
    · refine (Parse.Steady.within ht BufferSize.read_steady).bind fun size _ => ?_
      exact (h.parse arrowPower).bind fun element _ => .pure trivial
    · exact hunexpected

/-- Types are read steadily. -/
theorem grammar_steady (level : Nat) : Grammar.Steady P (grammar level) := by
  induction level with
  | zero => exact .barren expected_phrase
  | succ level ih =>
    refine ⟨expected_phrase, fun t ht => start_steady ih ht, ?_⟩
    intro p t extension domain ht hextend
    change extend? (grammar level) t = some extension at hextend
    unfold extend? at hextend
    split at hextend
    · cases hextend
      exact (ih.parse _).bind fun codomain _ => .pure trivial
    · cases hextend

end TypeExpr

/-! ## Expressions -/

namespace Expr

variable {parts : Grammar Expr} {types : Grammar TypeExpr}

theorem expected_phrase : Text.Phrase expected := by decide

/-- The part of an expression that names no place is called by a phrase. -/
theorem expectPlace_steady (e : Expr) : Parse.Steady P (fun _ => True) e.expectPlace := by
  have hassignable : Text.Phrase "an assignable expression" := by decide
  unfold expectPlace
  split
  · exact .pure trivial
  · exact .fail ⟨hassignable, describe_phrase _⟩

theorem arguments_steady (h : Grammar.Steady P parts) :
    Parse.Steady P (fun _ => True) (arguments parts) := by
  have hbounded (bound : Nat) : Parse.Steady P (fun _ => True) (argumentsUpTo parts bound) := by
    induction bound with
    | zero => exact .pure trivial
    | succ bound ih =>
      intro p hp
      unfold argumentsUpTo
      cases hrest : p.rest with
      | nil => exact ⟨.refl p, trivial⟩
      | cons t ts =>
        dsimp only
        split
        · have ht : t.Every P := hp t (by simp [hrest])
          have hpass := Parser.Reaches.pass hrest
          have hmore := (h.continueFrom applicationPower ht).bind
            fun arg _ => ih.bind fun others _ => Parse.Steady.pure (V := fun _ => True)
              (a := arg :: others) trivial
          exact (hmore _ (hp.reaches hpass)).of_reaches hpass
        · exact ⟨.refl p, trivial⟩
  exact fun p hp => hbounded _ p hp

/-- Signs are read steadily with their operands. -/
theorem unary_steady (h : Grammar.Steady P parts) (t : Token) (sign : Reserved) :
    Parse.Steady P (fun _ => True) (unary parts t sign) := by
  unfold unary
  refine (h.parse unaryPower).bind fun operand _ => ?_
  dsimp only
  split
  · exact .pure trivial
  · exact (expectPlace_steady operand).bind fun target _ => .pure trivial
  · exact .pure trivial

/-- Conditional expressions are read steadily. -/
theorem conditional_steady (h : Grammar.Steady P parts) (t : Token) :
    Parse.Steady P (fun _ => True) (conditional parts t) := by
  unfold conditional
  refine (h.parse 0).bind fun condition _ => Parse.Steady.expectBody.bind fun yesBlock hyes => ?_
  refine (Parse.Steady.within hyes (h.parse 0)).bind fun yes _ => ?_
  refine Parse.Steady.acceptElse.bind fun else? _ => ?_
  cases else? with
  | none => exact Parse.Steady.peek.bind fun next? hnext => .unexpected (by decide) hnext
  | some _ =>
    refine Parse.Steady.expectBody.bind fun noBlock hno => ?_
    exact (Parse.Steady.within hno (h.parse 0)).bind fun no _ => .pure trivial

/-- Expressions begin steadily. -/
theorem start_steady (h : Grammar.Steady P parts) (ht : t.Every P) :
    Parse.Steady P (fun _ => True) (start parts t) := by
  have hunexpected : Parse.Steady P (fun _ : Expr => True)
      (Parse.unexpected expected (some t)) := .unexpected_some expected_phrase ht
  unfold start
  split
  · exact .pure trivial
  · exact .pure trivial
  · split
    · exact unary_steady h t .negate
    · exact unary_steady h t .valueAt
    · exact unary_steady h t .addressOf
    · exact conditional_steady h t
    · exact hunexpected
  · split
    · exact (Parse.Steady.within ht (.list (h.parse 0))).bind fun elements _ => .pure trivial
    · exact (Parse.Steady.within ht (.list (h.parse 0))).bind fun elements _ => .pure trivial
    · exact hunexpected
  · exact hunexpected

/-- Expressions are continued steadily. -/
theorem combine_steady (h : Grammar.Steady P parts) (htypes : Grammar.Steady P types)
    {p : Parser} {extension : Extension Expr} (ht : t.Every P)
    (hextend : extend? parts types p t = some extension) (form : Expr) :
    Parse.Steady P (fun _ => True) (extension.combine form) := by
  rcases extend?_cases hextend with ⟨power, -, -, rfl⟩ | ⟨-, rfl⟩ | ⟨-, rfl⟩ | ⟨-, rfl⟩ |
    ⟨-, rfl⟩ | rfl
  · exact (h.parse power).bind fun right _ => .pure trivial
  · exact (htypes.parse 0).bind fun type _ => .pure trivial
  · refine (Parse.Steady.within ht (h.parse 0)).bind fun function _ => ?_
    exact (h.parse backtickPower).bind fun right _ => .pure trivial
  · exact (Parse.Steady.within ht (h.parse 0)).bind fun offset _ => .pure trivial
  · exact (Parse.Steady.within ht (.list (h.parse 0))).bind fun args _ => .pure trivial
  · refine (h.continueFrom applicationPower ht).bind fun first _ => ?_
    exact (arguments_steady h).bind fun others _ => .pure trivial

/-- Expressions are read steadily. -/
theorem grammar_steady (level : Nat) : Grammar.Steady P (grammar level) := by
  induction level with
  | zero => exact .barren expected_phrase
  | succ level ih =>
    exact ⟨expected_phrase, fun t ht => start_steady ih ht, fun p t extension form ht hextend =>
      combine_steady ih (TypeExpr.grammar_steady (level + 1)) ht hextend form⟩

end Expr

/-! ## Introduced names -/

/-- Introduced names are read steadily. -/
theorem Reference.grammar_steady (level : Nat) : Grammar.Steady P (Reference.grammar level) := by
  have hexpected : Text.Phrase Reference.expected := by decide
  refine ⟨hexpected, fun t ht => ?_, fun p t extension r ht hextend => ?_⟩
  · show Parse.Steady P (fun _ => True) (Reference.start t)
    unfold start
    refine .ite (fun _ => .pure trivial) fun _ => .ite (fun _ => ?_) fun _ => ?_
    · exact (Parse.Steady.expect hexpected _).bind fun name _ => .pure trivial
    · exact .unexpected_some hexpected ht
  · change Reference.extend? (TypeExpr.grammar level) t = some extension at hextend
    unfold extend? at hextend
    split at hextend
    · cases hextend
      exact ((TypeExpr.grammar_steady level).parse 0).bind fun type _ => .pure trivial
    · cases hextend

namespace Binding

/-- Bindings are read steadily. -/
theorem grammar_steady (level : Nat) : Grammar.Steady P (Binding.grammar level) := by
  have hreferences : Grammar.Steady P (Reference.grammar level) := Reference.grammar_steady level
  have hexpected : Text.Phrase expected := by decide
  refine ⟨hexpected, fun t ht => ?_, fun _ _ _ _ _ hextend => nomatch hextend⟩
  show Parse.Steady P (fun _ => True)
    (Binding.start (Reference.grammar level) (Expr.grammar level) t)
  unfold start
  refine (hreferences.continueFrom 0 ht).bind fun name _ => ?_
  refine (Parse.Steady.afterCommas (hreferences.parse 0)).bind fun names _ => ?_
  refine (Parse.Steady.expect (by decide) _).bind fun _ _ => ?_
  exact ((Expr.grammar_steady level).parse 0).bind fun value _ => .pure trivial

theorem parseAll_steady {bindings : Grammar Binding} (h : Grammar.Steady P bindings) :
    Parse.Steady P (fun _ => True) (parseAll bindings) := by
  unfold parseAll
  refine (h.parse 0).bind fun first _ => ?_
  exact (Parse.Steady.afterCommas (h.parse 0)).bind fun others _ => .pure trivial

end Binding

/-! ## Statements -/

namespace Statement

variable {parts : Grammar Statement} {bindings : Grammar Binding} {values : Grammar Expr}

theorem expected_phrase : Text.Phrase expected := by decide

theorem body_steady (h : Grammar.Steady P parts) (ht : t.Every P) :
    Parse.Steady P (fun _ => True) (body parts t) :=
  .within ht (.sequence (h.parse 0))

/-- Conditional statements are read steadily. -/
theorem conditional_steady (h : Grammar.Steady P parts) (hvalues : Grammar.Steady P values)
    (t : Token) : Parse.Steady P (fun _ => True) (conditional parts values t) := by
  unfold conditional
  refine (hvalues.parse 0).bind fun condition _ => ?_
  refine Parse.Steady.expectBody.bind fun yesBlock hyes => (body_steady h hyes).bind fun yes _ => ?_
  refine Parse.Steady.acceptElse.bind fun else? _ => ?_
  cases else? with
  | none => exact .pure trivial
  | some _ =>
    refine (Parse.Steady.accept _).bind fun chained? hchained => ?_
    cases chained? with
    | some chained => exact (h.start chained (hchained chained rfl)).bind fun no _ => .pure trivial
    | none =>
      refine Parse.Steady.expectBody.bind fun noBlock hno => ?_
      exact (body_steady h hno).bind fun no _ => .pure trivial

/-- Loops are read steadily. -/
theorem loop_steady (h : Grammar.Steady P parts) (t : Token) :
    Parse.Steady P (fun _ => True) (loop parts t) := by
  unfold loop
  refine (Parse.Steady.accept _).bind fun label? _ => ?_
  refine Parse.Steady.expectBody.bind fun block hblock => ?_
  exact (Parse.Steady.insideLoop (body_steady h hblock)).bind fun inner _ => .pure trivial

/-- Breaks are read steadily. -/
theorem leaveLoop_steady (ht : t.Every P) : Parse.Steady P (fun _ => True) (leaveLoop t) := by
  unfold leaveLoop
  refine (Parse.Steady.accept _).bind fun label? hlabel => ?_
  cases label? with
  | none =>
    refine .get_bind fun p hp => ?_
    cases p.loopDepth? none with
    | some depth => exact ⟨.refl p, trivial⟩
    | none => exact Parse.Steady.unexpected_some (by decide) ht p hp
  | some label =>
    refine .get_bind fun p hp => ?_
    cases p.loopDepth? (some label.text) with
    | some depth => exact ⟨.refl p, trivial⟩
    | none => exact Parse.Steady.unexpected_some (by decide) (hlabel label rfl) p hp

/-- An expression that is no application is called by a phrase. -/
theorem ofApplication_steady (e : Expr) : Parse.Steady P (fun _ => True) (ofApplication e) := by
  have hcall : Text.Phrase "a function call" := by decide
  unfold ofApplication
  split
  · exact .pure trivial
  · exact .fail ⟨hcall, Expr.describe_phrase _⟩

/-- Assignments and calls are read steadily. -/
theorem assignmentOrCall_steady (hvalues : Grammar.Steady P values) (ht : t.Every P) :
    Parse.Steady P (fun _ => True) (assignmentOrCall values t) := by
  unfold assignmentOrCall
  refine (hvalues.continueFrom 0 ht).bind fun e _ => ?_
  refine (Parse.Steady.accept _).bind fun equals? _ => ?_
  cases equals? with
  | some _ =>
    refine (hvalues.parse 0).bind fun value _ => ?_
    exact (Expr.expectPlace_steady e).bind fun target _ => .pure trivial
  | none =>
    refine Parse.Steady.peek.bind fun next? hnext => ?_
    cases next? with
    | none => exact ofApplication_steady e
    | some next =>
      exact .ite (fun _ => ofApplication_steady e)
        fun _ => .unexpected_some (by decide) (hnext next rfl)

/-- Statements begin steadily. -/
theorem start_steady (h : Grammar.Steady P parts) (hbindings : Grammar.Steady P bindings)
    (hvalues : Grammar.Steady P values) (ht : t.Every P) :
    Parse.Steady P (fun _ => True) (start parts bindings values t) := by
  have hsimple : Parse.Steady P (fun _ => True) (simple parts values t) := by
    unfold simple
    refine .ite (fun _ => ?_) fun _ => assignmentOrCall_steady hvalues ht
    exact (body_steady h ht).bind fun inner _ => .pure trivial
  unfold start
  split
  · exact conditional_steady h hvalues t
  · exact loop_steady h t
  · exact leaveLoop_steady ht
  · exact (Binding.parseAll_steady hbindings).bind fun all _ => .pure trivial
  · exact (hvalues.parse 0).bind fun value _ => .pure trivial
  · exact hsimple
  · exact hsimple
  · exact hsimple
  · exact hsimple
  · exact .unexpected_some expected_phrase ht

/-- Statements are read steadily. -/
theorem grammar_steady (level : Nat) : Grammar.Steady P (grammar level) := by
  induction level with
  | zero => exact .barren expected_phrase
  | succ level ih =>
    exact ⟨expected_phrase, fun t ht => start_steady ih (Binding.grammar_steady (level + 1))
      (Expr.grammar_steady (level + 1)) ht, fun _ _ _ _ _ hextend => nomatch hextend⟩

end Statement

/-! ## Declarations -/

/-- Declarations are read steadily. -/
theorem Declaration.grammar_steady (level : Nat) :
    Grammar.Steady P (Declaration.grammar level) := by
  have hexpected : Text.Phrase Declaration.expected := by decide
  refine ⟨hexpected, fun t ht => ?_, fun _ _ _ _ _ hextend => nomatch hextend⟩
  show Parse.Steady P (fun _ => True) (Declaration.start level t)
  unfold start
  split
  · unfold functionRest
    refine (Parse.Steady.expect (by decide) _).bind fun name _ => ?_
    refine (Parse.Steady.expect (by decide) _).bind fun list hlist => ?_
    refine (Parse.Steady.within hlist
      (.list ((Reference.grammar_steady level).parse 0))).bind fun params _ => ?_
    refine ((TypeExpr.grammar_steady level).parse 0).bind fun result _ => ?_
    refine Parse.Steady.expectBody.bind fun block hblock => ?_
    exact (Statement.body_steady (Statement.grammar_steady level) hblock).bind
      fun body _ => .pure trivial
  · exact (Binding.parseAll_steady (Binding.grammar_steady level)).bind fun all _ => .pure trivial
  · exact .unexpected_some hexpected ht

/-! ## Whole inputs -/

/-- The failures of a steady action on whole inputs name what is in the input. -/
theorem Parse.Steady.result_error {α : Type} {V : α → Prop} {x : Parse α} (h : Steady P V x)
    {span : Location} {ts : List Token} (hts : ∀ t ∈ ts, t.Every P) {failure : Failure ParseError}
    (herror : x.result (Parser.ofTokens span ts) = .error failure) : failure.Names P := by
  have hends := h (Parser.ofTokens span ts) hts
  unfold Parse.result at herror
  revert hends
  cases hx : x (Parser.ofTokens span ts) with
  | ok a q =>
    rw [hx] at herror
    cases herror
  | error e q =>
    rw [hx] at herror
    cases herror
    exact fun hends => hends.2

/-- The errors of the parser name what is in the program. -/
theorem parseDeclarations_names {span : Location} {ts : List Token} (hts : ∀ t ∈ ts, t.Every P)
    {failure : Failure ParseError} (h : parseDeclarations span ts = .error failure) :
    failure.Names P :=
  (Parse.Steady.sequence (Grammar.Steady.atWeight Declaration.grammar_steady 0)).result_error hts h

end Offside
