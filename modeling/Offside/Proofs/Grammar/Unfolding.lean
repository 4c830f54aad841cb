import Offside.Grammar.Declarations
import Offside.Proofs.Grammar.Agreement

/-!
# How deep the grammars are unfolded

The grammars refer to one another. Each of their forms consumes a token before it reads a part, so a
grammar that is unfolded once more agrees with itself one token further. As many unfoldings as there
are tokens are therefore enough, whatever stands below them.

* `Grammar.Alike`: grammars whose forms are begun and continued alike up to some number of tokens.
  `Grammar.Alike.parse`: they are read alike.
* `Grammar.extendTurn`: one turn of the loop that continues a form. `Grammar.extend_settle`,
  `Expr.arguments_settle`: these loops end before their turns do.
* `TypeExpr.grammarOn`, `Expr.grammarOn`, ...: the grammars, given those that they refer to.
* `Grammars`: grammars for the three categories whose forms nest; `Grammars.nest`: these grammars
  unfolded once. `Grammars.Alike.nest`: they then agree one token further.
* `Grammars.nest_settles`: as many unfoldings as tokens are enough.
-/

namespace Offside

open Token Parse

/-! ## Grammars that agree -/

section Agreement

variable {α : Type} {n : Nat} {g h : Grammar α}

/-- Two ways to continue a form that bind equally tight and agree at a parser. -/
structure Extension.Alike (q : Parser) (e f : Extension α) : Prop where
  power : e.power = f.power
  combine : ∀ form, AlikeAt q (e.combine form) (f.combine form)

namespace Grammar

/-- Grammars with the same name whose forms are begun alike where at most `n` tokens are ahead, and
continued alike where there are fewer, as there are after the first token of a form. -/
structure Alike (n : Nat) (g h : Grammar α) : Prop where
  expected : g.expected = h.expected
  start : ∀ t p, p.Past n t → AlikeAt p (g.start t) (h.start t)
  extend : ∀ p t ts, p.Below n → p.rest = t :: ts →
    Option.Rel (Extension.Alike (p.pass t)) (g.extend? p t) (h.extend? p t)

/-- Grammars that call their forms alike are alike where there are no tokens. -/
theorem Alike.of_expected (heq : g.expected = h.expected) : Alike 0 g h where
  expected := heq
  start _ _ hp := absurd hp.below.weight (Nat.not_lt_zero _)
  extend _ _ _ hp := absurd hp.weight (Nat.not_lt_zero _)

/-- The grammar without forms reports the same everywhere. -/
theorem Alike.barren (expected : String) : Alike n (barren expected : Grammar α) (barren expected)
    where
  expected := rfl
  start _ p _ := .error (.refl p)
  extend _ _ _ _ _ := .none

theorem Alike.mono {m : Nat} (halike : Alike n g h) (hm : m ≤ n) : Alike m g h where
  expected := halike.expected
  start t p hp := halike.start t p ⟨hp.token, hp.columned, Nat.le_trans hp.weight hm⟩
  extend p t ts hp := halike.extend p t ts (hp.mono hm)

/-! ### The loop that continues a form -/

/-- Continuations that agree for every form where at most `k` trees are ahead. -/
def AlikeAfter (n k : Nat) (others others' : α → Parse α) : Prop :=
  ∀ form, AlikeWithin n k (others form) (others' form)

/-- One turn of the loop that continues a form. -/
def extendTurn (g : Grammar α) (power : Nat) (others : α → Parse α) (form : α) : Parse α :=
  fun p =>
    match p.rest with
    | [] => .ok form p
    | t :: _ =>
      match g.extend? p t with
      | none => .ok form p
      | some extension =>
        if power < extension.power then (extension.combine form >>= others) (p.pass t)
        else .ok form p

theorem extendUpTo_eq_iterate (g : Grammar α) (power bound : Nat) :
    g.extendUpTo power bound = (g.extendTurn power)^[bound] pure :=
  eq_iterate (g.extendUpTo power) (g.extendTurn power) (fun _ => rfl) bound

/-- A turn agrees one tree further than the turns after it: it consumes a token before them. -/
theorem extendTurn_alike (halike : Alike n g h) (power k : Nat) (others others' : α → Parse α)
    (hothers : AlikeAfter n k others others') :
    AlikeAfter n (k + 1) (g.extendTurn power others) (h.extendTurn power others') := by
  intro form p hp hk
  unfold AlikeAt extendTurn
  cases hrest : p.rest with
  | nil => exact .ok (.refl p) trivial
  | cons t ts =>
    have hpass := Parser.Reaches.pass hrest
    have hextend := halike.extend p t ts hp hrest
    dsimp only
    revert hextend
    generalize g.extend? p t = e?
    generalize h.extend? p t = f?
    intro hextend
    cases hextend with
    | none => exact .ok (.refl p) trivial
    | some hext =>
      dsimp only
      rw [hext.power]
      split
      · refine ((hext.combine form).bind fun form' q hq _ => ?_).of_reaches hpass
        have hfewer := Nat.lt_of_lt_of_le (hq.length_lt hrest) hk
        exact hothers form' q ((hp.reaches hpass).reaches hq) (Nat.le_of_lt_succ hfewer)
      · exact .ok (.refl p) trivial

theorem Alike.extendUpTo (halike : Alike n g h) (power k : Nat) (form : α) :
    AlikeWithin n k (g.extendUpTo power k form) (h.extendUpTo power k form) := by
  rw [extendUpTo_eq_iterate, extendUpTo_eq_iterate]
  have hpure : AlikeAfter n 0 (pure : α → Parse α) pure := fun _ p _ _ => .ok (.refl p) trivial
  exact iterate_agree (extendTurn_alike halike power) hpure k form

/-- The loop that continues a form ends before more turns than there are trees ahead do, whatever
stands below them. -/
theorem extend_settle (halike : Alike n g g) {p : Parser} (hp : p.Below n) (power : Nat)
    {turns : Nat} (hturns : p.rest.length < turns) (below : α → Parse α) (form : α) :
    (g.extendTurn power)^[turns] below form p = g.extendUpTo power p.rest.length form p := by
  have hnone (below : α → Parse α) : AlikeAfter n 0 pure (g.extendTurn power below) := by
    intro form q _ hq
    have hdone : g.extendTurn power below form q = .ok form q := by
      rw [extendTurn, List.length_eq_zero_iff.1 (Nat.le_zero.1 hq)]
    rw [AlikeAt, hdone]
    exact .ok (.refl q) trivial
  rw [extendUpTo_eq_iterate]
  have hsettles := iterate_settles (extendTurn_alike halike power) hnone hturns below
  exact (hsettles form p hp (Nat.le_refl _)).eq.symm

/-! ### Forms -/

/-- A form whose first token has been consumed is read alike. -/
theorem Alike.continueFrom (halike : Alike n g h) (power : Nat) {t : Token} {p : Parser}
    (hp : p.Past n t) : AlikeAt p (g.continueFrom power t) (h.continueFrom power t) := by
  unfold Grammar.continueFrom
  refine (halike.start t p hp).bind fun form q hq _ => ?_
  exact halike.extendUpTo power _ form q (hp.below.reaches hq) (Nat.le_refl _)

/-- Forms are read alike. -/
theorem Alike.parse (halike : Alike n g h) (power : Nat) :
    Parse.Alike (n + 1) (fun _ => True) (g.parse power) (h.parse power) := by
  intro p hp
  unfold Grammar.parse
  rw [halike.expected]
  exact (expectToken_coincide hp).bind fun t q _ ht => halike.continueFrom power ht

end Grammar

end Agreement

/-! ## Types -/

variable {n : Nat} {t : Token}

theorem BufferSize.read_alike : Parse.Alike n (fun _ => True) read read := by
  unfold read
  refine Parse.Alike.advance.bind fun t? _ => ?_
  cases t? with
  | none => exact .pure trivial
  | some t =>
    exact .ite (fun _ => .pure trivial) fun _ => .ite (fun _ => .pure trivial) fun _ => .unexpected

namespace TypeExpr

variable {parts parts' : Grammar TypeExpr}

/-- The grammar of types, given how to read their parts. -/
def grammarOn (parts : Grammar TypeExpr) : Grammar TypeExpr where
  expected := expected
  start t := start parts t
  extend? _ t := extend? parts t

/-- Types whose parts are read alike begin alike. -/
theorem start_alike (h : Grammar.Alike n parts parts') (ht : t.Below (n + 1)) :
    Parse.Alike (n + 1) (fun _ => True) (start parts t) (start parts' t) := by
  unfold start
  refine .ite (fun _ => .ite (fun _ => .pure trivial) fun _ => ?_) fun _ =>
    .ite (fun _ => ?_) fun _ => .ite (fun _ => ?_) fun _ => ?_
  · cases Ground.ofName? t.text with
    | none => exact .unexpected
    | some g => exact .pure trivial
  · exact (h.parse arrowPower).bind fun inner _ => .pure trivial
  · exact (h.parse arrowPower).bind fun pointee _ => .pure trivial
  · split
    · exact (Parse.Alike.within ht (.list (h.parse 0))).bind fun members _ => .pure trivial
    · refine (Parse.Alike.within ht BufferSize.read_alike).bind fun size _ => ?_
      exact (h.parse arrowPower).bind fun element _ => .pure trivial
    · exact .unexpected

theorem grammarOn_alike (h : Grammar.Alike n parts parts') :
    Grammar.Alike (n + 1) (grammarOn parts) (grammarOn parts') where
  expected := rfl
  start _ p hp := start_alike h hp.interior p hp.below
  extend p t ts hp hrest := by
    have hpass := hp.reaches (.pass hrest)
    show Option.Rel _ (extend? parts t) (extend? parts' t)
    unfold extend?
    split
    · exact .some ⟨rfl, fun domain =>
        ((h.parse _).bind fun codomain _ => .pure trivial) _ hpass⟩
    · exact .none

end TypeExpr

/-! ## Expressions -/

namespace Expr

variable {parts parts' : Grammar Expr} {types types' : Grammar TypeExpr}

/-- The grammar of expressions, given how to read their parts and types. -/
def grammarOn (parts : Grammar Expr) (types : Grammar TypeExpr) : Grammar Expr where
  expected := expected
  start t := start parts t
  extend? p t := extend? parts types p t

theorem expectPlace_alike (e : Expr) :
    Parse.Alike n (fun _ => True) e.expectPlace e.expectPlace := by
  unfold expectPlace
  split
  · exact .pure trivial
  · exact .fail

/-! ### Juxtaposed arguments -/

/-- One turn of the loop over juxtaposed arguments. -/
def argumentsTurn (parts : Grammar Expr) (others : Parse (List Expr)) : Parse (List Expr) :=
  fun p =>
    match p.rest with
    | [] => .ok [] p
    | t :: _ =>
      if beginsArgument p t then
        (do
          let arg ← parts.continueFrom applicationPower t
          let args ← others
          return arg :: args : Parse (List Expr)) (p.pass t)
      else .ok [] p

theorem argumentsUpTo_eq_iterate (parts : Grammar Expr) (bound : Nat) :
    argumentsUpTo parts bound = (argumentsTurn parts)^[bound] (pure []) :=
  eq_iterate (argumentsUpTo parts) (argumentsTurn parts) (fun _ => rfl) bound

/-- A turn agrees one tree further than the turns after it: it consumes a token before them. -/
theorem argumentsTurn_alike (h : Grammar.Alike n parts parts') (k : Nat)
    (others others' : Parse (List Expr)) (hothers : AlikeWithin (n + 1) k others others') :
    AlikeWithin (n + 1) (k + 1) (argumentsTurn parts others) (argumentsTurn parts' others') := by
  intro p hp hk
  unfold AlikeAt argumentsTurn
  cases hrest : p.rest with
  | nil => exact .ok (.refl p) trivial
  | cons t ts =>
    have hpass := Parser.Reaches.pass hrest
    dsimp only
    split
    · refine ((h.continueFrom _ (hp.pass hrest)).bind fun arg q hq _ => ?_).of_reaches hpass
      have hfewer := Nat.lt_of_lt_of_le (hq.length_lt hrest) hk
      have hbelow := (hp.reaches hpass).reaches hq
      exact (hothers q hbelow (Nat.le_of_lt_succ hfewer)).bind
        fun args r _ _ => .ok (.refl r) trivial
    · exact .ok (.refl p) trivial

theorem arguments_alike (h : Grammar.Alike n parts parts') :
    Parse.Alike (n + 1) (fun _ => True) (arguments parts) (arguments parts') := by
  unfold arguments
  simp only [argumentsUpTo_eq_iterate]
  exact AlikeWithin.turns (argumentsTurn_alike h) []

/-- The loop over juxtaposed arguments ends by itself. -/
theorem arguments_settle (h : Grammar.Alike n parts parts) {p : Parser} (hp : p.Below (n + 1))
    {turns : Nat} (hturns : p.rest.length < turns) (below : Parse (List Expr)) :
    (argumentsTurn parts)^[turns] below p = arguments parts p := by
  unfold arguments
  rw [argumentsUpTo_eq_iterate]
  refine AlikeWithin.settle (argumentsTurn_alike h) (fun below q hq => ?_) hp hturns below
  rw [argumentsTurn, hq]

/-! ### Forms by their first token -/

/-- Signs are read alike with their operands. -/
theorem unary_alike (h : Grammar.Alike n parts parts') (t : Token) (sign : Reserved) :
    Parse.Alike (n + 1) (fun _ => True) (unary parts t sign) (unary parts' t sign) := by
  unfold unary
  refine (h.parse unaryPower).bind fun operand _ => ?_
  dsimp only
  split
  · exact .pure trivial
  · exact (expectPlace_alike operand).bind fun target _ => .pure trivial
  · exact .pure trivial

/-- Conditional expressions are read alike. -/
theorem conditional_alike (h : Grammar.Alike n parts parts') (t : Token) :
    Parse.Alike (n + 1) (fun _ => True) (conditional parts t) (conditional parts' t) := by
  unfold conditional
  refine (h.parse 0).bind fun condition _ => Parse.Alike.expectBody.bind fun yesBlock hyes => ?_
  refine (Parse.Alike.within hyes (h.parse 0)).bind fun yes _ => ?_
  refine Parse.Alike.acceptElse.bind fun else? _ => ?_
  cases else? with
  | none => exact Parse.Alike.peek.bind fun next? _ => .unexpected
  | some _ =>
    refine Parse.Alike.expectBody.bind fun noBlock hno => ?_
    exact (Parse.Alike.within hno (h.parse 0)).bind fun no _ => .pure trivial

/-- Expressions whose parts are read alike begin alike. -/
theorem start_alike (h : Grammar.Alike n parts parts') (ht : t.Below (n + 1)) :
    Parse.Alike (n + 1) (fun _ => True) (start parts t) (start parts' t) := by
  unfold start
  split
  · exact .pure trivial
  · exact .pure trivial
  · split
    · exact unary_alike h t .negate
    · exact unary_alike h t .valueAt
    · exact unary_alike h t .addressOf
    · exact conditional_alike h t
    · exact .unexpected
  · split
    · exact (Parse.Alike.within ht (.list (h.parse 0))).bind fun elements _ => .pure trivial
    · exact (Parse.Alike.within ht (.list (h.parse 0))).bind fun elements _ => .pure trivial
    · exact .unexpected
  · exact .unexpected

/-! ### Forms by the token that continues them -/

section Continuations

variable {q : Parser}

theorem infixCall_alike (h : Grammar.Alike n parts parts') (hq : q.Past n t) (power : Nat) :
    Extension.Alike q (infixCall parts t power) (infixCall parts' t power) := by
  refine ⟨rfl, fun left => ?_⟩
  have hright := h.parse power q (hq.below.mono n.le_succ)
  exact hright.bind fun right r _ _ => .ok (.refl r) trivial

theorem ascription_alike (h : Grammar.Alike n types types') (hq : q.Past n t) :
    Extension.Alike q (ascription types) (ascription types') := by
  refine ⟨rfl, fun value => ?_⟩
  have htype := h.parse 0 q (hq.below.mono n.le_succ)
  exact htype.bind fun type r _ _ => .ok (.refl r) trivial

theorem backtickCall_alike (h : Grammar.Alike n parts parts') (hq : q.Past n t) :
    Extension.Alike q (backtickCall parts t) (backtickCall parts' t) := by
  refine ⟨rfl, fun left => ?_⟩
  have hfunction := Parse.Alike.within hq.interior ((h.parse 0).mono n.le_succ) q hq.below
  refine hfunction.bind fun function r hr _ => ?_
  have hright := h.parse backtickPower r ((hq.below.reaches hr).mono n.le_succ)
  exact hright.bind fun right r' _ _ => .ok (.refl r') trivial

theorem indexing_alike (h : Grammar.Alike n parts parts') (hq : q.Past n t) :
    Extension.Alike q (indexing parts t) (indexing parts' t) := by
  refine ⟨rfl, fun base => ?_⟩
  have hoffset := Parse.Alike.within hq.interior ((h.parse 0).mono n.le_succ) q hq.below
  exact hoffset.bind fun offset r _ _ => .ok (.refl r) trivial

theorem listCall_alike (h : Grammar.Alike n parts parts') (hq : q.Past n t) :
    Extension.Alike q (listCall parts t) (listCall parts' t) := by
  refine ⟨rfl, fun function => ?_⟩
  have hlist := (Parse.Alike.list (h.parse 0)).mono n.le_succ
  have hargs := Parse.Alike.within hq.interior hlist q hq.below
  exact hargs.bind fun args r _ _ => .ok (.refl r) trivial

theorem juxtaposition_alike (h : Grammar.Alike n parts parts') (hq : q.Past n t) :
    Extension.Alike q (juxtaposition parts t) (juxtaposition parts' t) := by
  refine ⟨rfl, fun function => ?_⟩
  -- the first argument begins with the token that continues the form, which is consumed
  have hfirst := h.continueFrom applicationPower hq
  refine hfirst.bind fun first r hr _ => ?_
  have hothers := arguments_alike h r ((hq.below.reaches hr).mono n.le_succ)
  exact hothers.bind fun others r' _ _ => .ok (.refl r') trivial

theorem juxtaposition?_alike (h : Grammar.Alike n parts parts') (hq : q.Past n t) (p : Parser) :
    Option.Rel (Extension.Alike q) (juxtaposition? parts p t) (juxtaposition? parts' p t) := by
  unfold juxtaposition?
  split
  · exact .some (juxtaposition_alike h hq)
  · exact .none

/-- Expressions whose parts are read alike are continued alike. -/
theorem extend?_alike (h : Grammar.Alike n parts parts') (htypes : Grammar.Alike n types types')
    (hq : q.Past n t) (p : Parser) :
    Option.Rel (Extension.Alike q) (extend? parts types p t) (extend? parts' types' p t) := by
  have hjuxtaposition := juxtaposition?_alike h hq p
  unfold extend?
  -- both sides look at the same token only, so they take the same branch
  cases t.kind with
  | operator =>
    dsimp only
    cases bindingPower? t.text with
    | none => exact .none
    | some power => exact .some (infixCall_alike h hq power)
  | reserved =>
    dsimp only
    split
    · exact .some (ascription_alike htypes hq)
    · exact hjuxtaposition
  | block =>
    dsimp only
    split
    · exact .some (backtickCall_alike h hq)
    · split
      · exact .some (indexing_alike h hq)
      · exact hjuxtaposition
    · split
      · exact .some (listCall_alike h hq)
      · exact hjuxtaposition
    · exact hjuxtaposition
  | comma => exact hjuxtaposition
  | identifier => exact hjuxtaposition
  | number => exact hjuxtaposition
  | semicolon => exact hjuxtaposition

end Continuations

theorem grammarOn_alike (h : Grammar.Alike n parts parts')
    (htypes : Grammar.Alike (n + 1) types types') :
    Grammar.Alike (n + 1) (grammarOn parts types) (grammarOn parts' types') where
  expected := rfl
  start _ p hp := start_alike h hp.interior p hp.below
  extend p _ _ hp hrest := extend?_alike h (htypes.mono n.le_succ) (hp.pass hrest) p

end Expr

/-! ## Introduced names -/

section Names

variable {types types' : Grammar TypeExpr} {references references' : Grammar Reference}
  {bindings bindings' : Grammar Binding} {values values' : Grammar Expr}

/-- The grammar of introduced names, given how to read their types. -/
def Reference.grammarOn (types : Grammar TypeExpr) : Grammar Reference where
  expected := expected
  start t := start t
  extend? _ t := extend? types t

theorem Reference.start_alike (t : Token) :
    Parse.Alike (n + 1) (fun _ => True) (start t) (start t) := by
  unfold start
  refine .ite (fun _ => .pure trivial) fun _ => .ite (fun _ => ?_) fun _ => .unexpected
  exact Parse.Alike.expect.bind fun name _ => .pure trivial

theorem Reference.grammarOn_alike (h : Grammar.Alike (n + 1) types types') :
    Grammar.Alike (n + 1) (grammarOn types) (grammarOn types') where
  expected := rfl
  start t p hp := start_alike t p hp.below
  extend p t ts hp hrest := by
    have hpass := hp.reaches (.pass hrest)
    show Option.Rel _ (extend? types t) (extend? types' t)
    unfold extend?
    split
    · refine .some ⟨rfl, fun r => ?_⟩
      have htype := h.parse 0 _ (hpass.mono (Nat.le_succ _))
      exact htype.bind fun type q _ _ => .ok (.refl q) trivial
    · exact .none

/-- The grammar of bindings, given how to read their names and values. -/
def Binding.grammarOn (references : Grammar Reference) (values : Grammar Expr) :
    Grammar Binding where
  expected := expected
  start t := start references values t
  extend? _ _ := none

theorem Binding.grammarOn_alike (hreferences : Grammar.Alike (n + 1) references references')
    (hvalues : Grammar.Alike (n + 1) values values') :
    Grammar.Alike (n + 1) (grammarOn references values) (grammarOn references' values') where
  expected := rfl
  extend _ _ _ _ _ := .none
  start t p hp := by
    have hnames := (hreferences.parse 0).mono (Nat.le_succ _)
    have hvalue := (hvalues.parse 0).mono (Nat.le_succ _)
    show AlikeAt p (start references values t) (start references' values' t)
    unfold start
    refine (hreferences.continueFrom 0 hp).bind fun name p₁ h₁ _ => ?_
    have hp₁ := hp.below.reaches h₁
    refine (Parse.Alike.afterCommas hnames p₁ hp₁).bind fun names p₂ h₂ _ => ?_
    have hp₂ := hp₁.reaches h₂
    refine (Parse.Alike.expect p₂ hp₂).bind fun equals p₃ h₃ _ => ?_
    exact (hvalue p₃ (hp₂.reaches h₃)).bind fun value p₄ _ _ => .ok (.refl p₄) trivial

theorem Binding.parseAll_alike (h : Grammar.Alike (n + 1) bindings bindings') :
    Parse.Alike (n + 1) (fun _ => True) (parseAll bindings) (parseAll bindings') := by
  have hbinding := (h.parse 0).mono (Nat.le_succ _)
  unfold parseAll
  refine hbinding.bind fun first _ => ?_
  exact (Parse.Alike.afterCommas hbinding).bind fun others _ => .pure trivial

end Names

/-! ## Statements -/

namespace Statement

variable {parts parts' : Grammar Statement} {bindings bindings' : Grammar Binding}
  {values values' : Grammar Expr}

/-- The grammar of statements, given how to read their parts. -/
def grammarOn (parts : Grammar Statement) (bindings : Grammar Binding) (values : Grammar Expr) :
    Grammar Statement where
  expected := expected
  start t := start parts bindings values t
  extend? _ _ := none

theorem body_alike (h : Grammar.Alike n parts parts') (ht : t.Below (n + 1)) :
    Parse.Alike (n + 1) (fun _ => True) (body parts t) (body parts' t) :=
  .within ht (.sequence (h.parse 0))

/-- Conditional statements are read alike. -/
theorem conditional_alike (h : Grammar.Alike n parts parts')
    (hvalues : Grammar.Alike (n + 1) values values') (t : Token) :
    Parse.Alike (n + 1) (fun _ => True) (conditional parts values t)
      (conditional parts' values' t) := by
  have hcondition := (hvalues.parse 0).mono (Nat.le_succ _)
  unfold conditional
  refine hcondition.bind fun condition _ => Parse.Alike.expectBody.bind fun yesBlock hyes => ?_
  refine (body_alike h hyes).bind fun yes _ => Parse.Alike.acceptElse.bind fun else? _ => ?_
  cases else? with
  | none => exact .pure trivial
  | some _ =>
    intro p hp
    refine (accept_coincide hp).bind fun chained? q hq hchained => ?_
    cases chained? with
    | some chained =>
      -- the parts themselves begin the second condition, without one more level
      have hstart := h.start chained q (hchained chained rfl).1
      exact hstart.bind fun no r _ _ => .ok (.refl r) trivial
    | none =>
      have hq' := hp.reaches hq
      refine (Parse.Alike.expectBody q hq').bind fun noBlock r hr hno => ?_
      exact (body_alike h hno r (hq'.reaches hr)).bind fun no r' _ _ => .ok (.refl r') trivial

/-- Loops are read alike. -/
theorem loop_alike (h : Grammar.Alike n parts parts') (t : Token) :
    Parse.Alike (n + 1) (fun _ => True) (loop parts t) (loop parts' t) := by
  unfold loop
  refine Parse.Alike.accept.bind fun label? _ => Parse.Alike.expectBody.bind fun block hblock => ?_
  exact (Parse.Alike.insideLoop (body_alike h hblock)).bind fun inner _ => .pure trivial

theorem leaveLoop_alike (t : Token) :
    Parse.Alike (n + 1) (fun _ => True) (leaveLoop t) (leaveLoop t) := by
  unfold leaveLoop
  refine Parse.Alike.accept.bind fun label? _ => ?_
  cases label? with
  | none =>
    refine .get_bind fun p hp => ?_
    cases p.loopDepth? none with
    | some depth => exact .ok (.refl p) trivial
    | none => exact .error (.refl p)
  | some label =>
    refine .get_bind fun p hp => ?_
    cases p.loopDepth? (some label.text) with
    | some depth => exact .ok (.refl p) trivial
    | none => exact .error (.refl p)

theorem ofApplication_alike (e : Expr) :
    Parse.Alike n (fun _ => True) (ofApplication e) (ofApplication e) := by
  unfold ofApplication
  split
  · exact .pure trivial
  · exact .fail

/-- Assignments and calls are read alike. -/
theorem assignmentOrCall_alike (hvalues : Grammar.Alike (n + 1) values values') {p : Parser}
    (hp : p.Past (n + 1) t) :
    AlikeAt p (assignmentOrCall values t) (assignmentOrCall values' t) := by
  have hvalue := (hvalues.parse 0).mono (Nat.le_succ _)
  unfold assignmentOrCall
  refine (hvalues.continueFrom 0 hp).bind fun e q hq _ => ?_
  refine (Parse.Alike.bind (n := n + 1) (W := fun _ => True) .accept fun equals? _ => ?_) q
    (hp.below.reaches hq)
  cases equals? with
  | some _ =>
    refine hvalue.bind fun value _ => ?_
    exact (Expr.expectPlace_alike e).bind fun target _ => .pure trivial
  | none =>
    refine Parse.Alike.peek.bind fun next? _ => ?_
    cases next? with
    | none => exact ofApplication_alike e
    | some next => exact .ite (fun _ => ofApplication_alike e) fun _ => .unexpected

/-- Statements whose parts are read alike begin alike. -/
theorem start_alike (h : Grammar.Alike n parts parts')
    (hbindings : Grammar.Alike (n + 1) bindings bindings')
    (hvalues : Grammar.Alike (n + 1) values values') {p : Parser} (hp : p.Past (n + 1) t) :
    AlikeAt p (start parts bindings values t) (start parts' bindings' values' t) := by
  have hsimple : AlikeAt p (simple parts values t) (simple parts' values' t) := by
    unfold simple
    split
    · have hinner := body_alike h hp.interior p hp.below
      exact hinner.bind fun inner q _ _ => .ok (.refl q) trivial
    · exact assignmentOrCall_alike hvalues hp
  unfold start
  split
  · exact conditional_alike h hvalues t p hp.below
  · exact loop_alike h t p hp.below
  · exact leaveLoop_alike t p hp.below
  · have hall := Binding.parseAll_alike hbindings p hp.below
    exact hall.bind fun all q _ _ => .ok (.refl q) trivial
  · have hvalue := hvalues.parse 0 p (hp.below.mono (Nat.le_succ _))
    exact hvalue.bind fun value q _ _ => .ok (.refl q) trivial
  · exact hsimple
  · exact hsimple
  · exact hsimple
  · exact hsimple
  · exact .error (.refl p)

theorem grammarOn_alike (h : Grammar.Alike n parts parts')
    (hbindings : Grammar.Alike (n + 1) bindings bindings')
    (hvalues : Grammar.Alike (n + 1) values values') :
    Grammar.Alike (n + 1) (grammarOn parts bindings values)
      (grammarOn parts' bindings' values') where
  expected := rfl
  start _ _ hp := start_alike h hbindings hvalues hp
  extend _ _ _ _ _ := .none

end Statement

/-! ## Declarations -/

namespace Declaration

variable {types types' : Grammar TypeExpr} {references references' : Grammar Reference}
  {bindings bindings' : Grammar Binding} {statements statements' : Grammar Statement}

/-- The rest of a function, given how to read its parts. -/
def functionOn (types : Grammar TypeExpr) (references : Grammar Reference)
    (statements : Grammar Statement) (t : Token) : Parse Declaration := do
  let name ← Parse.expect "a function name" (·.kind == .identifier)
  let list ← Parse.expect "a parameter list" (·.isBlock (.bracketed .paren))
  let (params, _) ← Parse.within list (Parse.list (references.parse 0))
  let result ← types.parse 0
  let block ← Parse.expectBody
  let body ← Statement.body statements block
  return function (t.loc.join block.loc) name.text params result body

/-- Reads a declaration that begins with `t`, given how to read its parts. -/
def startOn (types : Grammar TypeExpr) (references : Grammar Reference)
    (bindings : Grammar Binding) (statements : Grammar Statement) (t : Token) :
    Parse Declaration :=
  match t.reserved? with
  | some .define => functionOn types references statements t
  | some .letBind => do
    let all ← Binding.parseAll bindings
    return letBind (Binding.letLoc t all) all
  | _ => Parse.unexpected expected (some t)

/-- The grammar of declarations, given how to read their parts. -/
def grammarOn (types : Grammar TypeExpr) (references : Grammar Reference)
    (bindings : Grammar Binding) (statements : Grammar Statement) : Grammar Declaration where
  expected := expected
  start t := startOn types references bindings statements t
  extend? _ _ := none

/-- Declarations whose parts are read alike begin alike. -/
theorem startOn_alike (htypes : Grammar.Alike (n + 1) types types')
    (hreferences : Grammar.Alike (n + 1) references references')
    (hbindings : Grammar.Alike (n + 1) bindings bindings')
    (hstatements : Grammar.Alike (n + 1) statements statements') (t : Token) :
    Parse.Alike (n + 1) (fun _ => True) (startOn types references bindings statements t)
      (startOn types' references' bindings' statements' t) := by
  have hresult := (htypes.parse 0).mono (Nat.le_succ _)
  have hparam := (hreferences.parse 0).mono (Nat.le_succ _)
  unfold startOn
  split
  · unfold functionOn
    refine Parse.Alike.expect.bind fun name _ => Parse.Alike.expect.bind fun list hlist => ?_
    refine (Parse.Alike.within hlist (.list hparam)).bind fun params _ => ?_
    refine hresult.bind fun result _ => Parse.Alike.expectBody.bind fun block hblock => ?_
    have hbody := Statement.body_alike (hstatements.mono n.le_succ) hblock
    exact hbody.bind fun body _ => .pure trivial
  · exact (Binding.parseAll_alike hbindings).bind fun all _ => .pure trivial
  · exact .unexpected

theorem grammarOn_alike (htypes : Grammar.Alike (n + 1) types types')
    (hreferences : Grammar.Alike (n + 1) references references')
    (hbindings : Grammar.Alike (n + 1) bindings bindings')
    (hstatements : Grammar.Alike (n + 1) statements statements') :
    Grammar.Alike (n + 1) (grammarOn types references bindings statements)
      (grammarOn types' references' bindings' statements') where
  expected := rfl
  start t p hp := startOn_alike htypes hreferences hbindings hstatements t p hp.below
  extend _ _ _ _ _ := .none

end Declaration

/-! ## All grammars together -/

/-- The syntactic categories. -/
inductive Category where
  | type
  | reference
  | binding
  | expression
  | statement
  | declaration

namespace Category

/-- The forms of a category. -/
def Form : Category → Type
  | type => TypeExpr
  | reference => Reference
  | binding => Binding
  | expression => Expr
  | statement => Statement
  | declaration => Declaration

/-- The grammar of a category, with forms that nest up to a level. -/
def grammar : (c : Category) → (level : Nat) → Grammar c.Form
  | type => TypeExpr.grammar
  | reference => Reference.grammar
  | binding => Binding.grammar
  | expression => Expr.grammar
  | statement => Statement.grammar
  | declaration => Declaration.grammar

/-- Reads a form of a category. -/
def parse : (c : Category) → (power : Nat) → Parse c.Form
  | type => TypeExpr.parse
  | reference => Reference.parse
  | binding => Binding.parse
  | expression => Expr.parse
  | statement => Statement.parse
  | declaration => Declaration.parse

end Category

/-- Grammars for the three categories whose forms nest. -/
structure Grammars where
  types : Grammar TypeExpr
  values : Grammar Expr
  statements : Grammar Statement

namespace Grammars

/-- The grammars of all categories over those for three of them. -/
def of (G : Grammars) : (c : Category) → Grammar c.Form
  | .type => G.types
  | .reference => Reference.grammarOn G.types
  | .binding => Binding.grammarOn (Reference.grammarOn G.types) G.values
  | .expression => G.values
  | .statement => G.statements
  | .declaration =>
    Declaration.grammarOn G.types (Reference.grammarOn G.types)
      (Binding.grammarOn (Reference.grammarOn G.types) G.values) G.statements

/-- Grammars without forms. -/
def barren : Grammars where
  types := .barren TypeExpr.expected
  values := .barren Expr.expected
  statements := .barren Statement.expected

/-- The grammars whose forms have parts of the given ones. -/
def nest (G : Grammars) : Grammars :=
  let types := TypeExpr.grammarOn G.types
  let values := Expr.grammarOn G.values types
  let bindings := Binding.grammarOn (Reference.grammarOn types) values
  ⟨types, values, Statement.grammarOn G.statements bindings values⟩

/-- The grammars of a level are those without forms, nested as often. -/
theorem nest_barren (c : Category) (level : Nat) :
    (nest^[level] barren).of c = c.grammar level := by
  have hlevel : nest^[level] barren =
      ⟨TypeExpr.grammar level, Expr.grammar level, Statement.grammar level⟩ := by
    induction level with
    | zero => rfl
    | succ level ih =>
      rw [Function.iterate_succ_apply', ih]
      rfl
  rw [hlevel]
  cases c <;> rfl

/-- Forms are read with as many levels as there are tokens ahead. -/
theorem parse_eq (c : Category) (power : Nat) (p : Parser) :
    c.parse power p = (c.grammar p.weight).parse power p := by
  cases c <;> rfl

/-- Grammars that are alike in the three categories whose forms nest. -/
structure Alike (n : Nat) (G H : Grammars) : Prop where
  types : Grammar.Alike n G.types H.types
  values : Grammar.Alike n G.values H.values
  statements : Grammar.Alike n G.statements H.statements

variable {G H : Grammars}

theorem Alike.mono {m : Nat} (h : Alike n G H) (hm : m ≤ n) : Alike m G H :=
  ⟨h.types.mono hm, h.values.mono hm, h.statements.mono hm⟩

/-- They are alike in all categories then. -/
theorem Alike.of (h : Alike n G H) (c : Category) : Grammar.Alike n (G.of c) (H.of c) := by
  cases n with
  | zero =>
    -- where there are no tokens, only what the categories are called counts
    cases c with
    | type => exact h.types
    | expression => exact h.values
    | statement => exact h.statements
    | reference => exact .of_expected rfl
    | binding => exact .of_expected rfl
    | declaration => exact .of_expected rfl
  | succ n =>
    have hreferences := Reference.grammarOn_alike h.types
    have hbindings := Binding.grammarOn_alike hreferences h.values
    cases c with
    | type => exact h.types
    | expression => exact h.values
    | statement => exact h.statements
    | reference => exact hreferences
    | binding => exact hbindings
    | declaration => exact Declaration.grammarOn_alike h.types hreferences hbindings h.statements

/-- What is nested once more is alike one token further. -/
theorem Alike.nest (h : Alike n G H) : Alike (n + 1) G.nest H.nest := by
  have htypes := TypeExpr.grammarOn_alike h.types
  have hvalues := Expr.grammarOn_alike h.values htypes
  have hbindings := Binding.grammarOn_alike (Reference.grammarOn_alike htypes) hvalues
  exact ⟨htypes, hvalues, Statement.grammarOn_alike h.statements hbindings hvalues⟩

/-- The grammars of every level are alike to themselves for every number of tokens. -/
theorem grammar_alike (c : Category) (level n : Nat) :
    Grammar.Alike n (c.grammar level) (c.grammar level) := by
  have hlevel : Alike n (Grammars.nest^[level] barren) (Grammars.nest^[level] barren) := by
    induction level with
    | zero => exact ⟨.barren _, .barren _, .barren _⟩
    | succ level ih =>
      rw [Function.iterate_succ_apply']
      exact ih.nest.mono n.le_succ
  rw [← nest_barren]
  exact hlevel.of c

/-- Nested more often than there are tokens ahead, all grammars read the same, whatever they are
nested over. -/
theorem nest_settles {p : Parser} (hp : p.Ahead Columned) {depth : Nat} (hdepth : p.weight < depth)
    (below : Grammars) (c : Category) (power : Nat) :
    AlikeAt p (c.parse power) (((Grammars.nest^[depth] below).of c).parse power) := by
  have hbarren (below : Grammars) : Alike 0 barren below.nest :=
    ⟨.of_expected rfl, .of_expected rfl, .of_expected rfl⟩
  have halike := iterate_settles (fun _ _ _ => Alike.nest) hbarren hdepth below
  rw [AlikeAt, parse_eq, ← nest_barren]
  exact (halike.of c).parse power p ⟨hp, Nat.lt_succ_self _⟩

end Grammars

end Offside
