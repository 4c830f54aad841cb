import Offside.Proofs.Grammar.Programs
import Offside.Proofs.Printing.Bindings

/-!
# Tokens that are read back as a statement

A call that is a statement is printed without parentheses. If it is the call of an operator whose
left operand is a conditional expression, its text begins with `if`, and then it is read as a
conditional statement.

* `Statement.misread`: the statements that are, or hold, such a call.
* `Statement.Rereads`: tokens are read as a statement up to locations, unless it is misread; then
  they are not read as a statement at all.
* `Statement.body_outcome`: the same for the statements of a block, in braces or indented.
* `Statement.rereads_call`, `Statement.rereads_branch`, ...: one lemma for each form, given that the
  tokens of its parts are read back. `Statement.rereads_misread`: a call that is misread.
-/

namespace Offside

open Token Parse Parser

/-! ## Statements that are misread -/

/-- Whether an expression is conditional. -/
def Expr.isConditional : Expr → Bool
  | ifThen .. => true
  | _ => false

namespace Statement

/-- Whether the text of a call begins with a conditional expression. Only the left operand of an
operator is printed without parentheses whatever it is. -/
def beginsWithConditional : CallStyle → (function : Expr) → (args : List Expr) → Bool
  | .curried, function, [left, _] => function.operator?.isSome && left.isConditional
  | _, _, _ => false

mutual

/-- Whether a statement is, or holds, a call whose text begins with a conditional expression. -/
def misread : Statement → Bool
  | call _ style function args => beginsWithConditional style function args
  | forever _ _ body => misreadAny body
  | branch _ _ yes no => misreadAny yes || misreadAny no
  | nested _ body => misreadAny body
  | assign .. | breakLoop .. | letBind .. | returnValue .. => false

/-- Whether one of some statements is misread. -/
def misreadAny : List Statement → Bool
  | [] => false
  | x :: xs => misread x || misreadAny xs

end

theorem misreadAny_eq (xs : List Statement) : misreadAny xs = xs.any misread := by
  induction xs with
  | nil => rw [misreadAny, List.any_nil]
  | cons x xs ih => rw [misreadAny, List.any_cons, ih]

/-! ## Where a statement ends -/

/-- What follows a statement: nothing, or a semicolon and then no `else`. -/
def Ends (rest : List Token) : Prop :=
  rest = [] ∨ ∃ t us, rest = t :: us ∧ t.kind = .semicolon ∧
    ∀ u, us.head? = some u → u.isReserved .otherwise = false

theorem Ends.kind {rest : List Token} (h : Ends rest) {t : Token} (ht : rest.head? = some t) :
    t.kind = .semicolon := by
  rcases h with rfl | ⟨u, us, rfl, hu, -⟩
  · cases ht
  · cases ht
    exact hu

theorem Ends.stops {p : Parser} (h : Ends p.rest) : Expr.Stops p :=
  Expr.stops_separator fun _ ht => .inr (h.kind ht)

/-- A token of another kind is not the given word. -/
theorem isReserved_of_kind {t : Token} (h : t.kind ≠ .reserved) (w : Reserved) :
    t.isReserved w = false := by
  rw [isReserved, reserved?, if_neg h]
  rfl

theorem Ends.acceptElse {p : Parser} (h : Ends p.rest) : Parse.acceptElse p = .ok none p := by
  refine acceptElse_none fun t us hrest => ?_
  rcases h with hnil | ⟨u, vs, hcons, hu, hvs⟩
  · rw [hrest] at hnil
    cases hnil
  · rw [hrest] at hcons
    cases hcons
    exact ⟨isReserved_of_kind (by rw [hu]; decide) _, hvs⟩

/-! ## Reading back -/

/-- Tokens inside some loops are read as a statement up to locations, unless it is misread. -/
structure Rereads (loops : List (Option String)) (ts : List Token) (x : Statement) : Prop where
  /-- The tokens do not begin with `else`. -/
  begins : ∃ t us, ts = t :: us ∧ t.isReserved .otherwise = false
  /-- Before what follows a statement they are read, or are no statement. -/
  parse : ∀ level p rest, totalWeight ts ≤ level → p.loops = loops → p.rest = ts ++ rest →
    Ends rest → ItemOutcome .semicolon x.misread ((grammar level).parse 0 p) (p.passAll ts)
      fun x' => x'.erase = x.erase

section Reading

variable {loops : List (Option String)} {ts us inner rest : List Token} {t : Token} {x : Statement}
  {xs : List Statement} {level : Nat} {p : Parser}

theorem Rereads.ne_nil (h : Rereads loops ts x) : ts ≠ [] := by
  obtain ⟨t, us, rfl, -⟩ := h.begins
  exact List.cons_ne_nil _ _

/-- A statement ends where others follow it. -/
theorem Rereads.ends_of_follows {R : List Token → Statement → Prop}
    (hR : ∀ ts x, R ts x → Rereads loops ts x) (h : Follows .semicolon R rest) : Ends rest := by
  rcases h with rfl | ⟨t, us, b, as, rfl, ht, hothers⟩
  · exact .inl rfl
  · refine .inr ⟨t, us, rfl, ht, fun u hu => ?_⟩
    have hfirst : ∀ {vs ws : List Token} {x}, R vs x → (vs ++ ws).head? = some u →
        u.isReserved .otherwise = false := by
      intro vs ws x hx hu
      obtain ⟨v, vs, rfl, hv⟩ := (hR _ _ hx).begins
      cases hu
      exact hv
    cases hothers with
    | nil => cases hu
    | last hx => exact hfirst hx (by rw [List.append_nil]; exact hu)
    | more hx _ _ => exact hfirst hx hu

/-- Statements with semicolons between them. -/
theorem sequence_rereads {b : Bool} (h : Separated .semicolon (Rereads loops) b ts xs)
    (hlevel : totalWeight ts ≤ level) (hp : p.rest = ts) (hloops : p.loops = loops) :
    Parse.Outcome (misreadAny xs) (sequence ((grammar level).parse 0) p) (p.passAll ts)
      fun xs' => eraseAll xs' = eraseAll xs := by
  simp only [misreadAny_eq, eraseAll_eq]
  refine sequence_outcome ?_ (fun us y hR => hR.1.ne_nil) (h.and_weight hlevel) hp hloops
  intro us y q rest hR hloops hq hrest
  exact hR.1.parse level q rest hR.2 hloops hq (Rereads.ends_of_follows (fun _ _ h => h.1) hrest)

/-- The statements of a block. -/
theorem body_outcome {b : Bool} (ht : t.IsBodyOf inner)
    (h : Separated .semicolon (Rereads loops) b inner xs) (hlevel : totalWeight t.children ≤ level)
    (hp : p.loops = loops) :
    Parse.Outcome (misreadAny xs) (body (grammar level) t p) p
      fun xs' => eraseAll xs' = eraseAll xs := by
  rw [ht.2.2] at hlevel
  exact within_outcome ht.2 fun q hq hloops =>
    sequence_rereads h hlevel hq (hloops.trans hp)

/-- A statement that its first token determines. -/
theorem rereads_of_start (ht : t.isReserved .otherwise = false)
    (h : ∀ level (p : Parser) rest, totalWeight t.children + totalWeight us ≤ level →
      p.loops = loops → p.rest = t :: us ++ rest → Ends rest →
      ItemOutcome .semicolon x.misread ((grammar (level + 1)).start t (p.pass t))
        ((p.pass t).passAll us) fun x' => x'.erase = x.erase) : Rereads loops (t :: us) x := by
  refine ⟨⟨t, us, rfl, ht⟩, ?_⟩
  intro level p rest hlevel hloops hp hrest
  rw [totalWeight_cons, weight_eq] at hlevel
  obtain ⟨level, rfl⟩ : ∃ n, level = n + 1 := ⟨level - 1, by omega⟩
  rw [Grammar.parse_eq_start (grammar_extend? _) hp]
  exact h level p rest (by omega) hloops hp hrest

/-- A statement that a word other than `else` introduces. -/
theorem rereads_of_word {w : Reserved} (ht : t.reserved? = some w) (hw : w ≠ .otherwise)
    (h : ∀ level (p : Parser) rest, totalWeight t.children + totalWeight us ≤ level →
      p.loops = loops → p.rest = t :: us ++ rest → Ends rest →
      ItemOutcome .semicolon x.misread ((grammar (level + 1)).start t (p.pass t))
        ((p.pass t).passAll us) fun x' => x'.erase = x.erase) : Rereads loops (t :: us) x := by
  refine rereads_of_start ?_ h
  rw [isReserved, ht]
  exact beq_eq_false_iff_ne.2 fun h => hw (Option.some.inj h)

/-! ## Assignments and calls -/

/-- A token that begins a statement which is neither a block nor introduced by a word. -/
def Simple (t : Token) : Prop :=
  (t.reserved? = none ∨ t.reserved? = some .valueAt ∨ t.reserved? = some .addressOf) ∧
    t.blockKind?.any BlockKind.holdsStatements = false

theorem Simple.start (h : Simple t) (level : Nat) :
    (grammar (level + 1)).start t = assignmentOrCall (Expr.grammar (level + 1)) t := by
  have hsimple : ∀ parts values, simple parts values t = assignmentOrCall values t :=
    fun _ _ => if_neg (by rw [h.2]; exact Bool.false_ne_true)
  show Statement.start _ _ _ t = _
  unfold Statement.start
  rcases h.1 with h | h | h
  · simp only [h, hsimple]
  · simp only [h, hsimple]
  · simp only [h, hsimple]

theorem Simple.not_else (h : Simple t) : t.isReserved .otherwise = false := by
  rw [isReserved]
  rcases h.1 with h | h | h
  · rw [h]; rfl
  · rw [h]; rfl
  · rw [h]; rfl

/-- A token that is no block and no word begins a simple statement. -/
theorem simple_of_kind (hword : t.kind ≠ .reserved) (hblock : t.kind ≠ .block) : Simple t := by
  rw [Simple, reserved?, blockKind?, if_neg hword, if_neg hblock]
  exact ⟨.inl rfl, rfl⟩

/-- So does a group that holds no statements. -/
theorem simple_of_blockKind? {kind : BlockKind} (h : t.blockKind? = some kind)
    (hkind : kind.holdsStatements = false) : Simple t := by
  refine ⟨.inl ?_, ?_⟩
  · rw [reserved?, kind_of_blockKind? h]
    rfl
  · rw [h]
    exact hkind

theorem simple_of_opening (h : Expr.Opening t) : Simple t := by
  rcases h with hkind | hkind | hblock | hblock
  · exact simple_of_kind (by rw [hkind]; decide) (by rw [hkind]; decide)
  · exact simple_of_kind (by rw [hkind]; decide) (by rw [hkind]; decide)
  · exact simple_of_blockKind? hblock rfl
  · exact simple_of_blockKind? hblock rfl

theorem simple_of_sign {w : Reserved} (h : t.reserved? = some w)
    (hw : w = .valueAt ∨ w = .addressOf) : Simple t := by
  constructor
  · rcases hw with rfl | rfl
    · exact .inr (.inl h)
    · exact .inr (.inr h)
  · rw [blockKind?, kind_of_reserved? h]
    rfl

/-- Every expression that is not conditional begins a simple statement. -/
theorem simple_of_begins {e : Expr} (h : e.Begins ts) (he : e.isConditional = false) :
    ∃ t us, ts = t :: us ∧ Simple t := by
  cases e
  case ifThen => cases he
  case valueAt =>
    obtain ⟨t, us, rfl, ht⟩ := h
    exact ⟨t, us, rfl, simple_of_sign ht (.inl rfl)⟩
  case addressOf =>
    obtain ⟨t, us, rfl, ht⟩ := h
    exact ⟨t, us, rfl, simple_of_sign ht (.inr rfl)⟩
  all_goals
    obtain ⟨t, us, rfl, ht⟩ := h
    exact ⟨t, us, rfl, simple_of_opening ht⟩

/-- No operator is an equals sign. -/
theorem stops_equals {sign : Token} (hp : p.rest.head? = some sign)
    (hsign : sign.is .operator "=" = true) : Expr.Stops p := by
  intro u hu
  cases hp.symm.trans hu
  obtain ⟨hkind, htext⟩ : sign.kind = .operator ∧ sign.text = "=" := by
    simpa [Token.is] using hsign
  have hpower : bindingPower? "=" = none := by decide
  simp [Expr.power?, Token.is, hkind, htext, hpower]

theorem rereads_assign {sign : Token} {vs : List Token} {target : Place} {value : Expr}
    (ht : Simple t) (hleft : Expr.Rereads (t :: us) target.toExpr)
    (hsign : sign.is .operator "=" = true) (hright : Expr.Rereads vs value) (l : Location) :
    Rereads loops (t :: (us ++ sign :: vs)) (.assign l target value) := by
  refine rereads_of_start ht.not_else fun level p rest hlevel _ hp hrest => ?_
  simp only [totalWeight_append, totalWeight_cons] at hlevel
  have hp₀ : p.rest = t :: us ++ sign :: (vs ++ rest) := by rw [hp]; simp
  have hp₁ : (p.passAll (t :: us)).rest = sign :: (vs ++ rest) := passAll_rest hp₀
  have hp₂ : ((p.passAll (t :: us)).pass sign).rest = vs ++ rest := by rw [pass_rest, hp₁]; rfl
  have hp₃ : (((p.passAll (t :: us)).pass sign).passAll vs).rest = rest := passAll_rest hp₂
  obtain ⟨e', hparse, he'⟩ := hleft (level + 1) p _ (by rw [totalWeight_cons, weight_eq]; omega) hp₀
    (stops_equals (by rw [hp₁]; rfl) hsign)
  rw [Grammar.parse_eq hp₀] at hparse
  obtain ⟨value', hvalue, hvalue'⟩ := hright (level + 1) _ rest (by omega) hp₂
    (Ends.stops (hp₃ ▸ hrest))
  obtain ⟨target', hplace, htarget'⟩ := Place.ofExpr_of_erase target he'
  have hexpect : ∀ q, e'.expectPlace q = .ok target' q := by
    intro q
    rw [Expr.expectPlace, hplace]
    rfl
  rw [misread, ht.start]
  refine ⟨.assign (e'.loc.join value'.loc) target' value', ?_, ?_⟩
  · unfold assignmentOrCall
    rw [bind_eq hparse, bind_eq (accept_eq hp₁ hsign)]
    dsimp only
    rw [bind_eq hvalue, bind_eq (hexpect _)]
    simp only [passAll_append, passAll_cons]
    rfl
  · simp only [erase, htarget', hvalue']

/-- An expression that differs from an application in locations only is one. -/
theorem ofApplication_eq {e : Expr} {l : Location} {style : CallStyle} {function : Expr}
    {args : List Expr} (h : e.erase = (Expr.apply l style function args).erase) :
    ∃ x, (∀ q, ofApplication e q = .ok x q) ∧ x.erase = (call l style function args).erase := by
  rw [Expr.erase] at h
  cases e
  case apply l' style' function' args' =>
    rw [Expr.erase] at h
    injection h with _ hstyle hfunction hargs
    refine ⟨call l' style' function' args', fun q => rfl, ?_⟩
    rw [erase, erase, hstyle, hfunction, hargs]
  all_goals
    rw [Expr.erase] at h
    cases h

theorem rereads_call {l : Location} {style : CallStyle} {function : Expr} {args : List Expr}
    (ht : Simple t) (h : Expr.Rereads (t :: us) (.apply l style function args))
    (hplain : beginsWithConditional style function args = false) :
    Rereads loops (t :: us) (.call l style function args) := by
  refine rereads_of_start ht.not_else fun level p rest hlevel _ hp hrest => ?_
  have hp₁ : (p.passAll (t :: us)).rest = rest := passAll_rest hp
  have hends : Ends (p.passAll (t :: us)).rest := hp₁ ▸ hrest
  obtain ⟨e', hparse, he'⟩ := h (level + 1) p rest (by rw [totalWeight_cons, weight_eq]; omega) hp
    hends.stops
  rw [Grammar.parse_eq hp] at hparse
  obtain ⟨x', hok, hx'⟩ := ofApplication_eq he'
  have hnone : accept (·.is .operator "=") (p.passAll (t :: us)) = .ok none (p.passAll (t :: us)) :=
    accept_none fun u hu => by simp [Token.is, hends.kind hu]
  rw [misread, hplain, ht.start]
  refine ⟨x', ?_, hx'⟩
  unfold assignmentOrCall
  rw [bind_eq hparse, bind_eq hnone]
  dsimp only
  rw [bind_eq (show peek (p.passAll (t :: us)) = .ok _ _ from rfl)]
  cases hhead : (p.passAll (t :: us)).rest.head? with
  | none => exact hok _
  | some u =>
    dsimp only
    rw [if_pos (hends.kind hhead)]
    exact hok _

theorem start_ifThen (ht : t.reserved? = some .ifThen) (level : Nat) :
    (grammar (level + 1)).start t = conditional (grammar level) (Expr.grammar (level + 1)) t := by
  show start _ _ _ t = _
  unfold start
  simp only [ht]

/-- A call that is misread: its tokens begin with those of a conditional statement, and an operator
follows them. -/
theorem rereads_misread {condition yes no : Expr} (c : Expr.Conditional condition yes no)
    {operator : Token} (hoperator : operator.kind = .operator) (hx : x.misread = true) :
    Rereads loops (c.tokens ++ operator :: us) x := by
  show Rereads loops (c.word :: (c.test ++ [c.yesBlock, c.other, c.noBlock] ++ operator :: us)) x
  refine rereads_of_word c.isWord (by decide) fun level p rest hlevel _ hp hrest => ?_
  obtain ⟨yesInner, hyesGroup, -⟩ := c.isYes
  obtain ⟨noInner, hnoGroup, -⟩ := c.isNo
  simp only [totalWeight_append, totalWeight_cons] at hlevel
  have hp₀ : (p.pass c.word).rest
      = c.test ++ c.yesBlock :: c.other :: c.noBlock :: operator :: (us ++ rest) := by
    rw [pass_rest, hp]
    simp
  have hp₁ := passAll_rest hp₀
  have htest : totalWeight c.test ≤ level + 1 := by omega
  obtain ⟨condition', hparse, -⟩ := c.parse_test htest hp₀
  rw [hx, start_ifThen c.isWord]
  show Fails .semicolon _
  unfold conditional
  rw [bind_eq hparse, bind_eq (expectBody_eq hp₁ (isBody_brace hyesGroup.1))]
  generalize hq : ((p.pass c.word).passAll c.test).pass c.yesBlock = q
  have hq' : q.rest = c.other :: c.noBlock :: operator :: (us ++ rest) := by
    rw [← hq, pass_rest, hp₁]
    rfl
  -- the blocks may hold statements or not
  cases hyes : body (grammar level) c.yesBlock q with
  | error e r => exact .inl ⟨e, r, bind_error hyes⟩
  | ok yes' r =>
    have hr : r.rest = c.other :: c.noBlock :: operator :: (us ++ rest) :=
      (within_rest hyes).trans hq'
    have hr₁ : (r.pass c.other).rest = c.noBlock :: operator :: (us ++ rest) := by
      rw [pass_rest, hr]
      rfl
    have hchained : accept (·.isReserved .ifThen) (r.pass c.other) = .ok none (r.pass c.other) :=
      accept_none fun u hu => by
        rw [hr₁] at hu
        cases hu
        exact isReserved_of_kind (by rw [kind_of_blockKind? hnoGroup.1]; decide) _
    rw [bind_eq hyes, bind_eq (acceptElse_eq hr (isReserved_iff.2 c.isOther))]
    dsimp only
    rw [bind_eq hchained]
    dsimp only
    rw [bind_eq (expectBody_eq hr₁ (isBody_brace hnoGroup.1))]
    cases hno : body (grammar level) c.noBlock ((r.pass c.other).pass c.noBlock) with
    | error e r' => exact .inl ⟨e, r', bind_error hno⟩
    | ok no' r' =>
      have hr' : r'.rest = operator :: (us ++ rest) := by
        rw [within_rest hno, pass_rest, hr₁]
        rfl
      rw [bind_eq hno]
      exact .inr ⟨_, r', operator, rfl, by rw [hr']; rfl, by rw [hoperator]; decide⟩

/-! ## Statements that a word introduces -/

theorem rereads_returnValue {value : Expr} (ht : t.reserved? = some .returnValue)
    (h : Expr.Rereads us value) (l : Location) :
    Rereads loops (t :: us) (.returnValue l value) := by
  refine rereads_of_word ht (by decide) fun level p rest hlevel _ hp hrest => ?_
  have hp₁ : (p.pass t).rest = us ++ rest := by rw [pass_rest, hp]; rfl
  have hp₂ : ((p.pass t).passAll us).rest = rest := passAll_rest hp₁
  obtain ⟨value', hparse, hvalue'⟩ := h (level + 1) _ rest (by omega) hp₁ (Ends.stops (hp₂ ▸ hrest))
  have hstart : (grammar (level + 1)).start t
      = (do let value ← (Expr.grammar (level + 1)).parse 0
            return returnValue (t.loc.join value.loc) value) := by
    show start _ _ _ t = _
    unfold start
    simp only [ht]
  rw [misread, hstart, bind_eq hparse]
  exact ⟨_, rfl, by simp only [erase, hvalue']⟩

theorem rereads_letBind {vs : List Token} {b : Binding} {bs : List Binding}
    (ht : t.reserved? = some .letBind) (hb : Binding.Rereads us b)
    (hbs : AfterCommas Binding.Rereads vs bs) (l : Location) :
    Rereads loops (t :: (us ++ vs)) (.letBind l (b :: bs)) := by
  refine rereads_of_word ht (by decide) fun level p rest hlevel _ hp hrest => ?_
  have hp₁ : (p.pass t).rest = us ++ vs ++ rest := by rw [pass_rest, hp]; rfl
  have hweight : totalWeight (us ++ vs) ≤ level + 1 := by omega
  obtain ⟨all, hparse, hall⟩ := Binding.parseAll_eq hb hbs hweight hp₁ fun _ hu => hrest.kind hu
  have hstart : (grammar (level + 1)).start t
      = (do let all ← Binding.parseAll (Binding.grammar (level + 1))
            return letBind (Binding.letLoc t all) all) := by
    show start _ _ _ t = _
    unfold start
    simp only [ht]
  rw [misread, hstart, bind_eq hparse]
  exact ⟨_, rfl, by simp only [erase, hall]⟩

/-- A break without a label. -/
theorem rereads_breakInnermost (ht : t.reserved? = some .breakLoop) (hloops : loops ≠ [])
    (l : Location) : Rereads loops [t] (.breakLoop l 0) := by
  refine rereads_of_word ht (by decide) fun level p rest _ hp' hp hrest => ?_
  have hp₁ : (p.pass t).rest = rest := by rw [pass_rest, hp]; rfl
  have hnone : accept (·.kind == .identifier) (p.pass t) = .ok none (p.pass t) :=
    accept_none fun u hu => by
      rw [hp₁] at hu
      rw [hrest.kind hu]
      rfl
  have hdepth : (p.pass t).loopDepth? none = some 0 := by
    rw [loopDepth?, pass_loops, hp', List.isEmpty_eq_false_iff.2 hloops]
    rfl
  have hstart : (grammar (level + 1)).start t = leaveLoop t := by
    show start _ _ _ t = _
    unfold start
    simp only [ht]
  rw [misread, hstart]
  unfold leaveLoop
  rw [bind_eq hnone]
  dsimp only
  rw [bind_eq (show (get : Parse Parser) (p.pass t) = .ok (p.pass t) _ from rfl)]
  simp only [hdepth]
  exact ⟨_, rfl, by simp only [erase]⟩

/-- A break with the label of the loop that it leaves. -/
theorem rereads_breakLabelled {u : Token} {depth : Nat} (ht : t.reserved? = some .breakLoop)
    (hu : u.kind = .identifier) (hloops : loops.findIdx? (· == some u.text) = some depth)
    (l : Location) : Rereads loops [t, u] (.breakLoop l depth) := by
  refine rereads_of_word ht (by decide) fun level p rest _ hp' hp hrest => ?_
  have hp₁ : (p.pass t).rest = u :: rest := by rw [pass_rest, hp]; rfl
  have hlabel : accept (·.kind == .identifier) (p.pass t) = .ok (some u) ((p.pass t).pass u) :=
    accept_eq hp₁ (beq_iff_eq.2 hu)
  have hdepth : ((p.pass t).pass u).loopDepth? (some u.text) = some depth := by
    rw [loopDepth?, pass_loops, pass_loops, hp', hloops]
  have hstart : (grammar (level + 1)).start t = leaveLoop t := by
    show start _ _ _ t = _
    unfold start
    simp only [ht]
  rw [misread, hstart]
  unfold leaveLoop
  rw [bind_eq hlabel]
  dsimp only
  rw [bind_eq (show (get : Parse Parser) ((p.pass t).pass u) = .ok _ _ from rfl)]
  simp only [hdepth]
  exact ⟨_, rfl, by simp only [erase]⟩

/-! ## Statements with blocks -/

theorem rereads_nested {b : Bool} (ht : t.IsBodyOf inner)
    (h : Separated .semicolon (Rereads loops) b inner xs) (l : Location) :
    Rereads loops [t] (.nested l xs) := by
  have hkind : t.kind ≠ .reserved := by rw [ht.1.kind]; decide
  refine rereads_of_start (isReserved_of_kind hkind _) fun level p rest hlevel hp' hp hrest => ?_
  have hweight : totalWeight t.children ≤ level := by omega
  have hbody := body_outcome ht h hweight (p := p.pass t) hp'
  have hstart : (grammar (level + 1)).start t
      = (do let inner ← body (grammar level) t
            return nested t.loc inner) := by
    have hnone : t.reserved? = none := if_neg hkind
    show start _ _ _ t = _
    unfold start simple
    simp only [hnone]
    exact if_pos ht.1
  rw [misread, hstart]
  refine (hbody.map (g := nested t.loc) (fun _ => rfl) fun xs' hxs' => ?_).item _
  rw [erase, erase, hxs']

theorem rereads_forever {label? : Option Token} {block : Token} {b : Bool}
    (ht : t.reserved? = some .forever) (hlabel : ∀ u, label? = some u → u.kind = .identifier)
    (hblock : block.IsBodyOf inner)
    (h : Separated .semicolon (Rereads (label?.map Token.text :: loops)) b inner xs)
    (l : Location) :
    Rereads loops (t :: (label?.toList ++ [block])) (.forever l (label?.map Token.text) xs) := by
  refine rereads_of_word ht (by decide) fun level p rest hlevel hp' hp hrest => ?_
  simp only [totalWeight_append, totalWeight_cons, weight_eq] at hlevel
  have hp₁ : (p.pass t).rest = label?.toList ++ block :: rest := by rw [pass_rest, hp]; simp
  have haccept : accept (·.kind == .identifier) (p.pass t)
      = .ok label? ((p.pass t).passAll label?.toList) := by
    cases label? with
    | none =>
      refine accept_none fun u hu => ?_
      rw [hp₁] at hu
      cases hu
      rw [hblock.1.kind]
      rfl
    | some u => exact accept_eq hp₁ (beq_iff_eq.2 (hlabel u rfl))
  have hp₂ := passAll_rest hp₁
  have hweight : totalWeight block.children ≤ level := by omega
  have hbody := Parse.Outcome.insideLoop (body_outcome hblock h hweight
    (p := { ((p.pass t).passAll label?.toList).pass block with
      loops := label?.map Token.text :: (((p.pass t).passAll label?.toList).pass block).loops })
    (by rw [pass_loops, passAll_loops, pass_loops, hp']))
  have hstart : (grammar (level + 1)).start t = loop (grammar level) t := by
    show start _ _ _ t = _
    unfold start
    simp only [ht]
  rw [misread, hstart]
  unfold loop
  rw [bind_eq haccept, bind_eq (expectBody_eq hp₂ hblock.1), passAll_append]
  refine (hbody.map (g := forever (t.loc.join block.loc) (label?.map Token.text)) (fun _ => rfl)
    fun xs' hxs' => ?_).item _
  rw [erase, erase, hxs']

/-- The beginning of a conditional statement, up to its first block. -/
theorem conditional_test {yesBlock : Token} {condition : Expr} {vs : List Token}
    (htest : Expr.Rereads us condition) (hyes : yesBlock.IsBodyOf inner)
    (hlevel : totalWeight us ≤ level) (hp : p.rest = us ++ yesBlock :: vs) :
    ∃ condition', (Expr.grammar level).parse 0 p = .ok condition' (p.passAll us) ∧
      condition'.erase = condition.erase ∧
      expectBody (p.passAll us) = .ok yesBlock ((p.passAll us).pass yesBlock) ∧
      ((p.passAll us).pass yesBlock).rest = vs := by
  have hp₁ : (p.passAll us).rest = yesBlock :: vs := passAll_rest hp
  obtain ⟨condition', hparse, hcondition'⟩ := htest level p _ hlevel hp
    (Expr.stops_body (by rw [hp₁]; rfl) hyes.1)
  refine ⟨condition', hparse, hcondition', expectBody_eq hp₁ hyes.1, ?_⟩
  rw [pass_rest, hp₁]
  rfl

/-- A conditional statement without `else`. -/
theorem rereads_branch {block : Token} {condition : Expr} {b : Bool}
    (ht : t.reserved? = some .ifThen) (htest : Expr.Rereads us condition)
    (hblock : block.IsBodyOf inner) (h : Separated .semicolon (Rereads loops) b inner xs)
    (l : Location) : Rereads loops (t :: (us ++ [block])) (.branch l condition xs []) := by
  refine rereads_of_word ht (by decide) fun level p rest hlevel hp' hp hrest => ?_
  simp only [totalWeight_append, totalWeight_cons, weight_eq] at hlevel
  have hp₁ : (p.pass t).rest = us ++ block :: rest := by rw [pass_rest, hp]; simp
  have hweight : totalWeight us ≤ level + 1 := by omega
  obtain ⟨condition', hparse, hcondition', hexpect, hp₂⟩ :=
    conditional_test htest hblock hweight hp₁
  have hweight' : totalWeight block.children ≤ level := by omega
  have hbody := body_outcome hblock h hweight' (p := ((p.pass t).passAll us).pass block)
    (by rw [pass_loops, passAll_loops, pass_loops, hp'])
  have hnone := Ends.acceptElse (hp₂ ▸ hrest)
  rw [misread, misreadAny, Bool.or_false, start_ifThen ht]
  unfold conditional
  rw [bind_eq hparse, bind_eq hexpect, passAll_append]
  refine (hbody.map (g := fun yes => branch (t.loc.join block.loc) condition' yes [])
    (fun yes => ?_) fun yes hyes => ?_).item _
  · rw [bind_eq hnone]
    rfl
  · rw [erase, erase, hcondition', hyes]

/-- A conditional statement with `else`. -/
theorem rereads_branchElse {yesBlock noBlock : Token} {condition : Expr}
    {inner' elseTokens : List Token} {ys : List Statement} {b b' : Bool}
    (ht : t.reserved? = some .ifThen) (htest : Expr.Rereads us condition)
    (hyesBlock : yesBlock.IsBodyOf inner) (hyes : Separated .semicolon (Rereads loops) b inner xs)
    (hother : IsElse elseTokens) (hnoBlock : noBlock.IsBodyOf inner')
    (hno : Separated .semicolon (Rereads loops) b' inner' ys) (l : Location) :
    Rereads loops (t :: (us ++ yesBlock :: (elseTokens ++ [noBlock])))
      (.branch l condition xs ys) := by
  refine rereads_of_word ht (by decide) fun level p rest hlevel hp' hp hrest => ?_
  simp only [totalWeight_append, totalWeight_cons, weight_eq] at hlevel
  have hp₁ : (p.pass t).rest = us ++ yesBlock :: (elseTokens ++ noBlock :: rest) := by
    rw [pass_rest, hp]
    simp
  have hweight : totalWeight us ≤ level + 1 := by omega
  obtain ⟨condition', hparse, hcondition', hexpect, hp₂⟩ :=
    conditional_test htest hyesBlock hweight hp₁
  generalize hq : ((p.pass t).passAll us).pass yesBlock = q at hexpect hp₂
  have hloops : q.loops = loops := by rw [← hq, pass_loops, passAll_loops, pass_loops, hp']
  obtain ⟨other, helse⟩ := acceptElse_isElse hother hp₂
  have hp₃ : (q.passAll elseTokens).rest = noBlock :: rest := passAll_rest hp₂
  have hchained : accept (·.isReserved .ifThen) (q.passAll elseTokens)
      = .ok none (q.passAll elseTokens) :=
    accept_none fun u hu => by
      rw [hp₃] at hu
      cases hu
      exact isReserved_of_kind (by rw [hnoBlock.1.kind]; decide) _
  have hweight' : totalWeight yesBlock.children ≤ level := by omega
  have hweight'' : totalWeight noBlock.children ≤ level := by omega
  have hyesBody := body_outcome hyesBlock hyes hweight' hloops
  have hnoBody := body_outcome hnoBlock hno hweight''
    (p := (q.passAll elseTokens).pass noBlock) (by rw [pass_loops, passAll_loops, hloops])
  have hall : (p.pass t).passAll (us ++ yesBlock :: (elseTokens ++ [noBlock]))
      = (q.passAll elseTokens).pass noBlock := by
    rw [passAll_append, passAll_cons, passAll_append, hq]
    rfl
  rw [misread, start_ifThen ht, hall]
  unfold conditional
  rw [bind_eq hparse, bind_eq hexpect]
  refine (hyesBody.bind fun yes hyes => ?_).item _
  rw [bind_eq helse]
  dsimp only
  rw [bind_eq hchained]
  dsimp only
  rw [bind_eq (expectBody_eq hp₃ hnoBlock.1)]
  refine hnoBody.map (g := branch ((t.loc.join yesBlock.loc).join noBlock.loc) condition' yes)
    (fun _ => rfl) fun no hno => ?_
  rw [erase, erase, hcondition', hyes, hno]

end Reading

end Statement

end Offside
