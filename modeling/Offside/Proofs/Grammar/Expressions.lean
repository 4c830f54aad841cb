import Offside.Proofs.Grammar.Types

/-!
# Expressions that are read

Every expression that the grammar of expressions reads has a derivation.

* `Expr.power?`, `Expr.Halts`: how tightly a token continues an expression, whatever the level of the
  grammar, and that none continues it tighter than some power.
* `Expr.Reading`, `Expr.Sound`: an expression whose location leaves tokens out is continued by
  nothing that binds tighter than a binary operator. So the forms that bind tighter never begin with
  one.
* `Expr.grammar_sound`: the grammar of expressions reads derivable expressions only.
-/

namespace Offside

open Token Parse Parser Location

/-! ## Places -/

namespace Place

@[simp] theorem toExpr_loc (place : Place) : place.toExpr.loc = place.loc := by
  cases place <;> rw [toExpr] <;> rfl

mutual

/-- The place of an expression is named by that expression. -/
theorem toExpr_of_ofExpr : (e : Expr) → {place : Place} → ofExpr e = .ok place → place.toExpr = e
  | .ident l name, place, h => by
    cases h
    rw [toExpr]
  | .valueAt l address, place, h => by
    cases h
    rw [toExpr]
  | .index l base offset, place, h => by
    rw [ofExpr] at h
    cases hbase : ofExpr base with
    | error part =>
      rw [hbase] at h
      cases h
    | ok target =>
      rw [hbase] at h
      cases h
      rw [toExpr, toExpr_of_ofExpr base hbase]
  | .tuple l parts, place, h => by
    rw [ofExpr] at h
    cases hparts : ofExprs parts with
    | error part =>
      rw [hparts] at h
      cases h
    | ok targets =>
      rw [hparts] at h
      cases h
      rw [toExpr, toExprs_of_ofExprs parts hparts]
  | .addressOf .., _, h | .apply .., _, h | .asType .., _, h | .buffer .., _, h | .ifThen .., _, h
  | .number .., _, h => by
    cases h

/-- The places of some expressions are named by those expressions. -/
theorem toExprs_of_ofExprs :
    (es : List Expr) → {places : List Place} → ofExprs es = .ok places → toExprs places = es
  | [], places, h => by
    cases h
    rw [toExprs]
  | e :: es, places, h => by
    rw [ofExprs] at h
    cases he : ofExpr e with
    | error part =>
      rw [he] at h
      cases h
    | ok place =>
      rw [he] at h
      cases hes : ofExprs es with
      | error part =>
        rw [hes] at h
        cases h
      | ok others =>
        rw [hes] at h
        cases h
        rw [toExprs, toExpr_of_ofExpr e he, toExprs_of_ofExprs es hes]

end

end Place

/-! ## Expressions -/

namespace Expr

@[simp] theorem relocate_loc (e : Expr) (l : Location) : (e.relocate l).loc = l := by
  cases e <;> rfl

@[simp] theorem relocate_parts (e : Expr) (l : Location) : (e.relocate l).parts = e.parts := by
  cases e <;> rfl

/-- The location of an expression spans the tokens that it does not skip. -/
theorem ReadFrom.spans {s c : List Token} {e : Expr} (h : ReadFrom s c e) : e.loc.Spans c := by
  cases h with
  | ident | number => exact spans_singleton _
  | paren _ _ _ located =>
    rw [relocate_loc]
    exact located.spans
  | tuple _ _ _ located | buffer _ _ located | negate _ _ located | valueAt _ _ located
  | addressOf _ _ located | ifThen _ _ _ _ _ _ _ _ _ located | index _ _ _ _ located
  | listCall _ _ _ located | juxtaposition _ _ _ located | ascription _ _ _ located
  | backtick _ _ _ _ _ located | operator _ _ _ _ located => exact located.spans

/-- An expression is among its tokens. -/
theorem ReadFrom.amid {s c : List Token} {e : Expr} (h : ReadFrom s c e) :
    e.loc.Amid (s ++ c) := h.spans.amid.append_right s

/-- The parts of an expression are among its tokens. -/
theorem ReadFrom.parts_amid {s c : List Token} {e : Expr} (h : ReadFrom s c e) :
    ∀ part ∈ e.parts, part.Amid (s ++ c) := by
  intro part hpart
  have hwithin : part.Within e.loc → part.Amid (s ++ c) := h.amid.of_within
  cases h with
  | ident | number => exact absurd hpart List.not_mem_nil
  | paren _ _ _ located =>
    rw [relocate_parts] at hpart
    rw [relocate_loc] at hwithin
    exact hwithin (located.contains part hpart)
  | tuple _ _ _ located | buffer _ _ located | negate _ _ located | valueAt _ _ located
  | addressOf _ _ located | ifThen _ _ _ _ _ _ _ _ _ located | index _ _ _ _ located
  | listCall _ _ _ located | juxtaposition _ _ _ located | ascription _ _ _ located
  | backtick _ _ _ _ _ located => exact hwithin (located.contains part hpart)
  | operator leftFrom _ _ _ located =>
    -- the left operand is outside, but among the skipped tokens
    simp only [parts, List.map_cons, List.map_nil, List.mem_cons, List.not_mem_nil,
      or_false] at hpart
    rcases hpart with rfl | rfl | rfl
    · exact hwithin (located.contains _ List.mem_cons_self)
    · exact leftFrom.amid.append_left _
    · exact hwithin (located.contains _ (List.mem_cons_of_mem _ List.mem_cons_self))

/-- The tokens of an expression are not empty. -/
theorem ReadFrom.ne_nil {s c : List Token} {e : Expr} (h : ReadFrom s c e) : c ≠ [] :=
  h.spans.ne_nil

/-- Tokens that begin with some tokens begin as those do. -/
theorem head?_append_of_ne_nil {ts : List Token} (h : ts ≠ []) (us : List Token) :
    (ts ++ us).head? = ts.head? := by
  obtain ⟨t, ts, rfl⟩ := List.exists_cons_of_ne_nil h
  rfl

/-- The location of an expression does not begin with a semicolon. -/
theorem ReadFrom.covered_head {s c : List Token} {e : Expr} (h : ReadFrom s c e) {t : Token}
    (ht : c.head? = some t) : t.kind ≠ .semicolon := by
  match h with
  | .ident kind _ | .number kind _ | .operator _ kind _ _ _ _ =>
    cases ht
    rw [kind]
    decide
  | .paren bracket _ _ _ | .tuple bracket _ _ _ | .buffer bracket _ _ =>
    cases ht
    rw [kind_of_blockKind? (isBlock_iff.1 bracket)]
    decide
  | .negate word _ _ | .valueAt word _ _ | .addressOf word _ _
  | .ifThen word _ _ _ _ _ _ _ _ _ =>
    cases ht
    rw [kind_of_reserved? (isReserved_iff.1 word)]
    decide
  | .index left _ _ _ _ | .listCall left _ _ _ | .juxtaposition left _ _ _
  | .ascription left _ _ _ | .backtick left _ _ _ _ _ =>
    exact left.covered_head (head?_append_of_ne_nil left.ne_nil _ ▸ ht)

/-- No expression begins with a semicolon. -/
theorem ReadFrom.head_kind {s c : List Token} {e : Expr} (h : ReadFrom s c e) {t : Token}
    (ht : (s ++ c).head? = some t) : t.kind ≠ .semicolon := by
  by_cases hs : s = []
  · subst hs
    exact h.covered_head ht
  · -- only two forms skip tokens, and those are tokens of their left operand
    match h with
    | .operator left _ _ _ _ _ =>
      exact left.head_kind (head?_append_of_ne_nil hs _ ▸ ht)
    | .backtick left _ _ _ _ _ =>
      rw [head?_append_of_ne_nil hs] at ht
      exact left.head_kind ((head?_append_of_ne_nil hs _).trans ht)
    | .ident _ _ | .number _ _ | .paren _ _ _ _ | .tuple _ _ _ _ | .buffer _ _ _ | .negate _ _ _
    | .valueAt _ _ _ | .addressOf _ _ _ | .ifThen _ _ _ _ _ _ _ _ _ _ | .index _ _ _ _ _
    | .listCall _ _ _ _ | .juxtaposition _ _ _ _ | .ascription _ _ _ _ => exact absurd rfl hs

/-- The location of an expression is not empty. -/
theorem ReadFrom.start_ne_stop {s c : List Token} {e : Expr} (h : ReadFrom s c e)
    (ho : Ordered c) : e.loc.start ≠ e.loc.stop := by
  intro heq
  obtain ⟨t, us, rfl, hstart⟩ := h.spans.exists_head
  have hwithin := (amid_head t us).within h.spans ho
  refine ((proper_iff t).1 ho.head).2.2.1 (h.covered_head rfl) ?_
  refine Cursor.le_antisymm t.loc.start_le_stop ?_
  rw [hstart, heq]
  exact hwithin.2

/-- The members of a list of expressions are among its tokens. -/
theorem ListFrom.amid {comma : Bool} {ts : List Token} {es : List Expr}
    (h : ListFrom comma ts es) : ∀ part ∈ es.map loc, part.Amid ts := by
  induction es generalizing comma ts with
  | nil => exact fun part hpart => absurd hpart List.not_mem_nil
  | cons e es ih =>
    intro part hpart
    rw [List.map_cons, List.mem_cons] at hpart
    cases h with
    | last h =>
      rcases hpart with rfl | hpart
      · exact h.amid
      · exact absurd hpart List.not_mem_nil
    | more h _ others =>
      rcases hpart with rfl | hpart
      · exact h.amid.append_left _
      · exact ((ih others part hpart).cons _).append_right _

/-- Juxtaposed arguments are among their tokens. -/
theorem ArgsFrom.amid {ts : List Token} {es : List Expr} (h : ArgsFrom ts es) :
    ∀ part ∈ es.map loc, part.Amid ts := by
  induction es generalizing ts with
  | nil => exact fun part hpart => absurd hpart List.not_mem_nil
  | cons e es ih =>
    intro part hpart
    rw [List.map_cons, List.mem_cons] at hpart
    cases h with
    | cons h others =>
      rcases hpart with rfl | hpart
      · exact h.spans.amid.append_left _
      · exact (ih others part hpart).append_right _

/-- Tokens that an expression is read from, whatever its location skips. -/
def From (ts : List Token) (e : Expr) : Prop := ∃ s c, ts = s ++ c ∧ ReadFrom s c e

/-- A list of derivable expressions is derivable. -/
theorem ListFrom.of_separated {comma : Bool} {ts : List Token} {es : List Expr}
    (h : Separated .comma From comma ts es) : ListFrom comma ts es := by
  induction h with
  | nil => exact .nil
  | last h =>
    obtain ⟨s, c, rfl, h⟩ := h
    exact .last h
  | more h ht _ ih =>
    obtain ⟨s, c, rfl, h⟩ := h
    exact .more h ht ih

/-! ## How tightly a token continues an expression -/

/-- The tightest that a binary operator binds. -/
def operatorPower : Nat := 6

/-- A binary operator is listed with its binding power. -/
theorem mem_of_bindingPower? {operator : String} {n : Nat} (h : bindingPower? operator = some n) :
    (operator, n) ∈ binaryOperators := by
  obtain ⟨before, after, heq, -⟩ := List.lookup_eq_some_iff.1 h
  rw [heq]
  simp

/-- No binary operator binds tighter. -/
theorem bindingPower?_le {operator : String} {n : Nat} (h : bindingPower? operator = some n) :
    n ≤ operatorPower := by
  have hall : ∀ entry ∈ binaryOperators, entry.2 ≤ operatorPower := by decide
  exact hall _ (mem_of_bindingPower? h)

/-- Every binary operator binds. -/
theorem bindingPower?_pos {operator : String} {n : Nat} (h : bindingPower? operator = some n) :
    0 < n := by
  have hall : ∀ entry ∈ binaryOperators, 0 < entry.2 := by decide
  exact hall _ (mem_of_bindingPower? h)

/-- How tightly `t` continues the expression before it as an argument, if it does. -/
def argumentPower? (p : Parser) (t : Token) : Option Nat :=
  if beginsArgument p t then some applicationPower else none

/-- How tightly `t` continues the expression before it, if it does. -/
def power? (p : Parser) (t : Token) : Option Nat :=
  match t.kind with
  | .operator => bindingPower? t.text
  | .reserved => if t.isReserved .asType then some ascriptionPower else argumentPower? p t
  | .block =>
    match t.blockKind? with
    | some (.bracketed .backtick) => some backtickPower
    | some (.bracketed .square) | some (.bracketed .paren) =>
      if p.adjacent t then some attachedPower else argumentPower? p t
    | _ => argumentPower? p t
  | _ => argumentPower? p t

/-- Nothing that binds tighter than `power` continues an expression here. -/
def Halts (power : Nat) (p : Parser) : Prop :=
  ∀ t n, p.rest.head? = some t → power? p t = some n → n ≤ power

theorem Halts.mono {m n : Nat} {p : Parser} (h : Halts m p) (hmn : m ≤ n) : Halts n p :=
  fun t k ht hk => Nat.le_trans (h t k ht hk) hmn

theorem juxtaposition?_power (parts : Grammar Expr) (p : Parser) (t : Token) :
    (juxtaposition? parts p t).map Extension.power = argumentPower? p t := by
  unfold juxtaposition? argumentPower?
  split <;> rfl

/-- The level of a grammar has no influence on how tightly a token binds. -/
theorem extend?_power (parts : Grammar Expr) (types : Grammar TypeExpr) (p : Parser) (t : Token) :
    (extend? parts types p t).map Extension.power = power? p t := by
  have hargument := juxtaposition?_power parts p t
  unfold extend? power?
  cases t.kind
  case operator =>
    dsimp only
    cases bindingPower? t.text <;> rfl
  case reserved =>
    dsimp only
    split
    · rfl
    · exact hargument
  case block =>
    rcases t.blockKind? with _ | ((_ | _ | _ | _) | _)
    case some.bracketed.backtick => rfl
    case some.bracketed.square | some.bracketed.paren =>
      dsimp only
      split
      · rfl
      · exact hargument
    all_goals exact hargument
  all_goals exact hargument

/-- The forms by which a token continues an expression. -/
theorem extend?_cases {parts : Grammar Expr} {types : Grammar TypeExpr} {p : Parser} {t : Token}
    {extension : Extension Expr} (h : extend? parts types p t = some extension) :
    (∃ n, t.kind = .operator ∧ bindingPower? t.text = some n ∧ extension = infixCall parts t n) ∨
    (t.isReserved .asType ∧ extension = ascription types) ∨
    (t.isBlock (.bracketed .backtick) ∧ extension = backtickCall parts t) ∨
    (t.isBlock (.bracketed .square) ∧ extension = indexing parts t) ∨
    (t.isBlock (.bracketed .paren) ∧ extension = listCall parts t) ∨
    extension = juxtaposition parts t := by
  have hargument : juxtaposition? parts p t = some extension →
      extension = juxtaposition parts t := by
    intro h
    unfold juxtaposition? at h
    split at h
    · exact (Option.some.inj h).symm
    · cases h
  unfold extend? at h
  cases hkind : t.kind
  case operator =>
    simp only [hkind] at h
    obtain ⟨n, hn, rfl⟩ := Option.map_eq_some_iff.1 h
    exact .inl ⟨n, rfl, hn, rfl⟩
  case reserved =>
    simp only [hkind] at h
    split at h
    · exact .inr (.inl ⟨by assumption, (Option.some.inj h).symm⟩)
    · exact .inr (.inr (.inr (.inr (.inr (hargument h)))))
  case block =>
    simp only [hkind] at h
    rcases hblock : t.blockKind? with _ | ((_ | _ | _ | _) | _)
    case some.bracketed.backtick =>
      simp only [hblock] at h
      exact .inr (.inr (.inl ⟨isBlock_iff.2 hblock, (Option.some.inj h).symm⟩))
    case some.bracketed.square =>
      simp only [hblock] at h
      split at h
      · refine .inr (.inr (.inr (.inl ⟨?_, (Option.some.inj h).symm⟩)))
        exact isBlock_iff.2 hblock
      · exact .inr (.inr (.inr (.inr (.inr (hargument h)))))
    case some.bracketed.paren =>
      simp only [hblock] at h
      split at h
      · refine .inr (.inr (.inr (.inr (.inl ⟨?_, (Option.some.inj h).symm⟩))))
        exact isBlock_iff.2 hblock
      · exact .inr (.inr (.inr (.inr (.inr (hargument h)))))
    all_goals
      simp only [hblock] at h
      exact .inr (.inr (.inr (.inr (.inr (hargument h)))))
  all_goals
    simp only [hkind] at h
    exact .inr (.inr (.inr (.inr (.inr (hargument h)))))

theorem halts_of_halted {level power : Nat} {p : Parser}
    (h : (grammar (level + 1)).Halted power p) : Halts power p := by
  intro t n ht hn
  rw [← extend?_power (grammar level) (TypeExpr.grammar (level + 1))] at hn
  obtain ⟨extension, hextension, rfl⟩ := Option.map_eq_some_iff.1 hn
  exact h t extension ht hextension

/-! ## Forms by their first token -/

/-- An expression was read from some tokens, up to where the parser is. If its location skips tokens,
then it was not read as a tight operand, and nothing tight continues it. -/
def Reading (power : Nat) (ts : List Token) (e : Expr) (q : Parser) : Prop :=
  ∃ s c, ts = s ++ c ∧ ReadFrom s c e ∧
    (s ≠ [] → power < operatorPower ∧ Halts operatorPower q)

/-- A tight operand skips nothing. -/
theorem Reading.tight {power : Nat} {ts : List Token} {e : Expr} {q : Parser}
    (h : Reading power ts e q) (hpower : operatorPower ≤ power) : ReadFrom [] ts e := by
  obtain ⟨s, c, rfl, hread, hskip⟩ := h
  cases s with
  | nil => exact hread
  | cons t us =>
    obtain ⟨hlt, -⟩ := hskip (List.cons_ne_nil t us)
    omega

/-- A grammar that reads derivable expressions only, each as far as it goes. -/
def Sound (g : Grammar Expr) : Prop :=
  ∀ power t p e q, Ordered (t :: p.rest) → g.continueFrom power t p = .ok e q →
    ∃ more, p.Consumes more q ∧ Reading power (t :: more) e q ∧ Halts power q

theorem Sound.parse {g : Grammar Expr} (h : Sound g) {power : Nat} {p q : Parser} {e : Expr}
    (ho : Ordered p.rest) (hok : g.parse power p = .ok e q) :
    ∃ used, p.Consumes used q ∧ Reading power used e q ∧ Halts power q := by
  obtain ⟨t, ht, hok⟩ := Grammar.parse_ok hok
  obtain ⟨more, hmore, hread, hhalts⟩ := h _ _ _ _ _ (ht.ordered_cons ho) hok
  exact ⟨t :: more, ht.trans hmore, hread, hhalts⟩

/-- Where how an expression continues does not matter, it is read from some tokens. -/
theorem Sound.reads {g : Grammar Expr} (h : Sound g) (loops : List (Option String))
    (power : Nat) : Reads loops (g.parse power) From := by
  intro p e q _ ho hok
  obtain ⟨used, hused, ⟨s, c, hsc, hread, -⟩, -⟩ := h.parse ho hok
  exact ⟨used, hused, s, c, hsc, hread⟩

variable {parts : Grammar Expr}

theorem expectPlace_ok {e : Expr} {target : Place} {p q : Parser}
    (h : e.expectPlace p = .ok target q) : q = p ∧ target.toExpr = e := by
  unfold expectPlace at h
  cases he : Place.ofExpr e with
  | ok place =>
    simp only [he] at h
    obtain ⟨rfl, rfl⟩ := pure_ok.1 h
    exact ⟨rfl, Place.toExpr_of_ofExpr e he⟩
  | error part =>
    simp only [he] at h
    exact absurd h fail_ne_ok

/-- A sign and its operand. -/
theorem unary_reads (hparts : Sound parts) {t : Token} {sign : Reserved} {p q : Parser} {e : Expr}
    (ho : Ordered (t :: p.rest)) (hsign : t.isReserved sign)
    (hword : sign = .negate ∨ sign = .valueAt ∨ sign = .addressOf)
    (hok : unary parts t sign p = .ok e q) :
    ∃ more, p.Consumes more q ∧ ReadFrom [] (t :: more) e := by
  unfold unary at hok
  obtain ⟨operand, r, hoperand, hok⟩ := bind_ok.1 hok
  obtain ⟨used, hused, hreading, -⟩ := hparts.parse ho.tail hoperand
  have hread : ReadFrom [] used operand := hreading.tight (by decide)
  have hall : Ordered (t :: used) := (hused.ordered_before (s := [t]) ho).1
  have hspans : (t.loc.join operand.loc).Spans (t :: used) :=
    (spans_singleton t).join (s := []) hread.spans hall
  have hamid : operand.loc.Amid (t :: used) := hread.spans.amid.cons t
  rcases hword with rfl | rfl | rfl
  · obtain ⟨rfl, rfl⟩ := pure_ok.1 hok
    refine ⟨used, hused, .negate hsign hread (covers_whole hspans hall ?_)⟩
    simp only [List.mem_cons, List.not_mem_nil, or_false]
    rintro part (rfl | rfl)
    · exact amid_head t used
    · exact hamid
  · obtain ⟨rfl, rfl⟩ := pure_ok.1 hok
    refine ⟨used, hused, .valueAt hsign hread (covers_whole hspans hall ?_)⟩
    simpa using hamid
  · obtain ⟨target, r', htarget, hresult⟩ := bind_ok.1 hok
    obtain ⟨rfl, rfl⟩ := expectPlace_ok htarget
    obtain ⟨rfl, rfl⟩ := pure_ok.1 hresult
    refine ⟨used, hused, .addressOf hsign hread (covers_whole hspans hall ?_)⟩
    simpa using hamid

/-- The interior of a block that holds one expression. -/
theorem Sound.within (hparts : Sound parts) {block : Token} {power : Nat} {p q : Parser} {e : Expr}
    (hblock : block.Proper) (hok : Parse.within block (parts.parse power) p = .ok e q) :
    q = p ∧ ∃ s c, block.children = s ++ c ∧ ReadFrom s c e :=
  (hparts.reads p.loops power).within rfl hblock hok

/-- The rest of a conditional. -/
theorem conditional_reads (hparts : Sound parts) {t : Token} {p q : Parser} {e : Expr}
    (ho : Ordered (t :: p.rest)) (hword : t.isReserved .ifThen)
    (hok : conditional parts t p = .ok e q) :
    ∃ more, p.Consumes more q ∧ ReadFrom [] (t :: more) e := by
  unfold conditional at hok
  obtain ⟨condition, r₁, hcondition, hok⟩ := bind_ok.1 hok
  obtain ⟨yesBlock, r₂, hyesBlock, hok⟩ := bind_ok.1 hok
  obtain ⟨yes, r₃, hyes, hok⟩ := bind_ok.1 hok
  obtain ⟨else?, r₄, helse, hbranch⟩ := bind_ok.1 hok
  obtain ⟨used, hused, ⟨s, c, rfl, hread, -⟩, -⟩ := hparts.parse ho.tail hcondition
  have ho₁ := hused.ordered ho.tail
  obtain ⟨hyesUsed, hyesBody⟩ := expectBody_ok hyesBlock
  obtain ⟨rfl, sYes, cYes, hyesIn, hyesRead⟩ := hparts.within (hyesUsed.proper ho₁) hyes
  have ho₂ := hyesUsed.ordered ho₁
  rcases acceptElse_ok helse with ⟨rfl, rfl⟩ | ⟨u, elseTokens, rfl, helseUsed, hisElse⟩
  · obtain ⟨next?, r₅, -, hfail⟩ := bind_ok.1 hbranch
    exact absurd hfail unexpected_ne_ok
  · obtain ⟨noBlock, r₅, hnoBlock, hbranch⟩ := bind_ok.1 hbranch
    obtain ⟨no, r₆, hno, hresult⟩ := bind_ok.1 hbranch
    obtain ⟨rfl, rfl⟩ := pure_ok.1 hresult
    have ho₃ := helseUsed.ordered ho₂
    obtain ⟨hnoUsed, hnoBody⟩ := expectBody_ok hnoBlock
    obtain ⟨rfl, sNo, cNo, hnoIn, hnoRead⟩ := hparts.within (hnoUsed.proper ho₃) hno
    have hp := ((hused.trans hyesUsed).trans helseUsed).trans hnoUsed
    have htokens : s ++ c ++ [yesBlock] ++ elseTokens ++ [noBlock]
        = s ++ c ++ yesBlock :: elseTokens ++ [noBlock] := by simp
    rw [htokens] at hp
    have hall := (hp.ordered_before (s := [t]) ho).1
    refine ⟨_, hp, .ifThen hword hread hyesBody hyesIn hyesRead hisElse hnoBody hnoIn hnoRead ?_⟩
    refine covers_whole ((spans_singleton t).join (spans_singleton noBlock) hall) hall ?_
    have hyesAmid : yes.loc.Amid yesBlock.children := hyesIn ▸ hyesRead.amid
    have hnoAmid : no.loc.Amid noBlock.children := hnoIn ▸ hnoRead.amid
    simp only [List.mem_cons, List.not_mem_nil, or_false]
    rintro part (rfl | rfl | rfl)
    · exact ((hread.amid.append_left _).append_left _).cons t
    · exact (((hyesAmid.interior elseTokens).append_right _).append_left _).cons t
    · exact ((hnoAmid.interior []).append_right _).cons t

/-- What stands in parentheses is read as one expression or as a tuple. -/
theorem ofParts_reads {t : Token} {comma : Bool} {elements : List Expr} (ht : t.Proper)
    (hblock : t.blockKind? = some (.bracketed .paren)) (h : ListFrom comma t.children elements) :
    ReadFrom [] [t] (ofParts t.loc (elements, comma)) := by
  have hbracket : t.isBlock (.bracketed .paren) := isBlock_iff.2 hblock
  have htuple : comma = true ∨ elements = [] → ReadFrom [] [t] (.tuple t.loc elements) :=
    fun shape => .tuple hbracket h shape (covers_block ht h.amid)
  have hparen : ∀ {s c e}, t.children = s ++ c → ReadFrom s c e →
      ReadFrom [] [t] (e.relocate t.loc) :=
    fun hsc h => .paren hbracket hsc h (covers_block ht (hsc ▸ h.parts_amid))
  generalize hchildren : t.children = ts at h hparen
  cases h with
  | nil => exact htuple (.inr rfl)
  | last h => exact hparen rfl h
  | more h _ others =>
    cases others with
    | nil | last | more => exact htuple (.inl rfl)

/-- Reading an expression that begins with a token, given that its parts are read. -/
theorem start_reads (hparts : Sound parts) {t : Token} {p q : Parser} {e : Expr}
    (ho : Ordered (t :: p.rest)) (hok : start parts t p = .ok e q) :
    ∃ more, p.Consumes more q ∧ ReadFrom [] (t :: more) e := by
  have hproper : t.Proper := ho.head
  obtain ⟨hname, hnumeral, -⟩ := (proper_iff t).1 hproper
  unfold start at hok
  cases hkind : t.kind
  case identifier =>
    simp only [hkind] at hok
    obtain ⟨rfl, rfl⟩ := pure_ok.1 hok
    exact ⟨[], Consumes.refl _, .ident hkind (hname hkind)⟩
  case number =>
    simp only [hkind] at hok
    obtain ⟨rfl, rfl⟩ := pure_ok.1 hok
    exact ⟨[], Consumes.refl _, .number hkind (hnumeral hkind)⟩
  case reserved =>
    simp only [hkind] at hok
    rcases hreserved : t.reserved? with _ | w
    · simp only [hreserved] at hok
      exact absurd hok unexpected_ne_ok
    · cases w
      case negate =>
        simp only [hreserved] at hok
        exact unary_reads hparts ho (isReserved_iff.2 hreserved) (by decide) hok
      case valueAt =>
        simp only [hreserved] at hok
        exact unary_reads hparts ho (isReserved_iff.2 hreserved) (by decide) hok
      case addressOf =>
        simp only [hreserved] at hok
        exact unary_reads hparts ho (isReserved_iff.2 hreserved) (by decide) hok
      case ifThen =>
        simp only [hreserved] at hok
        exact conditional_reads hparts ho (isReserved_iff.2 hreserved) hok
      all_goals
        simp only [hreserved] at hok
        exact absurd hok unexpected_ne_ok
  case block =>
    simp only [hkind] at hok
    rcases hblock : t.blockKind? with _ | ((_ | _ | _ | _) | _)
    case some.bracketed.paren =>
      simp only [hblock] at hok
      obtain ⟨⟨elements, comma⟩, r, helements, hok⟩ := bind_ok.1 hok
      obtain ⟨rfl, rfl⟩ := pure_ok.1 hok
      obtain ⟨rfl, hlist⟩ := (hparts.reads _ _).list.within rfl hproper helements
      exact ⟨[], Consumes.refl _, ofParts_reads hproper hblock (.of_separated hlist)⟩
    case some.bracketed.square =>
      simp only [hblock] at hok
      obtain ⟨⟨elements, comma⟩, r, helements, hok⟩ := bind_ok.1 hok
      obtain ⟨rfl, rfl⟩ := pure_ok.1 hok
      obtain ⟨rfl, hlist⟩ := (hparts.reads _ _).list.within rfl hproper helements
      have hfrom := ListFrom.of_separated hlist
      exact ⟨[], Consumes.refl _, .buffer (isBlock_iff.2 hblock) hfrom
        (covers_block hproper hfrom.amid)⟩
    all_goals
      simp only [hblock] at hok
      exact absurd hok unexpected_ne_ok
  all_goals
    simp only [hkind] at hok
    exact absurd hok unexpected_ne_ok

/-! ## Forms by the token that continues them -/

section Extensions

variable {s c ts : List Token} {left e : Expr} {t : Token} {p q : Parser}

/-- A binary operator and its right operand. -/
theorem infixCall_reads (hparts : Sound parts) {n : Nat} (hleft : ReadFrom s c left)
    (hkind : t.kind = .operator) (hn : bindingPower? t.text = some n)
    (ho : Ordered (s ++ c ++ t :: p.rest)) (hok : (infixCall parts t n).combine left p = .ok e q) :
    ∃ more, p.Consumes more q ∧ ReadFrom (s ++ c) (t :: more) e ∧ Halts n q := by
  obtain ⟨right, r, hright, hok⟩ := bind_ok.1 hok
  obtain ⟨rfl, rfl⟩ := pure_ok.1 hok
  obtain ⟨used, hused, ⟨sRight, cRight, rfl, hread, -⟩, hhalts⟩ :=
    hparts.parse ho.of_append.2.tail hright
  have hall : Ordered (s ++ c ++ t :: (sRight ++ cRight)) := by
    have := (hused.ordered_before (s := s ++ c ++ [t]) (by simpa using ho)).1
    simpa using this
  have hspans : (t.loc.join right.loc).Spans (t :: (sRight ++ cRight)) :=
    (spans_singleton t).join hread.spans hall.of_append.2
  refine ⟨_, hused, .operator hleft hkind hn hread ?_ ?_, hhalts⟩
  · refine covers_end hspans hall (fun u hu => hleft.head_kind hu) ?_
    simp only [List.mem_cons, List.not_mem_nil, or_false]
    rintro part (rfl | rfl)
    · exact amid_head t _
    · exact hread.amid.cons t
  · -- the left operand is not empty and ends before the operator begins
    rintro ⟨hstart, -⟩
    obtain ⟨a, b, hab⟩ := hall
    obtain ⟨m, hm, hrest⟩ := inOrder_append.1 hab
    have hbegin : (t.loc.join right.loc).start = t.loc.start :=
      (Option.some.inj hspans.1).symm
    refine hleft.start_ne_stop (Ordered.of_append ⟨a, m, hm⟩).2 ?_
    refine Cursor.le_antisymm left.loc.start_le_stop ?_
    refine Cursor.le_trans (hleft.amid a m hm).2 (Cursor.le_trans (inOrder_cons.1 hrest).1 ?_)
    rw [← hbegin]
    exact hstart

/-- A function in backticks and its right operand. -/
theorem backtickCall_reads (hparts : Sound parts) (hleft : ReadFrom s c left)
    (hblock : t.isBlock (.bracketed .backtick)) (ho : Ordered (s ++ c ++ t :: p.rest))
    (hok : (backtickCall parts t).combine left p = .ok e q) :
    ∃ more, p.Consumes more q ∧ ReadFrom s (c ++ t :: more) e ∧ Halts backtickPower q := by
  have hproper : t.Proper := ho.of_append.2.head
  obtain ⟨function, r, hfunction, hok⟩ := bind_ok.1 hok
  obtain ⟨right, r', hright, hresult⟩ := bind_ok.1 hok
  obtain ⟨rfl, rfl⟩ := pure_ok.1 hresult
  obtain ⟨rfl, sFun, cFun, hin, hfun⟩ := hparts.within hproper hfunction
  obtain ⟨used, hused, ⟨sRight, cRight, rfl, hread, -⟩, hhalts⟩ :=
    hparts.parse ho.of_append.2.tail hright
  have hall : Ordered (s ++ (c ++ t :: (sRight ++ cRight))) := by
    have := (hused.ordered_before (s := s ++ c ++ [t]) (by simpa using ho)).1
    simpa using this
  have hspans : (left.loc.join right.loc).Spans (c ++ t :: (sRight ++ cRight)) :=
    hleft.spans.join (s := t :: sRight) hread.spans hall.of_append.2
  refine ⟨_, hused, .backtick hleft hblock hin hfun hread ?_, hhalts⟩
  refine covers_end hspans hall (fun u hu => ?_) ?_
  · refine hleft.head_kind ?_
    cases s with
    | nil => cases hu
    | cons v vs => exact hu
  · have hamid : function.loc.Amid t.children := hin ▸ hfun.amid
    simp only [List.mem_cons, List.not_mem_nil, or_false]
    rintro part (rfl | rfl | rfl)
    · exact (hamid.interior _).append_right c
    · exact hleft.spans.amid.append_left _
    · exact (hread.amid.cons t).append_right c

/-- A type ascription. -/
theorem ascription_reads {level : Nat} (hleft : ReadFrom [] ts left) (hsign : t.isReserved .asType)
    (ho : Ordered (ts ++ t :: p.rest))
    (hok : (ascription (TypeExpr.grammar level)).combine left p = .ok e q) :
    ∃ more, p.Consumes more q ∧ ReadFrom [] (ts ++ t :: more) e := by
  obtain ⟨type, r, htype, hok⟩ := bind_ok.1 hok
  obtain ⟨rfl, rfl⟩ := pure_ok.1 hok
  obtain ⟨used, hused, hread⟩ :=
    TypeExpr.grammar_reads level p.loops 0 p type _ rfl ho.of_append.2.tail htype
  have hall : Ordered (ts ++ t :: used) := by
    have := (hused.ordered_before (s := ts ++ [t]) (by simpa using ho)).1
    simpa using this
  refine ⟨used, hused, .ascription hleft hsign hread ?_⟩
  refine covers_whole (hleft.spans.join (s := [t]) hread.spans hall) hall ?_
  simp only [List.mem_cons, List.not_mem_nil, or_false]
  rintro part (rfl | rfl)
  · exact hleft.spans.amid.append_left _
  · exact (hread.spans.amid.cons t).append_right ts

/-- An index. -/
theorem indexing_reads (hparts : Sound parts) (hleft : ReadFrom [] ts left)
    (hblock : t.isBlock (.bracketed .square)) (ho : Ordered (ts ++ t :: p.rest))
    (hok : (indexing parts t).combine left p = .ok e q) :
    ∃ more, p.Consumes more q ∧ ReadFrom [] (ts ++ t :: more) e := by
  obtain ⟨offset, r, hoffset, hok⟩ := bind_ok.1 hok
  obtain ⟨rfl, rfl⟩ := pure_ok.1 hok
  obtain ⟨rfl, s, c, hin, hread⟩ := hparts.within ho.of_append.2.head hoffset
  have hall : Ordered (ts ++ [t]) := by
    rw [← List.singleton_append, ← List.append_assoc] at ho
    exact ho.of_append.1
  refine ⟨[], Consumes.refl _, .index hleft hblock hin hread ?_⟩
  refine covers_whole (hleft.spans.join (s := []) (spans_singleton t) hall) hall ?_
  have hamid : offset.loc.Amid t.children := hin ▸ hread.amid
  simp only [List.mem_cons, List.not_mem_nil, or_false]
  rintro part (rfl | rfl)
  · exact hleft.spans.amid.append_left _
  · exact (hamid.interior []).append_right ts

/-- A list of arguments in parentheses. -/
theorem listCall_reads (hparts : Sound parts) (hleft : ReadFrom [] ts left)
    (hblock : t.isBlock (.bracketed .paren)) (ho : Ordered (ts ++ t :: p.rest))
    (hok : (listCall parts t).combine left p = .ok e q) :
    ∃ more, p.Consumes more q ∧ ReadFrom [] (ts ++ t :: more) e := by
  obtain ⟨⟨args, comma⟩, r, hargs, hok⟩ := bind_ok.1 hok
  obtain ⟨rfl, rfl⟩ := pure_ok.1 hok
  obtain ⟨rfl, hlist⟩ := (hparts.reads _ _).list.within rfl ho.of_append.2.head hargs
  have hfrom := ListFrom.of_separated hlist
  have hall : Ordered (ts ++ [t]) := by
    rw [← List.singleton_append, ← List.append_assoc] at ho
    exact ho.of_append.1
  refine ⟨[], Consumes.refl _, .listCall hleft hblock hfrom ?_⟩
  refine covers_whole (hleft.spans.join (s := []) (spans_singleton t) hall) hall ?_
  intro part hpart
  rcases List.mem_cons.1 hpart with rfl | hpart
  · exact hleft.spans.amid.append_left _
  · exact ((hfrom.amid part hpart).interior []).append_right ts

/-- Juxtaposed arguments are read in turn. -/
theorem argumentsUpTo_reads (hparts : Sound parts) {bound : Nat} {args : List Expr}
    (ho : Ordered p.rest) (hok : argumentsUpTo parts bound p = .ok args q) :
    ∃ used, p.Consumes used q ∧ ArgsFrom used args := by
  induction bound generalizing p args with
  | zero =>
    obtain ⟨rfl, rfl⟩ := pure_ok.1 hok
    exact ⟨[], Consumes.refl _, .nil⟩
  | succ bound ih =>
    unfold argumentsUpTo at hok
    split at hok
    · cases hok
      exact ⟨[], Consumes.refl _, .nil⟩
    · rename_i t rest hrest
      split at hok
      · obtain ⟨arg, r, harg, hok⟩ := bind_ok.1 hok
        obtain ⟨others, r', hothers, hok⟩ := bind_ok.1 hok
        obtain ⟨rfl, rfl⟩ := pure_ok.1 hok
        have ht := Consumes.one hrest
        obtain ⟨more, hmore, hreading, -⟩ := hparts _ _ _ _ _ (ht.ordered_cons ho) harg
        have hr := ht.trans hmore
        obtain ⟨used, hused, hfrom⟩ := ih (hr.ordered ho) hothers
        exact ⟨_, hr.trans hused, .cons (hreading.tight (by decide)) hfrom⟩
      · cases hok
        exact ⟨[], Consumes.refl _, .nil⟩

/-- The last of some juxtaposed arguments spans the last of their tokens. -/
theorem ArgsFrom.exists_last {us : List Token} {args : List Expr} (h : ArgsFrom us args)
    (hne : args ≠ []) : ∃ last vs ws, args.getLast? = some last ∧ us = vs ++ ws ∧
      last.loc.Spans ws := by
  induction args generalizing us with
  | nil => exact absurd rfl hne
  | cons arg args ih =>
    cases h with
    | @cons ts _ _ _ h others =>
      cases args with
      | nil =>
        cases others
        exact ⟨arg, [], ts, rfl, by simp, h.spans⟩
      | cons arg' args =>
        obtain ⟨last, vs, ws, hlast, rfl, hspans⟩ := ih others (List.cons_ne_nil _ _)
        exact ⟨last, ts ++ vs, ws, by rw [List.getLast?_cons_cons, hlast], by simp, hspans⟩

/-- Juxtaposed arguments. -/
theorem juxtaposition_reads (hparts : Sound parts) (hleft : ReadFrom [] ts left)
    (ho : Ordered (ts ++ t :: p.rest)) (hok : (juxtaposition parts t).combine left p = .ok e q) :
    ∃ more, p.Consumes more q ∧ ReadFrom [] (ts ++ t :: more) e := by
  obtain ⟨first, r, hfirst, hok⟩ := bind_ok.1 hok
  obtain ⟨others, r', hothers, hok⟩ := bind_ok.1 hok
  obtain ⟨rfl, rfl⟩ := pure_ok.1 hok
  obtain ⟨more, hmore, hreading, -⟩ := hparts _ _ _ _ _ ho.of_append.2 hfirst
  obtain ⟨used, hused, hfrom⟩ :=
    argumentsUpTo_reads hparts (hmore.ordered ho.of_append.2.tail) hothers
  have hargs : ArgsFrom (t :: more ++ used) (first :: others) :=
    .cons (hreading.tight (by decide)) hfrom
  have hp := hmore.trans hused
  have hall : Ordered (ts ++ (t :: more ++ used)) := by
    have := (hp.ordered_before (s := ts ++ [t]) (by simpa using ho)).1
    simpa using this
  refine ⟨_, hp, .juxtaposition hleft (List.cons_ne_nil _ _) hargs (covers_whole ?_ hall ?_)⟩
  · obtain ⟨last, vs, ws, hlast, hsplit, hspans⟩ := hargs.exists_last (List.cons_ne_nil _ _)
    have hspans' : (left.loc.join last.loc).Spans (ts ++ (t :: more ++ used)) := by
      rw [hsplit] at hall ⊢
      exact hleft.spans.join hspans hall
    rw [hlast]
    exact hspans'
  · intro part hpart
    rcases List.mem_cons.1 hpart with rfl | hpart
    · exact hleft.spans.amid.append_left _
    · exact (hargs.amid part hpart).append_right ts

end Extensions

/-! ## The grammar -/

/-- One more token and what it introduces, after an expression that was read. -/
theorem extend?_reads (hparts : Sound parts) {level power : Nat} {used : List Token} {e e' : Expr}
    {p q : Parser} {t : Token} {extension : Extension Expr} (hread : Reading power used e p)
    (ho : Ordered (used ++ p.rest)) (hhead : p.rest.head? = some t)
    (hextend : extend? parts (TypeExpr.grammar level) p t = some extension)
    (hpower : power < extension.power) (hok : extension.combine e (p.pass t) = .ok e' q) :
    ∃ more, (p.pass t).Consumes more q ∧ Reading power (used ++ t :: more) e' q := by
  have hn : power? p t = some extension.power := by
    rw [← extend?_power parts (TypeExpr.grammar level), hextend]
    rfl
  obtain ⟨rest, hrest⟩ := List.head?_eq_some_iff.1 hhead
  have hot : Ordered (used ++ t :: (p.pass t).rest) := by
    rw [(Consumes.one hrest).1] at ho
    exact ho
  obtain ⟨s, c, rfl, hleft, hskip⟩ := hread
  -- what binds tighter than operators does not continue an expression that skips tokens
  have htight : operatorPower < extension.power → s = [] := by
    intro hlt
    by_cases hs : s = []
    · exact hs
    · have := (hskip hs).2 t extension.power hhead hn
      omega
  have hwhole : ∀ {more}, ReadFrom [] (c ++ t :: more) e' →
      Reading power ([] ++ c ++ t :: more) e' q :=
    fun h => ⟨[], _, rfl, h, fun hne => absurd rfl hne⟩
  rcases extend?_cases hextend with ⟨n, hkind, hbinary, rfl⟩ | ⟨hsign, rfl⟩ | ⟨hblock, rfl⟩ |
    ⟨hblock, rfl⟩ | ⟨hblock, rfl⟩ | rfl
  · obtain ⟨more, hmore, hread, hhalts⟩ := infixCall_reads hparts hleft hkind hbinary hot hok
    have hle := bindingPower?_le hbinary
    exact ⟨more, hmore, s ++ c, t :: more, rfl, hread,
      fun _ => ⟨Nat.lt_of_lt_of_le hpower hle, hhalts.mono hle⟩⟩
  · obtain rfl := htight (show operatorPower < ascriptionPower by decide)
    obtain ⟨more, hmore, hread⟩ := ascription_reads hleft hsign hot hok
    exact ⟨more, hmore, hwhole hread⟩
  · obtain ⟨more, hmore, hread, hhalts⟩ := backtickCall_reads hparts hleft hblock hot hok
    have hle : backtickPower ≤ operatorPower := by decide
    exact ⟨more, hmore, s, c ++ t :: more, List.append_assoc _ _ _, hread,
      fun _ => ⟨Nat.lt_of_lt_of_le hpower hle, hhalts.mono hle⟩⟩
  · obtain rfl := htight (show operatorPower < attachedPower by decide)
    obtain ⟨more, hmore, hread⟩ := indexing_reads hparts hleft hblock hot hok
    exact ⟨more, hmore, hwhole hread⟩
  · obtain rfl := htight (show operatorPower < attachedPower by decide)
    obtain ⟨more, hmore, hread⟩ := listCall_reads hparts hleft hblock hot hok
    exact ⟨more, hmore, hwhole hread⟩
  · obtain rfl := htight (show operatorPower < applicationPower by decide)
    obtain ⟨more, hmore, hread⟩ := juxtaposition_reads hparts hleft hot hok
    exact ⟨more, hmore, hwhole hread⟩

/-- The grammar of expressions reads derivable expressions only. -/
theorem grammar_sound (level : Nat) : Sound (grammar level) := by
  induction level with
  | zero =>
    intro power t p e q _ hok
    obtain ⟨form, r, hstart, -⟩ := bind_ok.1 hok
    exact absurd hstart unexpected_ne_ok
  | succ level ih =>
    intro power t p e q ho hok
    have hkeeps : (grammar (level + 1)).Keeps power
        fun used form r => Reading power used form r ∧ Ordered (used ++ r.rest) := by
      intro used form r t' extension form' r' hinv hhead hextend hpower hcombine
      obtain ⟨more, hmore, hread⟩ :=
        extend?_reads ih hinv.1 hinv.2 hhead hextend hpower hcombine
      obtain ⟨rest, hrest⟩ := List.head?_eq_some_iff.1 hhead
      have hall := ((Consumes.one hrest).trans hmore).ordered_before hinv.2
      exact ⟨more, hmore, hread, hall.2⟩
    obtain ⟨more, hmore, hinv, hhalted⟩ := Grammar.continueFrom_ok hkeeps (fun form r hstart => by
      obtain ⟨more, hmore, hread⟩ := start_reads ih ho hstart
      exact ⟨more, hmore, ⟨[], _, rfl, hread, fun hne => absurd rfl hne⟩,
        (hmore.ordered_before (s := [t]) ho).2⟩) hok
    exact ⟨more, hmore, hinv.1, halts_of_halted hhalted⟩

end Expr

end Offside
