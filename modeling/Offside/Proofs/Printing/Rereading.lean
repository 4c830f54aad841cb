import Offside.Proofs.Grammar.Expressions
import Offside.Proofs.Printing.Types

/-!
# Tokens that are read back as an expression

* `Expr.RereadsTightly`: tokens are read as an expression up to locations, which may then be
  continued; a loose one only if nothing that binds tighter than a sign follows.
* `Expr.Rereads`: the same where nothing continues the expression (`Expr.Stops`).
* `Expr.tightly_paren`, `Expr.tightly_index`, `Expr.rereads_operator`, ...: one lemma for each form,
  given that the tokens of its parts are read back.
-/

namespace Offside

open Token Parse Parser

/-- Past some tokens a parser stands where they end. -/
theorem Location.Spans.lastStop? {l : Location} {ts : List Token} (h : l.Spans ts) (p : Parser) :
    (p.passAll ts).lastStop? = some l.stop := by
  obtain ⟨u, us, rfl, hu⟩ := h.exists_last
  rw [passAll_append, passAll_cons, passAll_nil, pass_lastStop?, hu]

namespace Expr

/-! ## Where an expression ends -/

/-- Nothing continues an expression here, nor a type at its end. -/
def Stops (p : Parser) : Prop :=
  ∀ t, p.rest.head? = some t → power? p t = none ∧ t.is .operator "->" = false

theorem Stops.halts {p : Parser} (h : Stops p) (power : Nat) : Halts power p := by
  intro t n ht hn
  rw [(h t ht).1] at hn
  cases hn

theorem stops_nil {p : Parser} (h : p.rest = []) : Stops p := by
  intro t ht
  rw [h] at ht
  cases ht

/-- An expression stops before a comma or a semicolon. -/
theorem stops_separator {p : Parser}
    (h : ∀ t, p.rest.head? = some t → t.kind = .comma ∨ t.kind = .semicolon) : Stops p := by
  intro t ht
  rcases h t ht with hkind | hkind <;>
    simp [power?, argumentPower?, beginsArgument, Token.is, hkind]

/-- An expression stops before a block of statements. -/
theorem stops_body {p : Parser} {t : Token} (hp : p.rest.head? = some t) (ht : IsBody t) :
    Stops p := by
  intro u hu
  cases hp.symm.trans hu
  obtain ⟨kind, hblock, hholds⟩ := (Option.any_eq_true _ _).1 ht
  rcases kind with (_ | _ | _ | _) | _ <;> cases hholds <;>
    simp [power?, argumentPower?, beginsArgument, Token.is, ht.kind, isBlock, hblock]

theorem halted_of_halts {power : Nat} {p : Parser} (h : Halts power p) (level : Nat) :
    (grammar level).Halted power p := by
  intro t extension ht hextension
  cases level with
  | zero => cases hextension
  | succ level =>
    refine h t extension.power ht ?_
    rw [← extend?_power (grammar level) (TypeExpr.grammar (level + 1))]
    exact congrArg _ hextension

/-! ## Reading back -/

/-- Tokens are read as an expression up to locations, which may then be continued. If it is loose,
nothing that binds tighter than a sign may follow. -/
def RereadsTightly (loose : Bool) (ts : List Token) (e : Expr) : Prop :=
  ∀ level power p rest, totalWeight ts ≤ level → power ≤ applicationPower → p.rest = ts ++ rest →
    (loose = true → Halts unaryPower (p.passAll ts)) →
    ∃ e' n, e'.erase = e.erase ∧ rest.length ≤ n ∧
      (grammar level).parse power p = (grammar level).extendUpTo power n e' (p.passAll ts)

/-- Tokens are read as an expression up to locations where nothing continues it. -/
def Rereads (ts : List Token) (e : Expr) : Prop :=
  ∀ level p rest, totalWeight ts ≤ level → p.rest = ts ++ rest → Stops (p.passAll ts) →
    ∃ e', (grammar level).parse 0 p = .ok e' (p.passAll ts) ∧ e'.erase = e.erase

section Reading

variable {loose : Bool} {ts us rest : List Token} {t : Token} {e : Expr} {es : List Expr}
  {level power : Nat} {p : Parser}

/-- What follows an operand does not continue it. -/
theorem RereadsTightly.parse (h : RereadsTightly loose ts e) (hlevel : totalWeight ts ≤ level)
    (hpower : loose = true → power ≤ unaryPower) (hle : power ≤ applicationPower)
    (hp : p.rest = ts ++ rest) (hhalts : Halts power (p.passAll ts)) :
    ∃ e', (grammar level).parse power p = .ok e' (p.passAll ts) ∧ e'.erase = e.erase := by
  obtain ⟨e', n, herase, -, hparse⟩ := h level power p rest hlevel hle hp fun hloose =>
    hhalts.mono (hpower hloose)
  refine ⟨e', ?_, herase⟩
  rw [hparse]
  exact Grammar.extendUpTo_halted (halted_of_halts hhalts level) n e'

theorem RereadsTightly.rereads (h : RereadsTightly loose ts e) : Rereads ts e := by
  intro level p rest hlevel hp hstops
  exact h.parse hlevel (fun _ => Nat.zero_le _) (Nat.zero_le _) hp (hstops.halts 0)

/-- No expression is read from no tokens. -/
theorem Rereads.ne_nil (h : Rereads ts e) : ts ≠ [] := by
  rintro rfl
  obtain ⟨e', hok, -⟩ := h 0 (Parser.ofTokens (.point .origin) []) [] (Nat.le_refl _) rfl
    (stops_nil rfl)
  cases hok

/-- The whole interior of a group. -/
theorem Rereads.whole (h : Rereads ts e) (hlevel : totalWeight ts ≤ level) (hp : p.rest = ts) :
    ∃ e', (grammar level).parse 0 p = .ok e' (p.passAll ts) ∧ e'.erase = e.erase := by
  have hp' : p.rest = ts ++ [] := by rw [hp, List.append_nil]
  exact h level p [] hlevel hp' (stops_nil (passAll_rest hp'))

/-- A form that its first token determines. -/
theorem tightly_of_start
    (h : ∀ level p rest, totalWeight t.children + totalWeight us ≤ level → p.rest = us ++ rest →
      (loose = true → Halts unaryPower (p.passAll us)) →
      ∃ e', start (grammar level) t p = .ok e' (p.passAll us) ∧ e'.erase = e.erase) :
    RereadsTightly loose (t :: us) e := by
  intro level power p rest hlevel hpower hp hhalts
  rw [totalWeight_cons, weight_eq] at hlevel
  obtain ⟨level, rfl⟩ : ∃ n, level = n + 1 := ⟨level - 1, by omega⟩
  have hpass : (p.pass t).rest = us ++ rest := by rw [pass_rest, hp]; rfl
  obtain ⟨e', hstart, herase⟩ := h level (p.pass t) rest (by omega) hpass hhalts
  refine ⟨e', rest.length, herase, Nat.le_refl _, ?_⟩
  rw [Grammar.parse_eq hp, Grammar.continueFrom_eq hstart, passAll_rest hpass]
  rfl

/-- A list of expressions with commas between them. -/
theorem list_rereads {b : Bool} (h : Separated .comma Rereads b ts es)
    (hlevel : totalWeight ts ≤ level) (q : Parser) (hq : q.rest = ts) :
    ∃ a, Parse.list ((grammar level).parse 0) q = .ok a (q.passAll ts) ∧
      a.2 = b ∧ a.1.map erase = es.map erase := by
  have hitem : ∀ us e (p : Parser) rest, (Rereads us e ∧ totalWeight us ≤ level) →
      p.loops = q.loops → p.rest = us ++ rest →
      Follows .comma (fun us e => Rereads us e ∧ totalWeight us ≤ level) rest →
      ∃ e', (grammar level).parse 0 p = .ok e' (p.passAll us) ∧ e'.erase = e.erase := by
    rintro us e p rest ⟨hrereads, hweight⟩ - hp hrest
    refine hrereads level p rest hweight hp (stops_separator fun u hu => .inl ?_)
    rw [passAll_rest hp] at hu
    exact hrest.kind hu
  obtain ⟨es', hok, hmap⟩ := list_eq hitem (fun us e hR => hR.1.ne_nil) (h.and_weight hlevel) hq rfl
  exact ⟨(es', b), hok, rfl, hmap⟩

/-! ## Forms by their first token -/

theorem tightly_ident (hkind : t.kind = .identifier) (l : Location) :
    RereadsTightly false [t] (.ident l t.text) := by
  refine tightly_of_start fun level p rest _ _ _ => ⟨ofName t, ?_, by rw [ofName, erase, erase]⟩
  unfold start
  simp only [hkind]
  rfl

theorem tightly_number (hkind : t.kind = .number) (l : Location) :
    RereadsTightly loose [t] (.number l t.text) := by
  refine tightly_of_start fun level p rest _ _ _ => ⟨.number t.loc t.text, ?_, by rw [erase, erase]⟩
  unfold start
  simp only [hkind]
  rfl

/-- Expressions in parentheses. -/
theorem start_paren {b : Bool} (ht : t.IsGroup .paren us) (h : Separated .comma Rereads b us es)
    (hlevel : totalWeight us ≤ level) (p : Parser) :
    ∃ es' : List Expr, start (grammar level) t p = .ok (ofParts t.loc (es', b)) p ∧
      es'.map erase = es.map erase := by
  obtain ⟨⟨es', b'⟩, hwithin, rfl, hmap⟩ :=
    within_group ht fun q hq _ => list_rereads h hlevel q hq
  refine ⟨es', ?_, hmap⟩
  have hkind : t.kind = .block := kind_of_blockKind? ht.1
  unfold start
  simp only [hkind, ht.1]
  exact bind_eq hwithin

/-- An expression in parentheses. -/
theorem tightly_paren (ht : t.IsGroup .paren us) (h : Rereads us e) :
    RereadsTightly false [t] e := by
  refine tightly_of_start fun level p rest hlevel _ _ => ?_
  rw [ht.2.2] at hlevel
  have hweight : totalWeight us ≤ level := by omega
  obtain ⟨es', hstart, hmap⟩ := start_paren ht (.last h) hweight p
  obtain ⟨e', rfl, he'⟩ := List.map_eq_singleton_iff.1 hmap
  exact ⟨_, hstart, by rw [ofParts, erase_relocate, he']⟩

/-- A tuple of one has a comma. -/
theorem ofParts_tuple (l : Location) {b : Bool} (h : es.length = 1 → b = true) :
    ofParts l (es, b) = .tuple l es := by
  unfold ofParts
  split
  · rename_i heq
    cases heq
    cases h rfl
  · rename_i heq
    cases heq
    rfl

theorem tightly_tuple {b : Bool} (ht : t.IsGroup .paren us) (h : Separated .comma Rereads b us es)
    (hone : es.length = 1 → b = true) (l : Location) : RereadsTightly false [t] (.tuple l es) := by
  refine tightly_of_start fun level p rest hlevel _ _ => ?_
  rw [ht.2.2] at hlevel
  have hweight : totalWeight us ≤ level := by omega
  obtain ⟨es', hstart, hmap⟩ := start_paren ht h hweight p
  have hlength : es'.length = es.length := by simpa using congrArg List.length hmap
  rw [ofParts_tuple t.loc fun h => hone (hlength ▸ h)] at hstart
  exact ⟨_, hstart, by rw [erase, erase, eraseAll_eq, eraseAll_eq, hmap]⟩

theorem tightly_buffer {b : Bool} (ht : t.IsGroup .square us) (h : Separated .comma Rereads b us es)
    (l : Location) : RereadsTightly false [t] (.buffer l es) := by
  refine tightly_of_start fun level p rest hlevel _ _ => ?_
  rw [ht.2.2] at hlevel
  have hweight : totalWeight us ≤ level := by omega
  have hkind : t.kind = .block := kind_of_blockKind? ht.1
  obtain ⟨⟨es', b'⟩, hwithin, -, hmap⟩ :=
    within_group (p := p) ht fun q hq _ => list_rereads h hweight q hq
  refine ⟨.buffer t.loc es', ?_, by rw [erase, erase, eraseAll_eq, eraseAll_eq, hmap]⟩
  unfold start
  simp only [hkind, ht.1]
  exact bind_eq hwithin

theorem tightly_valueAt (ht : t.reserved? = some .valueAt) (h : RereadsTightly false us e)
    (l : Location) : RereadsTightly true (t :: us) (.valueAt l e) := by
  refine tightly_of_start fun level p rest hlevel hp hhalts => ?_
  have hweight : totalWeight us ≤ level := by omega
  obtain ⟨e', hparse, he'⟩ := h.parse hweight (fun h => nomatch h) (by decide) hp (hhalts rfl)
  refine ⟨.valueAt (t.loc.join e'.loc) e', ?_, by rw [erase, erase, he']⟩
  unfold start
  simp only [kind_of_reserved? ht, ht]
  exact bind_eq hparse

theorem tightly_addressOf {target : Place} (ht : t.reserved? = some .addressOf)
    (h : RereadsTightly false us target.toExpr) (l : Location) :
    RereadsTightly true (t :: us) (.addressOf l target) := by
  refine tightly_of_start fun level p rest hlevel hp hhalts => ?_
  have hweight : totalWeight us ≤ level := by omega
  obtain ⟨e', hparse, he'⟩ := h.parse hweight (fun h => nomatch h) (by decide) hp (hhalts rfl)
  obtain ⟨target', hplace, htarget'⟩ := Place.ofExpr_of_erase target he'
  refine ⟨.addressOf (t.loc.join e'.loc) target', ?_, by rw [erase, erase, htarget']⟩
  have hexpect : expectPlace e' (p.passAll us) = .ok target' (p.passAll us) := by
    rw [expectPlace, hplace]
    rfl
  unfold start
  simp only [kind_of_reserved? ht, ht]
  exact (bind_eq hparse).trans (bind_eq hexpect)

/-- The tokens of a conditional expression: the words, the tokens of the condition, and the two
blocks. -/
structure Conditional (condition yes no : Expr) where
  /-- The first word. -/
  word : Token
  /-- The tokens of the condition. -/
  test : List Token
  /-- The block of the first value. -/
  yesBlock : Token
  /-- The second word. -/
  other : Token
  /-- The block of the second value. -/
  noBlock : Token
  isWord : word.reserved? = some .ifThen
  isOther : other.reserved? = some .otherwise
  rereadsTest : Rereads test condition
  isYes : ∃ inner, yesBlock.IsGroup .brace inner ∧ Rereads inner yes
  isNo : ∃ inner, noBlock.IsGroup .brace inner ∧ Rereads inner no

/-- All tokens of a conditional expression. -/
def Conditional.tokens {condition yes no : Expr} (c : Conditional condition yes no) : List Token :=
  c.word :: (c.test ++ [c.yesBlock, c.other, c.noBlock])

/-- The condition, from where the first word has been consumed. -/
theorem Conditional.parse_test {condition yes no : Expr} (c : Conditional condition yes no)
    (hlevel : totalWeight c.test ≤ level)
    (hp : p.rest = c.test ++ c.yesBlock :: rest) :
    ∃ e', (grammar level).parse 0 p = .ok e' (p.passAll c.test) ∧ e'.erase = condition.erase := by
  obtain ⟨inner, hgroup, -⟩ := c.isYes
  refine c.rereadsTest level p _ hlevel hp (stops_body ?_ (isBody_brace hgroup.1))
  rw [passAll_rest hp]
  rfl

/-- The one expression of a group. -/
theorem Rereads.within {bracket : Bracket} {inner : List Token} (h : Rereads inner e)
    (ht : t.IsGroup bracket inner) (p : Parser) (hlevel : totalWeight t.children ≤ level) :
    ∃ e', Parse.within t ((grammar level).parse 0) p = .ok e' p ∧ e'.erase = e.erase := by
  rw [ht.2.2] at hlevel
  exact within_group ht fun q hq _ => h.whole hlevel hq

theorem tightly_ifThen {condition yes no : Expr} (c : Conditional condition yes no)
    (l : Location) : RereadsTightly loose c.tokens (.ifThen l condition yes no) := by
  refine tightly_of_start fun level p rest hlevel hp _ => ?_
  obtain ⟨yesInner, hyesGroup, hyes⟩ := c.isYes
  obtain ⟨noInner, hnoGroup, hno⟩ := c.isNo
  simp only [totalWeight_append, totalWeight_cons, weight_eq, totalWeight_nil] at hlevel
  rw [List.append_assoc] at hp
  -- where the parser is after the condition, after the first block and after the second word
  have hp₁ : (p.passAll c.test).rest = c.yesBlock :: c.other :: c.noBlock :: rest := passAll_rest hp
  have hp₂ : ((p.passAll c.test).pass c.yesBlock).rest = c.other :: c.noBlock :: rest := by
    rw [pass_rest, hp₁]
    rfl
  have hp₃ : (((p.passAll c.test).pass c.yesBlock).pass c.other).rest = c.noBlock :: rest := by
    rw [pass_rest, hp₂]
    rfl
  have htest : totalWeight c.test ≤ level := by omega
  have hyesWeight : totalWeight c.yesBlock.children ≤ level := by omega
  have hnoWeight : totalWeight c.noBlock.children ≤ level := by omega
  obtain ⟨condition', hparse, hcondition⟩ := c.parse_test htest hp
  obtain ⟨yes', hwithin, hyes'⟩ := hyes.within hyesGroup
    ((p.passAll c.test).pass c.yesBlock) hyesWeight
  obtain ⟨no', hwithin', hno'⟩ := hno.within hnoGroup
    ((((p.passAll c.test).pass c.yesBlock).pass c.other).pass c.noBlock) hnoWeight
  refine ⟨.ifThen (c.word.loc.join c.noBlock.loc) condition' yes' no', ?_, ?_⟩
  · unfold start
    simp only [kind_of_reserved? c.isWord, c.isWord]
    unfold conditional
    rw [bind_eq hparse, bind_eq (expectBody_eq hp₁ (isBody_brace hyesGroup.1)), bind_eq hwithin,
      bind_eq (acceptElse_eq hp₂ (isReserved_iff.2 c.isOther))]
    dsimp only
    rw [bind_eq (expectBody_eq hp₃ (isBody_brace hnoGroup.1)), bind_eq hwithin', passAll_append]
    rfl
  · rw [erase, erase, hcondition, hyes', hno']

/-! ## Forms by the token that continues them -/

/-- A form that a group right after its first part makes of this part. -/
theorem RereadsTightly.attached {base : Expr} {l : Location} (h : RereadsTightly false ts base)
    (hspans : l.Spans ts) (hstart : t.loc.start = l.stop)
    (hextend : ∀ level (p : Parser) base', p.adjacent t = true → totalWeight t.children ≤ level →
      base'.erase = base.erase → ∃ extension e', (grammar (level + 1)).extend? p t = some extension ∧
        extension.power = attachedPower ∧ extension.combine base' (p.pass t) = .ok e' (p.pass t) ∧
        e'.erase = e.erase) : RereadsTightly false (ts ++ [t]) e := by
  intro level power p rest hlevel hpower hp _
  simp only [totalWeight_append, totalWeight_cons, weight_eq, totalWeight_nil] at hlevel
  obtain ⟨level, rfl⟩ : ∃ n, level = n + 1 := ⟨level - 1, by omega⟩
  rw [List.append_assoc] at hp
  obtain ⟨base', n, hbase', hn, hparse⟩ := h (level + 1) power p _ (by omega) hpower hp
    fun h => nomatch h
  obtain ⟨n, rfl⟩ : ∃ m, n = m + 1 :=
    ⟨n - 1, by rw [List.length_append, List.length_singleton] at hn; omega⟩
  have hadjacent : (p.passAll ts).adjacent t = true := by
    rw [adjacent, hspans.lastStop? p, hstart, beq_self_eq_true]
  obtain ⟨extension, e', hextension, hattached, hcombine, he'⟩ :=
    hextend level (p.passAll ts) base' hadjacent (by omega) hbase'
  refine ⟨e', n, he', ?_, ?_⟩
  · rw [List.length_append, List.length_singleton] at hn
    omega
  · have hlt : power < extension.power := by
      rw [hattached]
      exact Nat.lt_succ_of_le hpower
    rw [hparse, Grammar.extendUpTo_step (passAll_rest hp) hextension hlt hcombine, passAll_append]
    rfl

theorem tightly_index {base : Expr} {l : Location} (h : RereadsTightly false ts base)
    (hspans : l.Spans ts) (hstart : t.loc.start = l.stop) (ht : t.IsGroup .square us)
    (hoffset : Rereads us e) (l' : Location) :
    RereadsTightly false (ts ++ [t]) (.index l' base e) := by
  refine h.attached hspans hstart fun level p base' hadjacent hlevel hbase' => ?_
  obtain ⟨offset', hwithin, hoffset'⟩ := hoffset.within ht (p.pass t) hlevel
  refine ⟨indexing (grammar level) t, .index (base'.loc.join t.loc) base' offset', ?_, rfl,
    bind_eq hwithin, by rw [erase, erase, hbase', hoffset']⟩
  show extend? _ _ p t = _
  simp only [extend?, kind_of_blockKind? ht.1, ht.1, hadjacent, if_true]

theorem tightly_listCall {b : Bool} {function : Expr} {l : Location}
    (h : RereadsTightly false ts function) (hspans : l.Spans ts) (hstart : t.loc.start = l.stop)
    (ht : t.IsGroup .paren us) (hargs : Separated .comma Rereads b us es) (l' : Location) :
    RereadsTightly false (ts ++ [t]) (.apply l' .tupled function es) := by
  refine h.attached hspans hstart fun level p function' hadjacent hlevel hfunction' => ?_
  rw [ht.2.2] at hlevel
  obtain ⟨⟨es', b'⟩, hwithin, -, hmap⟩ :=
    within_group (p := p.pass t) ht fun q hq _ => list_rereads hargs hlevel q hq
  refine ⟨listCall (grammar level) t, .apply (function'.loc.join t.loc) .tupled function' es', ?_,
    rfl, bind_eq hwithin, by rw [erase, erase, hfunction', eraseAll_eq, eraseAll_eq, hmap]⟩
  show extend? _ _ p t = _
  simp only [extend?, kind_of_blockKind? ht.1, ht.1, hadjacent, if_true]

/-- A form that a token makes of its first part and of what follows the token. -/
theorem RereadsTightly.continued {loose : Bool} {left : Expr} {n : Nat}
    (h : RereadsTightly loose ts left) (hn : 0 < n) (hle : n ≤ unaryPower)
    (hpower : ∀ p : Parser, power? p t = some n)
    (hextend : ∀ level (p : Parser) rest left', totalWeight us ≤ level → p.rest = t :: (us ++ rest) →
      Stops ((p.pass t).passAll us) → left'.erase = left.erase →
      ∃ extension e', (grammar (level + 1)).extend? p t = some extension ∧ extension.power = n ∧
        extension.combine left' (p.pass t) = .ok e' ((p.pass t).passAll us) ∧
        e'.erase = e.erase) : Rereads (ts ++ t :: us) e := by
  intro level p rest hlevel hp hstops
  simp only [totalWeight_append, totalWeight_cons, weight_eq] at hlevel
  obtain ⟨level, rfl⟩ : ∃ n, level = n + 1 := ⟨level - 1, by omega⟩
  rw [List.append_assoc] at hp
  have hpass : (p.passAll ts).rest = t :: (us ++ rest) := passAll_rest hp
  have hall : p.passAll (ts ++ t :: us) = ((p.passAll ts).pass t).passAll us := by
    rw [passAll_append, passAll_cons]
  rw [hall] at hstops ⊢
  obtain ⟨left', m, hleft', hm, hparse⟩ := h (level + 1) 0 p _ (by omega) (Nat.zero_le _) hp
    fun _ u k hu hk => by
      rw [hpass] at hu
      cases hu
      cases (hpower _).symm.trans hk
      exact hle
  obtain ⟨m, rfl⟩ : ∃ k, m = k + 1 :=
    ⟨m - 1, by rw [List.cons_append, List.length_cons] at hm; omega⟩
  obtain ⟨extension, e', hextension, rfl, hcombine, he'⟩ :=
    hextend level (p.passAll ts) rest left' (by omega) hpass hstops hleft'
  refine ⟨e', ?_, he'⟩
  rw [hparse, Grammar.extendUpTo_step hpass hextension hn hcombine]
  exact Grammar.extendUpTo_halted (halted_of_halts (hstops.halts 0) _) m e'

/-- A binary operator binds as the table says. -/
theorem power?_operator {n : Nat} (hkind : t.kind = .operator)
    (hbinary : bindingPower? t.text = some n) (p : Parser) : power? p t = some n := by
  simp only [power?, hkind, hbinary]

/-- What a binary operator does with what it has read is to apply its name to both operands. -/
theorem infixCall_combine {n : Nat} {left right left' right' : Expr} {q : Parser}
    (hparse : (grammar level).parse n (p.pass t) = .ok right' q) (hleft : left'.erase = left.erase)
    (hright : right'.erase = right.erase) (l l' : Location) :
    ∃ e', (infixCall (grammar level) t n).combine left' (p.pass t) = .ok e' q ∧
      e'.erase = (Expr.apply l .curried (.ident l' t.text) [left, right]).erase := by
  refine ⟨application .curried (ofName t) [left', right'], bind_eq hparse, ?_⟩
  rw [application, ofName, erase, erase]
  simp only [eraseAll_eq, List.map_cons, List.map_nil, hleft, hright, erase]

/-- A binary operator continues the expression before it. -/
theorem grammar_extend?_operator {n : Nat} (hkind : t.kind = .operator)
    (hbinary : bindingPower? t.text = some n) (level : Nat) (p : Parser) :
    (grammar (level + 1)).extend? p t = some (infixCall (grammar level) t n) := by
  show extend? _ _ p t = _
  simp only [extend?, hkind, hbinary, Option.map_some]

theorem rereads_operator {loose' : Bool} {left right : Expr} {n : Nat}
    (hleft : RereadsTightly loose ts left) (hkind : t.kind = .operator)
    (hbinary : bindingPower? t.text = some n) (hright : RereadsTightly loose' us right)
    (l l' : Location) :
    Rereads (ts ++ t :: us) (.apply l .curried (.ident l' t.text) [left, right]) := by
  have hn : n ≤ operatorPower := bindingPower?_le hbinary
  refine hleft.continued (bindingPower?_pos hbinary) (Nat.le_trans hn (by decide))
    (power?_operator hkind hbinary) fun level p rest left' hlevel hp hstops hleft' => ?_
  have hp' : (p.pass t).rest = us ++ rest := by rw [pass_rest, hp]; rfl
  obtain ⟨right', hparse, hright'⟩ := hright.parse hlevel
    (fun _ => Nat.le_trans hn (by decide)) (Nat.le_trans hn (by decide)) hp' (hstops.halts n)
  obtain ⟨e', hcombine, he'⟩ := infixCall_combine hparse hleft' hright' l l'
  exact ⟨_, e', grammar_extend?_operator hkind hbinary level p, rfl, hcombine, he'⟩

theorem rereads_ascription {value : Expr} {type : TypeExpr} (hvalue : RereadsTightly loose ts value)
    (ht : t.reserved? = some .asType) (htype : TypeExpr.Rereads us type) (l : Location) :
    Rereads (ts ++ t :: us) (.asType l value type) := by
  have hsign : t.isReserved .asType = true := isReserved_iff.2 ht
  have hpower : ∀ p : Parser, power? p t = some ascriptionPower := by
    intro p
    simp only [power?, kind_of_reserved? ht, hsign, if_true]
  refine hvalue.continued (by decide) (Nat.le_refl _) hpower ?_
  intro level p rest value' hlevel hp hstops hvalue'
  have hp' : (p.pass t).rest = us ++ rest := by rw [pass_rest, hp]; rfl
  obtain ⟨type', hparse, htype'⟩ := htype (level + 1) (p.pass t) rest (by omega) hp' fun u hu =>
    (hstops u (by rw [passAll_rest hp']; exact hu)).2
  refine ⟨ascription (TypeExpr.grammar (level + 1)), .asType (value'.loc.join type'.loc) value' type',
    ?_, rfl, bind_eq hparse, by rw [erase, erase, hvalue', htype']⟩
  show extend? _ _ p t = _
  simp only [extend?, kind_of_reserved? ht, hsign, if_true]

/-! ## Juxtaposed arguments -/

/-- A token that begins an argument unless it directly follows what is before it. -/
def Opening (t : Token) : Prop :=
  t.kind = .identifier ∨ t.kind = .number ∨ t.blockKind? = some (.bracketed .paren) ∨
    t.blockKind? = some (.bracketed .square)

theorem Opening.beginsArgument (h : Opening t) (hp : p.adjacent t = false) :
    beginsArgument p t = true := by
  unfold Expr.beginsArgument
  rcases h with hkind | hkind | hblock | hblock
  · rw [hkind]
  · rw [hkind]
  · simp [kind_of_blockKind? hblock, isBlock, hblock, hp]
  · simp [kind_of_blockKind? hblock, isBlock, hblock, hp]

/-- An argument continues the function before it. -/
theorem Opening.extend? (h : Opening t) (hp : p.adjacent t = false) (parts : Grammar Expr)
    (types : Grammar TypeExpr) :
    Expr.extend? parts types p t = some (juxtaposition parts t) := by
  have hbegins : juxtaposition? parts p t = some (juxtaposition parts t) :=
    if_pos (h.beginsArgument hp)
  unfold Expr.extend?
  rcases h with hkind | hkind | hblock | hblock
  · simp only [hkind, hbegins]
  · simp only [hkind, hbegins]
  · simp only [kind_of_blockKind? hblock, hblock, hp, Bool.false_eq_true, if_false, hbegins]
  · simp only [kind_of_blockKind? hblock, hblock, hp, Bool.false_eq_true, if_false, hbegins]

theorem Opening.power? (h : Opening t) (hp : p.adjacent t = false) :
    power? p t = some applicationPower := by
  rw [← extend?_power (grammar 0) (TypeExpr.grammar 0), h.extend? hp]
  rfl

/-- What does not continue an expression begins no argument. -/
theorem beginsArgument_of_power? (h : power? p t = none) : beginsArgument p t = false := by
  have hargument : argumentPower? p t = none → beginsArgument p t = false := by
    intro h
    unfold argumentPower? at h
    by_cases hbegins : beginsArgument p t = true
    · rw [if_pos hbegins] at h
      cases h
    · simpa using hbegins
  unfold power? at h
  cases hkind : t.kind
  case operator => simp [beginsArgument, hkind]
  case reserved =>
    simp only [hkind] at h
    split at h
    · cases h
    · exact hargument h
  case block =>
    simp only [hkind] at h
    split at h
    · cases h
    · split at h
      · cases h
      · exact hargument h
    · split at h
      · cases h
      · exact hargument h
    · exact hargument h
  all_goals
    simp only [hkind] at h
    exact hargument h

/-- The tokens of juxtaposed arguments, each of which is apart from where the one before ends. -/
inductive Juxtaposed : (stop : Cursor) → List Token → List Expr → Prop
  | nil {stop : Cursor} : Juxtaposed stop [] []
  | cons {stop : Cursor} {l : Location} {t : Token} {us vs : List Token} {arg : Expr}
      {args : List Expr} (first : RereadsTightly false (t :: us) arg) (opening : Opening t)
      (apart : t.loc.start ≠ stop) (spans : l.Spans (t :: us))
      (others : Juxtaposed l.stop vs args) : Juxtaposed stop (t :: us ++ vs) (arg :: args)

theorem adjacent_eq_false {stop : Cursor} (hp : p.lastStop? = some stop)
    (ht : t.loc.start ≠ stop) : p.adjacent t = false := by
  rw [adjacent, hp]
  simpa using fun h => ht h.symm

/-- Arguments that follow do not continue the argument before them. -/
theorem Juxtaposed.halts {stop : Cursor} (h : Juxtaposed stop ts es) (hstop : p.lastStop? = some stop)
    (hp : p.rest = ts ++ rest) (hstops : Stops (p.passAll ts)) : Halts applicationPower p := by
  cases h with
  | nil => exact hstops.halts _
  | cons first opening apart spans others =>
    intro u n hu hn
    rw [hp] at hu
    cases hu
    rw [opening.power? (adjacent_eq_false hstop apart)] at hn
    cases hn
    exact Nat.le_refl _

/-- The first of some arguments. -/
theorem RereadsTightly.argument {l : Location} {vs : List Token} {args : List Expr}
    (h : RereadsTightly false (t :: us) e) (hspans : l.Spans (t :: us))
    (hothers : Juxtaposed l.stop vs args) (hlevel : totalWeight (t :: us ++ vs) ≤ level)
    (hp : p.rest = t :: us ++ vs ++ rest) (hstops : Stops (p.passAll (t :: us ++ vs))) :
    ∃ e', (grammar level).continueFrom applicationPower t (p.pass t)
        = .ok e' (p.passAll (t :: us)) ∧ e'.erase = e.erase := by
  rw [List.append_assoc] at hp
  rw [passAll_append] at hstops
  rw [totalWeight_append] at hlevel
  have hhalts := hothers.halts (hspans.lastStop? p) (passAll_rest hp) hstops
  have hweight : totalWeight (t :: us) ≤ level := by omega
  obtain ⟨e', hparse, he'⟩ := h.parse hweight (fun h => nomatch h) (Nat.le_refl _) hp hhalts
  exact ⟨e', by rw [← hparse, Grammar.parse_eq hp], he'⟩

/-- All arguments from some place on. -/
theorem Juxtaposed.arguments {stop : Cursor} (h : Juxtaposed stop ts es) {bound : Nat}
    (hbound : ts.length ≤ bound) (hstop : p.lastStop? = some stop)
    (hlevel : totalWeight ts ≤ level) (hp : p.rest = ts ++ rest) (hstops : Stops (p.passAll ts)) :
    ∃ es', argumentsUpTo (grammar level) bound p = .ok es' (p.passAll ts) ∧
      es'.map erase = es.map erase := by
  induction h generalizing p bound with
  | nil =>
    refine ⟨[], ?_, rfl⟩
    cases bound with
    | zero => rfl
    | succ bound =>
      rw [argumentsUpTo]
      cases hrest : p.rest with
      | nil => simp only [hrest, passAll_nil]
      | cons u rest =>
        have hnot := beginsArgument_of_power? (hstops u (by rw [passAll_nil, hrest]; rfl)).1
        rw [passAll_nil] at hnot
        simp only [hrest, hnot, Bool.false_eq_true, if_false, passAll_nil]
  | @cons stop l t us vs arg args first opening apart spans others ih =>
    obtain ⟨bound, rfl⟩ : ∃ n, bound = n + 1 :=
      ⟨bound - 1, by rw [List.cons_append, List.length_cons] at hbound; omega⟩
    obtain ⟨arg', hfirst, harg'⟩ := first.argument spans others hlevel hp hstops
    rw [List.append_assoc] at hp
    rw [totalWeight_append] at hlevel
    rw [passAll_append] at hstops ⊢
    have hlength : vs.length ≤ bound := by
      rw [List.length_append, List.length_cons] at hbound
      omega
    obtain ⟨args', hothers, hargs'⟩ := ih hlength (spans.lastStop? p) (by omega) (passAll_rest hp)
      hstops
    refine ⟨arg' :: args', ?_, by rw [List.map_cons, List.map_cons, harg', hargs']⟩
    rw [argumentsUpTo]
    have hbegins := opening.beginsArgument (adjacent_eq_false hstop apart)
    simp only [hp, List.cons_append, hbegins, if_true]
    rw [bind_eq hfirst, bind_eq hothers]
    rfl

/-- A function and its juxtaposed arguments. -/
theorem rereads_juxtaposition {function : Expr} {l : Location}
    (h : RereadsTightly false ts function) (hspans : l.Spans ts) (hne : es ≠ [])
    (hargs : Juxtaposed l.stop us es) (l' : Location) :
    Rereads (ts ++ us) (.apply l' .curried function es) := by
  intro level p rest hlevel hp hstops
  cases hargs with
  | nil => exact absurd rfl hne
  | @cons _ m t us vs arg args first opening apart spans others =>
    simp only [totalWeight_append, totalWeight_cons, weight_eq] at hlevel
    obtain ⟨level, rfl⟩ : ∃ n, level = n + 1 := ⟨level - 1, by omega⟩
    rw [List.append_assoc] at hp
    rw [passAll_append] at hstops ⊢
    have hpass : (p.passAll ts).rest = t :: us ++ vs ++ rest := passAll_rest hp
    obtain ⟨function', n, hfunction', hn, hparse⟩ := h (level + 1) 0 p _ (by omega) (Nat.zero_le _)
      hp fun h => nomatch h
    obtain ⟨n, rfl⟩ : ∃ k, n = k + 1 :=
      ⟨n - 1, by rw [List.cons_append, List.cons_append, List.length_cons] at hn; omega⟩
    -- the first argument, and the others from where it ends
    have hweight : totalWeight (t :: us ++ vs) ≤ level := by
      obtain ⟨u, ts', rfl, -⟩ := hspans.exists_head
      simp only [totalWeight_append, totalWeight_cons, weight_eq] at hlevel ⊢
      omega
    obtain ⟨arg', hfirst, harg'⟩ := first.argument spans others hweight hpass hstops
    have hrest : ((p.passAll ts).passAll (t :: us)).rest = vs ++ rest :=
      passAll_rest (by rw [hpass, List.append_assoc])
    rw [passAll_append] at hstops ⊢
    have hweight' : totalWeight vs ≤ level := by rw [totalWeight_append] at hweight; omega
    have hbound : vs.length ≤ (vs ++ rest).length := by
      rw [List.length_append]
      exact Nat.le_add_right _ _
    obtain ⟨args', hothers, hargs'⟩ := others.arguments hbound (spans.lastStop? (p.passAll ts))
      hweight' hrest hstops
    have hothers' : arguments (grammar level) ((p.passAll ts).passAll (t :: us))
        = .ok args' (((p.passAll ts).passAll (t :: us)).passAll vs) := by
      rw [arguments, hrest]
      exact hothers
    have hextend := opening.extend? (adjacent_eq_false (hspans.lastStop? p) apart) (grammar level)
      (TypeExpr.grammar (level + 1))
    have hcombine : (juxtaposition (grammar level) t).combine function' ((p.passAll ts).pass t)
        = .ok (application .curried function' (arg' :: args'))
          (((p.passAll ts).passAll (t :: us)).passAll vs) :=
      (bind_eq hfirst).trans (bind_eq hothers')
    refine ⟨application .curried function' (arg' :: args'), ?_, ?_⟩
    · rw [hparse, Grammar.extendUpTo_step hpass hextend (Nat.succ_pos _) hcombine]
      exact Grammar.extendUpTo_halted (halted_of_halts (hstops.halts 0) _) n _
    · rw [application, erase, erase, eraseAll_eq, eraseAll_eq, hfunction', List.map_cons,
        List.map_cons, harg', hargs']

end Reading

end Expr

end Offside
