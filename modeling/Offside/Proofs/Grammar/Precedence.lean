import Offside.Grammar.Declarations
import Offside.Proofs.Printing.Rereading

/-!
# Chains of operators

Operands with infix tokens between them are read as the table of binding powers says. The loosest of
the infix tokens is applied last, and among equally loose ones the last.

* `Expr.Operand`: a token that is an expression on its own. `Expr.Joins`, `Expr.Link`: a token
  between two operands, with the operand after it. `Expr.chain`: the tokens of an operand and links.
* `Expr.Tree`: the expression that such tokens stand for. `Expr.Tree.unique`: there is only one.
* `Expr.joins_extension`: an infix token makes an application of what is before it and of what is
  read after it.
* `Expr.extendUpTo_link`, `Expr.extendUpTo_chain`: links are read one after another, each with those
  that bind tighter. The links that are read already bind no looser than the next one.
* `Expr.parse_chain`, `parseExpression_chain`: so a chain is read as its expression.
-/

namespace Offside

open Token Parse Parser Location

namespace Expr

/-! ## Chains -/

/-- A name or a number. -/
structure Operand where
  token : Token
  isOperand : token.kind = .identifier ∨ token.kind = .number

/-- What an operand stands for, up to locations. -/
def Operand.expr (x : Operand) : Expr :=
  if x.token.kind = .number then .number nowhere x.token.text else .ident nowhere x.token.text

/-- The token stands between two operands with a binding power, and applies what has a name to
them. -/
inductive Joins : Token → (power : Nat) → (name : String) → Prop
  /-- A binary operator. -/
  | operator {t : Token} {n : Nat} (kind : t.kind = .operator)
    (binary : bindingPower? t.text = some n) : Joins t n t.text
  /-- A name in backticks. -/
  | backtick {t name : Token} (kind : t.blockKind? = some (.bracketed .backtick))
    (column : 1 ≤ t.loc.stop.col) (interior : t.children = [name])
    (isName : name.kind = .identifier) : Joins t backtickPower name.text

/-- A token between two operands, and the operand after it. -/
structure Link where
  joint : Token
  power : Nat
  name : String
  joins : Joins joint power name
  operand : Operand

/-- The tokens of a link. -/
def Link.tokens (link : Link) : List Token := [link.joint, link.operand.token]

/-- The tokens of some links. -/
def linkTokens (links : List Link) : List Token := links.flatMap Link.tokens

/-- The tokens of a first operand and of links after it. -/
def chain (x : Operand) (links : List Link) : List Token := x.token :: linkTokens links

/-- The expression that a first operand and links stand for, up to locations: the operand, or the
application of the last of the loosest links to what the operands on its left and on its right
stand for. -/
inductive Tree : Operand → List Link → Expr → Prop
  | operand (x : Operand) : Tree x [] x.expr
  | apply {x : Operand} {left right : List Link} {link : Link} {a b : Expr}
    (hleft : ∀ l ∈ left, link.power ≤ l.power) (hright : ∀ l ∈ right, link.power < l.power)
    (ha : Tree x left a) (hb : Tree link.operand right b) :
    Tree x (left ++ link :: right)
      (.apply nowhere .curried (.ident nowhere link.name) [a, b])

/-- The last of the loosest links is unique. -/
theorem loosest_unique {left left' right right' : List Link} {link link' : Link}
    (h : left ++ link :: right = left' ++ link' :: right')
    (hright : ∀ l ∈ right, link.power < l.power) (hleft' : ∀ l ∈ left', link'.power ≤ l.power) :
    left'.length ≤ left.length := by
  refine Nat.le_of_not_lt fun hlt => ?_
  rcases List.append_eq_append_iff.1 h with ⟨mid, rfl, hmid⟩ | ⟨mid, rfl, hmid⟩
  · cases mid with
    | nil => simp at hlt
    | cons l mid =>
      cases hmid
      have hle := hleft' link (List.mem_append_right _ List.mem_cons_self)
      have hlt' := hright link' (List.mem_append_right _ List.mem_cons_self)
      omega
  · rw [List.length_append] at hlt
    omega

/-- A chain stands for one expression only. -/
theorem Tree.unique {x : Operand} {links : List Link} {e e' : Expr} (h : Tree x links e)
    (h' : Tree x links e') : e = e' := by
  induction h generalizing e' with
  | operand x =>
    generalize hlinks : ([] : List Link) = links at h'
    cases h' with
    | operand => rfl
    | apply => simp at hlinks
  | @apply x left right link a b hleft hright _ _ iha ihb =>
    generalize hlinks : left ++ link :: right = links at h'
    cases h' with
    | operand => simp at hlinks
    | apply hleft' hright' ha' hb' =>
      have hlength := Nat.le_antisymm (loosest_unique hlinks.symm hright' hleft)
        (loosest_unique hlinks hright hleft')
      obtain ⟨rfl, hrest⟩ := List.append_inj hlinks hlength
      cases hrest
      rw [iha ha', ihb hb']

/-! ## Reading operands and infix tokens -/

/-- An operand is read from its token. -/
theorem start_operand (x : Operand) (parts : Grammar Expr) (p : Parser) :
    ∃ e, start parts x.token p = .ok e p ∧ e.erase = x.expr := by
  unfold start Operand.expr
  rcases x.isOperand with hkind | hkind
  · exact ⟨ofName x.token, by simp only [hkind]; rfl, by simp [hkind, ofName, erase]⟩
  · exact ⟨.number x.token.loc x.token.text, by simp only [hkind]; rfl, by simp [hkind, erase]⟩

/-- An infix token continues an expression with its binding power. -/
theorem Joins.power? {t : Token} {n : Nat} {name : String} (h : Joins t n name) (p : Parser) :
    power? p t = some n := by
  cases h with
  | operator kind binary => exact power?_operator kind binary p
  | backtick kind _ _ _ => simp only [Expr.power?, kind_of_blockKind? kind, kind]

/-- Every infix token binds. -/
theorem Joins.pos {t : Token} {n : Nat} {name : String} (h : Joins t n name) : 0 < n := by
  cases h with
  | operator _ binary => exact bindingPower?_pos binary
  | backtick => decide

/-- What an infix token makes of the expression before it: past the token it reads what binds
tighter, and applies its name to both. -/
theorem joins_extension {t : Token} {n level : Nat} {name : String} (h : Joins t n name)
    (hlevel : totalWeight t.children ≤ level) (p : Parser) :
    ∃ extension, (grammar (level + 1)).extend? p t = some extension ∧ extension.power = n ∧
      ∀ left right q, (grammar level).parse n (p.pass t) = .ok right q →
        ∃ e, extension.combine left (p.pass t) = .ok e q ∧
          e.erase = .apply nowhere .curried (.ident nowhere name) [left.erase, right.erase] := by
  cases h with
  | operator kind binary =>
    refine ⟨_, grammar_extend?_operator kind binary level p, rfl, fun left right q hright => ?_⟩
    obtain ⟨e, hcombine, he⟩ := infixCall_combine hright rfl rfl nowhere nowhere
    exact ⟨e, hcombine, by simpa only [erase, eraseAll_eq, List.map_cons, List.map_nil] using he⟩
  | @backtick name kind column interior isName =>
    have hgroup : t.IsGroup .backtick [name] := ⟨kind, Nat.ne_of_gt column, interior⟩
    obtain ⟨function, hwithin, hfunction⟩ :=
      (tightly_ident isName nowhere).rereads.within hgroup (p.pass t) hlevel
    refine ⟨backtickCall (grammar level) t, ?_, rfl, fun left right q hright =>
      ⟨.apply (left.loc.join right.loc) .curried function [left, right],
        (bind_eq hwithin).trans (bind_eq hright), ?_⟩⟩
    · show extend? _ _ p t = _
      simp only [extend?, kind_of_blockKind? kind, kind]
    · simp only [erase, eraseAll_eq, List.map_cons, List.map_nil, hfunction]

/-! ## Reading chains -/

theorem length_le_linkTokens (links : List Link) : links.length ≤ (linkTokens links).length := by
  induction links with
  | nil => exact Nat.le_refl _
  | cons link links ih =>
    simp only [linkTokens, List.flatMap_cons, Link.tokens, List.length_append, List.length_cons]
    simp only [linkTokens] at ih
    omega

/-- The tokens of a link are its joint and its operand, which begins the chain of the links that
follow. -/
theorem linkTokens_cons (link : Link) (tighter later : List Link) :
    linkTokens (link :: (tighter ++ later))
      = link.joint :: (chain link.operand tighter ++ linkTokens later) := by
  simp [linkTokens, chain, Link.tokens]

/-- Past the joint of a link the right operand is ahead, with the links that bind tighter. -/
theorem pass_link_rest {link : Link} {tighter later : List Link} {p : Parser} {rest : List Token}
    (hp : p.rest = linkTokens (link :: (tighter ++ later)) ++ rest) :
    (p.pass link.joint).rest = chain link.operand tighter ++ (linkTokens later ++ rest) := by
  rw [pass_rest, hp, linkTokens_cons, List.cons_append, List.append_assoc]
  rfl

/-- Links begin with those that bind tighter than some power, up to one that does not. -/
theorem exists_tighter (n : Nat) (links : List Link) :
    ∃ tighter later, links = tighter ++ later ∧ (∀ l ∈ tighter, n < l.power) ∧
      ∀ next ∈ later.head?, next.power ≤ n := by
  refine ⟨links.takeWhile (n < ·.power), links.dropWhile (n < ·.power),
    List.takeWhile_append_dropWhile.symm, fun l hl => ?_, fun next hnext => ?_⟩
  · exact of_decide_eq_true (List.all_eq_true.1 List.all_takeWhile l hl)
  · have hnot := List.head?_dropWhile_not (n < ·.power) links
    rw [Option.mem_def.1 hnext] at hnot
    exact Nat.le_of_not_lt (of_decide_eq_false hnot)

/-- Nothing that binds tighter than some power continues an expression before links if the first of
them does not, and without links if nothing does after them. -/
theorem halts_linkTokens {links : List Link} {power n : Nat} {p : Parser} {rest : List Token}
    (hhead : ∀ l ∈ links.head?, l.power ≤ n) (hle : power ≤ n)
    (hp : p.rest = linkTokens links ++ rest) (hhalts : Halts power (p.passAll (linkTokens links))) :
    Halts n p := by
  cases links with
  | nil => exact hhalts.mono hle
  | cons link links =>
    intro t k ht hk
    rw [hp] at ht
    cases ht
    cases (link.joins.power? p).symm.trans hk
    exact hhead link rfl

/-- The grammar of a level reads a chain as the expression that it stands for, if all links of the
chain bind tighter than asked for and what follows the chain does not. -/
def ReadsChains (level : Nat) : Prop :=
  ∀ (power : Nat) (x : Operand) (links : List Link) (p : Parser) (rest : List Token),
    totalWeight (chain x links) ≤ level → (∀ l ∈ links, power < l.power) →
    p.rest = chain x links ++ rest → Halts power (p.passAll (chain x links)) →
    ∃ e, (grammar level).parse power p = .ok e (p.passAll (chain x links)) ∧ Tree x links e.erase

/-- A link with the tighter links after it continues the expression of the links before it, if those
bind no looser. -/
theorem extendUpTo_link {level power : Nat} (hreads : ReadsChains level) {x : Operand}
    {link : Link} {before tighter later : List Link} {left : Expr} {p : Parser} {rest : List Token}
    (hleft : Tree x before left.erase) (hbefore : ∀ l ∈ before, link.power ≤ l.power)
    (hlink : power < link.power) (htighter : ∀ l ∈ tighter, link.power < l.power)
    (hlater : ∀ next ∈ later.head?, next.power ≤ link.power)
    (hlevel : totalWeight (linkTokens (link :: (tighter ++ later))) ≤ level)
    (hp : p.rest = linkTokens (link :: (tighter ++ later)) ++ rest)
    (hhalts : Halts power (p.passAll (linkTokens (link :: (tighter ++ later))))) (bound : Nat) :
    ∃ left', (grammar (level + 1)).extendUpTo power (bound + 1) left p
        = (grammar (level + 1)).extendUpTo power bound left'
          ((p.pass link.joint).passAll (chain link.operand tighter)) ∧
      Tree x (before ++ link :: tighter) left'.erase := by
  have hright := pass_link_rest hp
  rw [linkTokens_cons] at hlevel hp hhalts
  rw [totalWeight_cons, totalWeight_append, weight_eq] at hlevel
  rw [passAll_cons, passAll_append] at hhalts
  obtain ⟨right, hparse, hrightTree⟩ := hreads link.power link.operand tighter _ _ (by omega)
    htighter hright (halts_linkTokens hlater (Nat.le_of_lt hlink) (passAll_rest hright) hhalts)
  obtain ⟨extension, hextension, hpower, hcombine⟩ :=
    joins_extension link.joins (by omega : totalWeight link.joint.children ≤ level) p
  obtain ⟨left', hok, hleft'⟩ := hcombine left right _ hparse
  refine ⟨left', Grammar.extendUpTo_step hp hextension (hpower ▸ hlink) hok bound, ?_⟩
  rw [hleft']
  exact .apply hbefore htighter hleft hrightTree

/-- Links continue the expression of the links before them, if those bind no looser than the next
one. The induction is on the bound of the walk: a step reads a link with the tighter ones after
it. -/
theorem extendUpTo_chain {level power : Nat} (hreads : ReadsChains level) {x : Operand}
    {before after : List Link} {left : Expr} {p : Parser} {rest : List Token} {bound : Nat}
    (hleft : Tree x before left.erase)
    (hnext : ∀ next ∈ after.head?, ∀ l ∈ before, next.power ≤ l.power)
    (htight : ∀ l ∈ after, power < l.power) (hlevel : totalWeight (linkTokens after) ≤ level)
    (hp : p.rest = linkTokens after ++ rest) (hhalts : Halts power (p.passAll (linkTokens after)))
    (hbound : after.length ≤ bound) :
    ∃ e, (grammar (level + 1)).extendUpTo power bound left p
        = .ok e (p.passAll (linkTokens after)) ∧ Tree x (before ++ after) e.erase := by
  induction bound generalizing before after left p with
  | zero =>
    obtain rfl := List.eq_nil_of_length_eq_zero (Nat.le_zero.1 hbound)
    exact ⟨left, rfl, by rwa [List.append_nil]⟩
  | succ bound ih =>
    cases after with
    | nil =>
      refine ⟨left, ?_, by rwa [List.append_nil]⟩
      exact Grammar.extendUpTo_halted (halted_of_halts hhalts _) _ left
    | cons link others =>
      obtain ⟨tighter, later, rfl, htighter, hlater⟩ := exists_tighter link.power others
      obtain ⟨left', hstep, hleft'⟩ := extendUpTo_link hreads hleft (hnext link rfl)
        (htight link List.mem_cons_self) htighter hlater hlevel hp hhalts bound
      have hnext' : ∀ next ∈ later.head?, ∀ l ∈ before ++ link :: tighter,
          next.power ≤ l.power := by
        intro next hmem l hl
        refine Nat.le_trans (hlater next hmem) ?_
        rcases List.mem_append.1 hl with hl | hl
        · exact hnext link rfl l hl
        · rcases List.mem_cons.1 hl with rfl | hl
          · exact Nat.le_refl _
          · exact Nat.le_of_lt (htighter l hl)
      have hrest := passAll_rest (pass_link_rest hp)
      rw [linkTokens_cons] at hlevel hhalts ⊢
      rw [totalWeight_cons, totalWeight_append] at hlevel
      rw [passAll_cons, passAll_append] at hhalts ⊢
      rw [List.length_cons, List.length_append] at hbound
      obtain ⟨e, hall, htree⟩ := ih hleft' hnext'
        (fun l hl => htight l (List.mem_cons_of_mem _ (List.mem_append_right _ hl)))
        (by omega) hrest hhalts (by omega)
      exact ⟨e, hstep.trans hall, by rwa [List.append_assoc] at htree⟩

/-- The grammar of every level reads chains. -/
theorem parse_chain (level : Nat) : ReadsChains level := by
  induction level with
  | zero =>
    intro power x links p rest hlevel
    rw [chain, totalWeight_cons, weight_eq] at hlevel
    omega
  | succ level ih =>
    intro power x links p rest hlevel htight hp hhalts
    rw [chain, totalWeight_cons, weight_eq] at hlevel
    rw [chain, passAll_cons] at hhalts ⊢
    obtain ⟨operand, hstart, hoperand⟩ := start_operand x (grammar level) (p.pass x.token)
    have hrest : (p.pass x.token).rest = linkTokens links ++ rest := by
      rw [pass_rest, hp]
      rfl
    rw [Grammar.parse_eq hp, Grammar.continueFrom_eq hstart]
    have hbound : links.length ≤ (p.pass x.token).rest.length := by
      rw [hrest, List.length_append]
      exact Nat.le_add_right_of_le (length_le_linkTokens links)
    have htree : Tree x [] operand.erase := hoperand ▸ .operand x
    exact extendUpTo_chain ih htree (fun _ _ _ hl => absurd hl List.not_mem_nil) htight (by omega)
      hrest hhalts hbound

end Expr

/-- Operands with infix tokens between them, the whole of an input, are read as an expression. Up to
locations it is the operand if there is only one, and otherwise the curried application of the last
of the loosest infix tokens to what stands on its left and on its right. It stands for no other. -/
theorem parseExpression_chain (x : Expr.Operand) (links : List Expr.Link) (span : Location) :
    ∃ e, parseExpression span (Expr.chain x links) = .ok e ∧ Expr.Tree x links e.erase ∧
      ∀ tree, Expr.Tree x links tree → tree = e.erase := by
  have hp : (Parser.ofTokens span (Expr.chain x links)).rest = Expr.chain x links ++ [] :=
    (List.append_nil _).symm
  have hend := passAll_rest hp
  obtain ⟨e, hparse, htree⟩ := Expr.parse_chain _ 0 x links (Parser.ofTokens span _) []
    (Nat.le_refl _) (fun l _ => l.joins.pos) hp ((Expr.stops_nil hend).halts 0)
  refine ⟨e, ?_, htree, fun tree h => h.unique htree⟩
  have hexpr : Expr.parse 0 (Parser.ofTokens span (Expr.chain x links)) = .ok e _ := hparse
  rw [parseExpression, Parse.result, bind_eq hexpr, bind_eq (expectEnd_eq hend)]
  rfl

example : (do
    let tokens ← (Token.ofSource "a - b `h` c * 2").toOption
    let e ← (parseExpression (Location.point Cursor.origin) tokens).toOption
    return e.erase) =
    some (.apply nowhere .curried (.ident nowhere "h")
      [.apply nowhere .curried (.ident nowhere "-") [.ident nowhere "a", .ident nowhere "b"],
        .apply nowhere .curried (.ident nowhere "*")
          [.ident nowhere "c", .number nowhere "2"]]) := by
  rw [Token.ofSource_eq_trees]
  cbv

end Offside
