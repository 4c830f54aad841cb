import Mathlib
import Offside.Proofs.Grammar.Unfolding

/-!
# Sequences of operations

What any finite sequence of operations does to a parser, whether the operations succeed or fail.

* `Parser.Over`: a parser over a sequence of tokens; `Parser.Moves`: how it is left.
* `Operations`: sequences of operations, some of which run others in the interior of a block, inside
  a loop, for each item of a list, or although they fail; `Operations.run`: what they do.
* `Operations.run_alike`: they end, with a value or with an error that is reported.
* `Category.parse_consumes`: a form that is read consumes a token.
* `operations_moves`: every sequence of operations ends, goes forward over the tokens, and leaves
  the labels of the loops as they are; all forms are read to their end, and all loops end.
-/

namespace Offside

open Token Parse

/-! ## Parsers over tokens -/

namespace Parser

/-- A parser over some tokens, all of which up to its position are consumed. -/
structure Over (ts : List Token) (p : Parser) : Prop where
  position : p.position ≤ ts.length
  rest : p.rest = ts.drop p.position

/-- From `p` to `q` a parser over some tokens goes forward, and not past their end. The loops around
it stay. -/
structure Moves (ts : List Token) (p q : Parser) : Prop where
  tokens : q.Over ts
  forward : p.position ≤ q.position
  loops : q.loops = p.loops

variable {ts : List Token} {p q : Parser}

/-- A parser further along is over the same tokens. -/
theorem Over.moves (hp : p.Over ts) (h : p.Reaches q) : p.Moves ts q := by
  have hahead := congrArg List.length hp.rest
  rw [List.length_drop] at hahead
  have hposition := hp.position
  have hconserved := h.position
  have hfewer := h.length_le
  have hsuffix : q.rest <:+ ts := h.rest.trans (hp.rest ▸ List.drop_suffix _ _)
  refine ⟨⟨by omega, ?_⟩, by omega, h.loops⟩
  rw [List.suffix_iff_eq_drop.1 hsuffix]
  congr 1
  have hlength := hsuffix.length_le
  omega

/-- The tokens ahead of a parser over some tokens are among them. -/
theorem Over.ahead {P : Token → Prop} (hp : p.Over ts) (hts : ∀ t ∈ ts, t.Every P) : p.Ahead P :=
  fun t ht => hts t (List.mem_of_mem_drop (hp.rest ▸ ht))

end Parser

/-! ## Sequences of operations -/

/-- A finite sequence of operations of a parser. Their values are not used: an operation that
depends on them is one or the other in a given run. -/
inductive Operations where
  /-- Nothing. -/
  | done
  /-- One sequence after another; an error of the first one ends both. -/
  | andThen (first second : Operations)
  /-- A sequence whose error, if there is one, does not end what is around it. -/
  | attempt (tried : Operations)
  | fail (cause : ParseError) (loc : Location)
  | advance
  | expectToken (expected : String)
  | expect (expected : String) (fits : Token → Bool)
  | accept (fits : Token → Bool)
  | acceptElse
  | expectBody
  | expectEnd
  | parse (category : Category) (power : Nat)
  | sequence (item : Operations)
  | list (item : Operations)
  | within (block : Token) (interior : Operations)
  | insideLoop (label? : Option String) (body : Operations)

namespace Operations

/-- An action without its value. -/
def perform {α : Type} (action : Parse α) : Parse Unit := do
  let _ ← action

/-- An action that goes on from where an error was reported. -/
def recover (action : Parse Unit) : Parse Unit := fun p =>
  match action p with
  | .error (.reported _) q => .ok () q
  | result => result

/-- What a sequence of operations does. -/
def run : Operations → Parse Unit
  | done => return ()
  | andThen first second => do
    first.run
    second.run
  | attempt tried => recover tried.run
  | fail cause loc => Parse.fail cause loc
  | advance => perform Parse.advance
  | expectToken expected => perform (Parse.expectToken expected)
  | expect expected fits => perform (Parse.expect expected fits)
  | accept fits => perform (Parse.accept fits)
  | acceptElse => perform Parse.acceptElse
  | expectBody => perform Parse.expectBody
  | expectEnd => Parse.expectEnd
  | parse category power => perform (category.parse power)
  | sequence item => perform (Parse.sequence item.run)
  | list item => perform (Parse.list item.run)
  | within block interior => Parse.within block interior.run
  | insideLoop label? body => Parse.insideLoop label? body.run

/-- All blocks that operations run in are in columns. -/
def Columned : Operations → Prop
  | andThen first second => first.Columned ∧ second.Columned
  | attempt tried => tried.Columned
  | sequence item => item.Columned
  | list item => item.Columned
  | within block interior => block.Every Token.Columned ∧ interior.Columned
  | insideLoop _ body => body.Columned
  | _ => True

variable {n : Nat}

theorem perform_alike {α : Type} {V : α → Prop} {x : Parse α} (h : Parse.Alike n V x x) :
    Parse.Alike n (fun _ => True) (perform x) (perform x) := h.bind fun _ _ => .pure trivial

theorem recover_alike {x : Parse Unit} (h : Parse.Alike n (fun _ => True) x x) :
    Parse.Alike n (fun _ => True) (recover x) (recover x) := by
  intro p hp
  obtain ⟨q, hq, ⟨a, hok⟩ | ⟨e, herror⟩⟩ := (h p hp).exists_end
  · have hrun : recover x p = .ok a q := by rw [recover, hok]
    rw [hrun]
    exact .ok hq trivial
  · have hrun : recover x p = .ok () q := by rw [recover, herror]
    rw [hrun]
    exact .ok hq trivial

/-- A sequence of operations ends with a value or with an error that is reported, further along. -/
theorem run_alike (s : Operations) (hs : s.Columned) (n : Nat) :
    Parse.Alike (n + 1) (fun _ => True) s.run s.run := by
  induction s generalizing n with
  | done => exact .pure trivial
  | andThen first second hfirst hsecond =>
    exact (hfirst hs.1 n).bind fun _ _ => hsecond hs.2 n
  | attempt tried ih => exact recover_alike (ih hs n)
  | fail cause loc => exact .fail
  | advance => exact perform_alike .advance
  | expectToken expected => exact perform_alike .expectToken
  | expect expected fits => exact perform_alike .expect
  | accept fits => exact perform_alike .accept
  | acceptElse => exact perform_alike .acceptElse
  | expectBody => exact perform_alike .expectBody
  | expectEnd => exact .expectEnd
  | parse category power =>
    refine perform_alike (V := fun _ => True) fun p hp => ?_
    exact (Grammars.nest_settles hp.columned (Nat.lt_succ_self _) .barren category power).left
  | sequence item ih => exact perform_alike (.sequence (ih hs n))
  | list item ih => exact perform_alike (.list (ih hs n))
  | within block interior ih =>
    exact .within ⟨hs.1, Nat.lt_succ_self _⟩ (ih hs.2 (totalWeight block.children))
  | insideLoop label? body ih => exact .insideLoop (ih hs n)

end Operations

/-! ## Forms -/

/-- A form that is read consumes a token. -/
theorem Category.parse_consumes {p q : Parser} (hp : p.Ahead Columned) {c : Category} {power : Nat}
    {form : c.Form} (h : c.parse power p = .ok form q) : p.position < q.position := by
  rw [Grammars.parse_eq] at h
  obtain ⟨t, hconsumes, hok⟩ := Grammar.parse_ok h
  have hrest : p.rest = t :: (p.pass t).rest := hconsumes.1
  have hpast : (p.pass t).Past p.weight t :=
    Parser.Below.pass ⟨hp, Nat.lt_succ_self _⟩ hrest
  have hread := (Grammars.grammar_alike c p.weight p.weight).continueFrom power hpast
  obtain ⟨r, hreaches, ⟨a, hr⟩ | ⟨e, hr⟩⟩ := hread.exists_end
  · cases hok.symm.trans hr
    have hconserved := hreaches.position
    have hfewer := hreaches.length_le
    have hpassed : (p.pass t).position = p.position + 1 := rfl
    omega
  · cases hok.symm.trans hr

/-! ## The discipline -/

/-- Whatever a parser over some tokens is asked to do, it does to an end.

Every sequence of operations ends with a value or with an error that is reported, at a place over
the same tokens that is not before the one where it began, and inside the same loops. A form that is
read consumes a token. How deep the forms nest is bounded by the number of tokens ahead: nested more
often, all grammars read what they read, whatever they are nested over. In the same way the loops
over items, after commas, over the tokens that continue a form and over juxtaposed arguments end
before they have taken more turns than there are trees ahead. -/
theorem operations_moves {ts : List Token} (hts : ∀ t ∈ ts, t.Every Token.Columned) {p : Parser}
    (hp : p.Over ts) :
    (∀ s : Operations, s.Columned → ∃ q, p.Moves ts q ∧
      (s.run p = .ok () q ∨ ∃ e, s.run p = .error (.reported e) q)) ∧
    (∀ (c : Category) power form q, c.parse power p = .ok form q → p.position < q.position) ∧
    (∀ (c : Category) power depth below, p.weight < depth →
      ((Grammars.nest^[depth] below).of c).parse power p = c.parse power p) ∧
    (∀ s : Operations, s.Columned → ItemLoopsEnd p s.run) ∧
    (∀ (c : Category) level power, ItemLoopsEnd p ((c.grammar level).parse power)) ∧
    (∀ (c : Category) level power form turns below, p.rest.length < turns →
      ((c.grammar level).extendTurn power)^[turns] below form p
        = (c.grammar level).extendUpTo power p.rest.length form p) ∧
    (∀ level turns below, p.rest.length < turns →
      (Expr.argumentsTurn (Expr.grammar level))^[turns] below p
        = Expr.arguments (Expr.grammar level) p) := by
  have hahead := hp.ahead hts
  have hbelow : p.Below (p.weight + 1) := ⟨hahead, Nat.lt_succ_self _⟩
  have hread (c : Category) (level : Nat) := Grammars.grammar_alike c level (p.weight + 1)
  refine ⟨fun s hs => ?_, fun c power form q => Category.parse_consumes hahead,
    fun c power depth below hdepth => ?_, fun s hs => (s.run_alike hs _).itemLoopsEnd hbelow,
    fun c level power => ?_, fun c level power form turns below hturns => ?_,
    fun level turns below hturns => ?_⟩
  · obtain ⟨q, hq, hend⟩ := (s.run_alike hs _ p hbelow).exists_end
    exact ⟨q, hp.moves hq, hend.imp_left fun ⟨_, hok⟩ => hok⟩
  · exact (Grammars.nest_settles hahead hdepth below c power).eq.symm
  · exact (((hread c level).parse power).mono (Nat.le_succ _)).itemLoopsEnd hbelow
  · exact Grammar.extend_settle (hread c level) hbelow power hturns below form
  · exact Expr.arguments_settle ((hread .expression level).mono (Nat.le_succ _)) hbelow hturns below

/-- A `break` out of a loop with a label that no loop around it has: the error leaves the loop that
is being read, and the loop around that stays. -/
theorem operations_moves_label : ∃ ts p q e, (∀ t ∈ ts, t.Every Token.Columned) ∧ p.Over ts ∧
    p.loops = [some "again"] ∧ (Operations.parse .statement 0).run p = .error (.reported e) q ∧
    p.Moves ts q := by
  let l := Location.one .origin
  let inner := [Token.leaf .reserved "break" l, .leaf .identifier "outer" l]
  let ts := [Token.leaf .reserved "forever" l, .block (.bracketed .brace) l inner]
  let p : Parser := { Parser.ofTokens l ts with loops := [some "again"] }
  have hleaf (kind : TokenKind) (text : String) : (Token.leaf kind text l).Every Columned :=
    .intro ⟨Nat.le_refl 1, Nat.le_succ 1⟩ nofun
  have hinner : ∀ t ∈ inner, t.Every Token.Columned :=
    List.forall_mem_cons.2 ⟨hleaf _ _, List.forall_mem_singleton.2 (hleaf _ _)⟩
  have hts : ∀ t ∈ ts, t.Every Token.Columned := List.forall_mem_cons.2
    ⟨hleaf _ _, List.forall_mem_singleton.2 (.intro ⟨Nat.le_refl 1, Nat.le_succ 1⟩ hinner)⟩
  have hover : p.Over ts := ⟨Nat.zero_le _, rfl⟩
  obtain ⟨q, hmoves, hok | ⟨e, herror⟩⟩ :=
    (operations_moves hts hover).1 (.parse .statement 0) trivial
  · have hfails : ∃ e r, (Operations.parse .statement 0).run p = .error e r := ⟨_, _, by cbv⟩
    obtain ⟨e, r, herror⟩ := hfails
    cases hok.symm.trans herror
  · exact ⟨ts, p, q, e, hts, hover, rfl, herror, hmoves⟩

end Offside
