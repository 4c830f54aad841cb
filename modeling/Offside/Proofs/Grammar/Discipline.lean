import Offside.Proofs.Diagnostic.Messages
import Offside.Proofs.Grammar.Steps
import Offside.Proofs.Token.Relocation

/-!
# How parsers end, whether they succeed or fail

Every action of a parser ends at or after the place where it began, inside the same loops, both with
a value and with a failure; and a failure names what would have fitted, and a token that is there.

* `Parser.Reaches`: a parser that is further along.
* `ParseError.Names`, `Failure.Names`: what an error says. `ParseError.Names.sayable`: it can be
  said in a message if the texts of tokens can.
* `Parse.Steady`: an action that ends so. `Parse.Steady.bind`, `Parse.Steady.expect`,
  `Parse.Steady.within`, `Parse.Steady.items`, ...: one lemma for each step and each combinator.
* `Grammar.Steady`: a grammar whose forms are begun and continued so. `Grammar.Steady.parse`: they
  are read so.
-/

namespace Offside

open Token

/-! ## Parsers further along -/

namespace Parser

/-- The parser `q` has some of the last tokens of `p` ahead, has moved on by as many tokens as it
has fewer ahead, and is inside the same loops. -/
structure Reaches (p q : Parser) : Prop where
  rest : q.rest <:+ p.rest
  position : q.position + q.rest.length = p.position + p.rest.length
  loops : q.loops = p.loops

theorem Reaches.refl (p : Parser) : p.Reaches p := ⟨List.suffix_refl _, rfl, rfl⟩

theorem Reaches.trans {p q r : Parser} (hpq : p.Reaches q) (hqr : q.Reaches r) : p.Reaches r :=
  ⟨hqr.rest.trans hpq.rest, hqr.position.trans hpq.position, hqr.loops.trans hpq.loops⟩

/-- A parser is further along past its next token. -/
theorem Reaches.pass {p : Parser} {t : Token} {ts : List Token} (h : p.rest = t :: ts) :
    p.Reaches (p.pass t) := by
  refine ⟨?_, ?_, rfl⟩
  · rw [pass_rest, h]
    exact List.suffix_cons t ts
  · rw [pass_rest, h, List.tail_cons, List.length_cons]
    show p.position + 1 + ts.length = p.position + (ts.length + 1)
    omega

/-- After the interior of a block, a parser is where it was before it. -/
theorem Reaches.afterInterior {p q : Parser} {block : Token} {endLoc : Location}
    (h : (p.interior block endLoc).Reaches q) : p.Reaches { p with loops := q.loops } :=
  ⟨List.suffix_refl _, rfl, h.loops⟩

/-- After the body of a loop, a parser is further along and not in this loop. -/
theorem Reaches.afterLoop {p q : Parser} {label? : Option String}
    (h : ({ p with loops := label? :: p.loops } : Parser).Reaches q) :
    p.Reaches { q with loops := q.loops.tail } :=
  ⟨h.rest, h.position, congrArg List.tail h.loops⟩

/-- All tokens that a parser has ahead have some property, with their interiors. -/
def Ahead (P : Token → Prop) (p : Parser) : Prop := ∀ t ∈ p.rest, t.Every P

/-- They have it further along. -/
theorem Ahead.reaches {P : Token → Prop} {p q : Parser} (hp : p.Ahead P) (h : p.Reaches q) :
    q.Ahead P := fun t ht => hp t (h.rest.subset ht)

end Parser

/-! ## What failures name -/

section Names

variable (P : Token → Prop)

/-- What was found is a token with some property, something called by a phrase, or an end. -/
def Found.Names : Found → Prop
  | token kind text => ∃ t : Token, P t ∧ t.kind = kind ∧ t.text = text
  | expression description => Text.Phrase description
  | ending _ => True

/-- What was expected is called by a phrase, and what was found is something that is there. -/
structure ParseError.Names (e : ParseError) : Prop where
  expected : Text.Phrase e.expected
  found : e.found.Names P

/-- A failure is a fault, or names what was expected and what was found. -/
def Failure.Names : Failure ParseError → Prop
  | reported e => e.cause.Names P
  | fault _ => True

end Names

/-- An error can be said if the texts of tokens can. -/
theorem ParseError.Names.sayable {P : Token → Prop} {e : ParseError} (h : e.Names P)
    (hP : ∀ t, P t → Text.Unspaced t.text) : e.Sayable := by
  obtain ⟨hexpected, hfound⟩ := h
  refine ⟨hexpected, ?_⟩
  revert hfound
  cases e.found with
  | token kind text =>
    rintro ⟨t, ht, -, rfl⟩
    exact hP t ht
  | expression description => exact id
  | ending e => exact id

/-! ## Actions -/

namespace Parse

open Parser

variable {α β : Type} {P : Token → Prop}

/-- A result with a value or with a failure, of a parser further along. -/
def Ends (P : Token → Prop) (V : α → Prop) (p : Parser) :
    EStateM.Result (Failure ParseError) Parser α → Prop
  | .ok a q => p.Reaches q ∧ V a
  | .error e q => p.Reaches q ∧ e.Names P

/-- Where the tokens ahead have a property, an action ends further along in the same loops, with a
value or with a failure that names what is there. -/
def Steady (P : Token → Prop) (V : α → Prop) (x : Parse α) : Prop :=
  ∀ p : Parser, p.Ahead P → Ends P V p (x p)

/-- What ends further along than a parser that is further along does so. -/
theorem Ends.of_reaches {V : α → Prop} {p q : Parser}
    {r : EStateM.Result (Failure ParseError) Parser α} (h : Ends P V q r) (hpq : p.Reaches q) :
    Ends P V p r := by
  cases r with
  | ok a q' => exact ⟨hpq.trans h.1, h.2⟩
  | error e q' => exact ⟨hpq.trans h.1, h.2⟩

/-- What comes after an action starts from its value, further along. -/
theorem Ends.bind {V : α → Prop} {W : β → Prop} {x : Parse α} {k : α → Parse β} {p : Parser}
    (h : Ends P V p (x p)) (hk : ∀ a q, p.Reaches q → V a → Ends P W q (k a q)) :
    Ends P W p ((x >>= k) p) := by
  show Ends P W p (EStateM.bind x k p)
  unfold EStateM.bind
  revert h
  cases x p with
  | ok a q => exact fun h => (hk a q h.1 h.2).of_reaches h.1
  | error e q => exact id

namespace Steady

variable {V : α → Prop} {W : β → Prop} {x y : Parse α}

theorem pure {a : α} (h : V a) : Steady P V (Pure.pure a) := fun p _ => ⟨.refl p, h⟩

theorem bind {k : α → Parse β} (hx : Steady P V x) (hk : ∀ a, V a → Steady P W (k a)) :
    Steady P W (x >>= k) :=
  fun p hp => (hx p hp).bind fun a q hq ha => hk a ha q (hp.reaches hq)

/-- An action may look at the parser first. -/
theorem get_bind {k : Parser → Parse β} (hk : ∀ p, p.Ahead P → Ends P W p (k p p)) :
    Steady P W (get >>= k) := fun p hp => hk p hp

theorem ite {c : Prop} [Decidable c] (hx : c → Steady P V x) (hy : ¬ c → Steady P V y) :
    Steady P V (if c then x else y) := by
  by_cases h : c
  · rw [if_pos h]
    exact hx h
  · rw [if_neg h]
    exact hy h

/-! ## Single steps -/

theorem fail {cause : ParseError} {loc : Location} (h : cause.Names P) :
    Steady P V (Parse.fail cause loc) := fun p _ => ⟨.refl p, h⟩

/-- The end of the tokens in place of what is expected. -/
theorem ends_unexpected_none {expected : String} (h : Text.Phrase expected) (p : Parser) :
    Ends P V p (.error (p.unexpected expected none) p) := ⟨.refl p, h, trivial⟩

theorem unexpected_some {expected : String} (h : Text.Phrase expected) {t : Token}
    (ht : t.Every P) : Steady P V (Parse.unexpected expected (some t)) :=
  fun p _ => ⟨.refl p, h, t, ht.here, rfl, rfl⟩

theorem unexpected {expected : String} (h : Text.Phrase expected) {t? : Option Token}
    (ht : ∀ t, t? = some t → t.Every P) : Steady P V (Parse.unexpected expected t?) := by
  cases t? with
  | none => exact fun p _ => ends_unexpected_none h p
  | some t => exact unexpected_some h (ht t rfl)

theorem expectToken {expected : String} (h : Text.Phrase expected) :
    Steady P (Token.Every P) (Parse.expectToken expected) := by
  intro p hp
  unfold Parse.expectToken
  cases hrest : p.rest with
  | nil => exact ends_unexpected_none h p
  | cons t ts => exact ⟨.pass hrest, hp t (by simp [hrest])⟩

theorem expect {expected : String} (h : Text.Phrase expected) (fits : Token → Bool) :
    Steady P (Token.Every P) (Parse.expect expected fits) := by
  intro p hp
  unfold Parse.expect
  cases hrest : p.rest with
  | nil => exact ends_unexpected_none h p
  | cons t ts =>
    have ht : t.Every P := hp t (by simp [hrest])
    dsimp only
    split
    · exact ⟨.pass hrest, ht⟩
    · exact unexpected_some h ht p hp

theorem expectBody : Steady P (Token.Every P) Parse.expectBody := expect (by decide) _

theorem accept (fits : Token → Bool) :
    Steady P (fun t? => ∀ t, t? = some t → t.Every P) (Parse.accept fits) := by
  intro p hp
  unfold Parse.accept
  cases hrest : p.rest with
  | nil => exact ⟨.refl p, nofun⟩
  | cons t ts =>
    have ht : t.Every P := hp t (by simp [hrest])
    dsimp only
    split
    · exact ⟨.pass hrest, fun u hu => Option.some.inj hu ▸ ht⟩
    · exact ⟨.refl p, nofun⟩

theorem acceptElse :
    Steady P (fun t? => ∀ t, t? = some t → t.Every P) Parse.acceptElse := by
  intro p hp
  unfold Parse.acceptElse
  cases hrest : p.rest with
  | nil => exact ⟨.refl p, nofun⟩
  | cons t ts =>
    have ht : t.Every P := hp t (by simp [hrest])
    dsimp only
    split
    · exact ⟨.pass hrest, fun u hu => Option.some.inj hu ▸ ht⟩
    · split
      · exact ⟨.refl p, nofun⟩
      · rename_i u us
        have hu : u.Every P := hp u (by simp [hrest])
        have hpass : (p.pass t).rest = u :: us := by rw [pass_rest, hrest, List.tail_cons]
        split
        · exact ⟨(Reaches.pass hrest).trans (.pass hpass), fun v hv => Option.some.inj hv ▸ hu⟩
        · exact ⟨.refl p, nofun⟩

theorem peek : Steady P (fun t? => ∀ t, t? = some t → t.Every P) Parse.peek :=
  fun p hp => ⟨.refl p, fun t ht => hp t (List.mem_of_mem_head? ht)⟩

theorem advance : Steady P (fun t? => ∀ t, t? = some t → t.Every P) Parse.advance := by
  intro p hp
  unfold Parse.advance
  cases hrest : p.rest with
  | nil => exact ⟨.refl p, nofun⟩
  | cons t ts =>
    have ht : t.Every P := hp t (by simp [hrest])
    exact ⟨.pass hrest, fun u hu => Option.some.inj hu ▸ ht⟩

theorem isDone : Steady P (fun _ => True) Parse.isDone := fun p _ => ⟨.refl p, trivial⟩

/-- What an end is called is a phrase. -/
theorem ending_phrase (e : Ending) : Text.Phrase e.name := by cases e <;> decide

theorem expectEnd : Steady P (fun _ => True) Parse.expectEnd := by
  intro p hp
  unfold Parse.expectEnd
  cases hrest : p.rest with
  | nil => exact ⟨.refl p, trivial⟩
  | cons t ts => exact unexpected_some (ending_phrase _) (hp t (by simp [hrest])) p hp

/-! ## Blocks and loops -/

/-- The parser of the interior is left behind, in the same loops. -/
theorem inside {block : Token} (hblock : block.Every P) (h : Steady P V x) :
    Steady P V (Parse.inside block x) := by
  intro p hp
  unfold Parse.inside
  dsimp only
  generalize (if block.isBlock .indented then some block.loc.endPoint
    else block.loc.lastChar?) = endLoc?
  cases endLoc? with
  | none => exact ⟨.refl p, trivial⟩
  | some endLoc =>
    have hin := h (p.interior block endLoc) fun t ht => hblock.inside ht
    dsimp only
    revert hin
    cases x (p.interior block endLoc) with
    | ok a q => exact fun hin => ⟨hin.1.afterInterior, hin.2⟩
    | error e q => exact fun hin => ⟨hin.1.afterInterior, hin.2⟩

theorem within {block : Token} (hblock : block.Every P) (h : Steady P V x) :
    Steady P V (Parse.within block x) := by
  refine inside hblock ?_
  exact h.bind fun a ha => expectEnd.bind fun _ _ => pure ha

/-- The loop that an action runs in is left with it. -/
theorem insideLoop {label? : Option String} (h : Steady P V x) :
    Steady P V (Parse.insideLoop label? x) := by
  intro p hp
  have hin := h { p with loops := label? :: p.loops } hp
  unfold Parse.insideLoop
  revert hin
  cases x { p with loops := label? :: p.loops } with
  | ok a q => exact fun hin => ⟨hin.1.afterLoop, hin.2⟩
  | error e q => exact fun hin => ⟨hin.1.afterLoop, hin.2⟩

/-! ## Sequences -/

/-- What is expected between two items, or after the last one, is called by a phrase. -/
theorem separator_phrase (separator : TokenKind) (e : Ending) :
    Text.Phrase ("a " ++ separator.describe ++ " or " ++ e.name) := by
  cases separator <;> cases e <;> decide

theorem itemsUpTo {separator : TokenKind} (h : Steady P V x) (bound : Nat) :
    Steady P (fun _ => True) (Parse.itemsUpTo separator x bound) := by
  induction bound with
  | zero => exact pure trivial
  | succ bound ih =>
    unfold Parse.itemsUpTo
    refine isDone.bind fun done _ => ite (fun _ => pure trivial) fun _ => ?_
    refine h.bind fun a _ => isDone.bind fun done _ => ite (fun _ => pure trivial) fun _ => ?_
    refine get_bind fun p hp => ?_
    have hseparator := expect (P := P) (separator_phrase separator p.ending) (·.kind == separator)
    exact (hseparator.bind fun _ _ => ih.bind fun others _ => pure trivial) p hp

theorem items {separator : TokenKind} (h : Steady P V x) :
    Steady P (fun _ => True) (Parse.items separator x) := fun p hp => itemsUpTo h _ p hp

theorem list (h : Steady P V x) : Steady P (fun _ => True) (Parse.list x) := items h

theorem sequence (h : Steady P V x) : Steady P (fun _ => True) (Parse.sequence x) := by
  unfold Parse.sequence
  rw [map_eq_pure_bind]
  exact (items h).bind fun _ _ => pure trivial

theorem afterCommas (h : Steady P V x) : Steady P (fun _ => True) (Parse.afterCommas x) := by
  have hbounded (bound : Nat) : Steady P (fun _ => True) (Parse.afterCommasUpTo x bound) := by
    induction bound with
    | zero => exact pure trivial
    | succ bound ih =>
      unfold Parse.afterCommasUpTo
      refine (accept _).bind fun comma? _ => ?_
      cases comma? with
      | none => exact pure trivial
      | some comma => exact h.bind fun a _ => ih.bind fun others _ => pure trivial
  exact fun p hp => hbounded _ p hp

end Steady

end Parse

/-! ## Grammars -/

namespace Grammar

open Parse Parser

variable {P : Token → Prop} {α : Type} {g : Grammar α}

/-- The forms of a grammar are called by a phrase, and they are begun and continued steadily. -/
structure Steady (P : Token → Prop) (g : Grammar α) : Prop where
  expected : Text.Phrase g.expected
  start : ∀ t, t.Every P → Parse.Steady P (fun _ => True) (g.start t)
  combine : ∀ p t extension form, t.Every P → g.extend? p t = some extension →
    Parse.Steady P (fun _ => True) (extension.combine form)

/-- The grammar without forms is steady. -/
theorem Steady.barren {expected : String} (h : Text.Phrase expected) :
    Steady P (barren expected : Grammar α) where
  expected := h
  start _ ht := .unexpected_some h ht
  combine _ _ _ _ _ hextend := nomatch hextend

/-- A form is continued steadily. -/
theorem Steady.extendUpTo (h : Steady P g) (power bound : Nat) (form : α) :
    Parse.Steady P (fun _ => True) (g.extendUpTo power bound form) := by
  induction bound generalizing form with
  | zero => exact .pure trivial
  | succ bound ih =>
    intro p hp
    unfold Grammar.extendUpTo
    cases hrest : p.rest with
    | nil => exact ⟨.refl p, trivial⟩
    | cons t ts =>
      dsimp only
      split
      · exact ⟨.refl p, trivial⟩
      · rename_i extension hextend
        split
        · have ht : t.Every P := hp t (by simp [hrest])
          have hpass := Reaches.pass hrest
          have hcombine := (h.combine p t extension form ht hextend).bind fun a _ => ih a
          exact (hcombine _ (hp.reaches hpass)).of_reaches hpass
        · exact ⟨.refl p, trivial⟩

theorem Steady.continueFrom (h : Steady P g) (power : Nat) {t : Token} (ht : t.Every P) :
    Parse.Steady P (fun _ => True) (g.continueFrom power t) := by
  unfold Grammar.continueFrom
  exact (h.start t ht).bind fun form _ => .get_bind fun p hp => h.extendUpTo power _ form p hp

theorem Steady.parse (h : Steady P g) (power : Nat) :
    Parse.Steady P (fun _ => True) (g.parse power) := by
  unfold Grammar.parse
  exact (Parse.Steady.expectToken h.expected).bind fun t ht => h.continueFrom power ht

/-- A tower of steady grammars is read steadily. -/
theorem Steady.atWeight {tower : Nat → Grammar α} (h : ∀ level, Steady P (tower level))
    (power : Nat) : Parse.Steady P (fun _ => True) (Grammar.atWeight tower power) :=
  fun p hp => (h p.weight).parse power p hp

end Grammar

end Offside
