import Mathlib.Logic.Function.Iterate
import Offside.Proofs.Grammar.Discipline
import Offside.Proofs.Grammar.Running

/-!
# Actions that agree

Loops and nested forms are unfolded as often as the tokens ahead call for. That this is often enough
is said by comparing two unfoldings that differ in what stands below the last one: they agree, so
what stands there is never reached.

* `Token.Columned`: a token in columns that count from one. `Parser.Below`: a parser with such
  tokens ahead, and fewer of them than some number.
* `Parse.Coincide`: the same result twice, a value or an error that is reported, of a parser
  further along. No fault is among them.
* `Parse.Alike`: actions that agree. `Parse.Alike.bind`, `Parse.Alike.expect`,
  `Parse.Alike.within`, ...: one lemma for each step and each combinator.
* `iterate_settles`: unfoldings that agree one token further with each turn agree as soon as there
  are more turns than tokens.
* `Parse.itemsTurn`, `Parse.afterCommasTurn`: one turn of a loop. `Parse.Alike.itemLoopsEnd`: the
  loops end before their turns do.
-/

namespace Offside

open Token

/-! ## Iterations -/

section Iterations

variable {β : Type} {R : Nat → β → β → Prop} {turn turn' : β → β}

/-- Loops that take one more turn at each bound are iterations of the turn. -/
theorem eq_iterate (loop : Nat → β) (turn : β → β) (hturn : ∀ n, loop (n + 1) = turn (loop n))
    (n : Nat) : loop n = turn^[n] (loop 0) := by
  induction n with
  | zero => rfl
  | succ n ih => rw [Function.iterate_succ_apply', hturn, ih]

/-- What every turn carries one step further, many turns carry as many steps further. -/
theorem iterate_agree (hturn : ∀ k x y, R k x y → R (k + 1) (turn x) (turn' y)) {x y : β}
    (h : R 0 x y) (n : Nat) : R n (turn^[n] x) (turn'^[n] y) := by
  induction n with
  | zero => exact h
  | succ n ih =>
    rw [Function.iterate_succ_apply', Function.iterate_succ_apply']
    exact hturn n _ _ ih

/-- If a turn needs nothing below it where nothing is ahead, then `n` turns are as many as are
needed where `n` steps are ahead, whatever stands below further turns. -/
theorem iterate_settles (hturn : ∀ k x y, R k x y → R (k + 1) (turn x) (turn y)) {rest : β}
    (hrest : ∀ below, R 0 rest (turn below)) {n turns : Nat} (h : n < turns) (below : β) :
    R n (turn^[n] rest) (turn^[turns] below) := by
  obtain ⟨more, rfl⟩ := Nat.exists_eq_add_of_lt h
  -- below the first `n` turns, one side rests and the other takes a turn that needs nothing below
  have hsplit : turn^[n + more + 1] below = turn^[n] (turn (turn^[more] below)) := by
    rw [Nat.add_assoc, Function.iterate_add_apply, Function.iterate_succ_apply']
  rw [hsplit]
  exact iterate_agree hturn (hrest _) n

end Iterations

/-! ## Tokens in columns -/

/-- A token in columns that count from one. -/
def Token.Columned (t : Token) : Prop := 1 ≤ t.loc.start.col ∧ 1 ≤ t.loc.stop.col

/-- A token in columns, with an interior in columns of fewer than `n` tokens. -/
structure Token.Below (n : Nat) (t : Token) : Prop where
  columned : t.Every Columned
  interior : totalWeight t.children < n

namespace Parser

/-- A parser with tokens in columns ahead, fewer than `n` of them, interiors included. -/
structure Below (n : Nat) (p : Parser) : Prop where
  columned : p.Ahead Columned
  weight : p.weight < n

/-- A parser with tokens in columns ahead and with `t` right before them, at most `n` of them. -/
structure Past (n : Nat) (t : Token) (p : Parser) : Prop where
  token : t.Every Columned
  columned : p.Ahead Columned
  weight : t.weight + p.weight ≤ n

variable {n : Nat} {t : Token} {p q : Parser}

theorem Reaches.weight_le (h : p.Reaches q) : q.weight ≤ p.weight := by
  obtain ⟨used, hused⟩ := h.rest
  unfold weight
  rw [← hused, totalWeight_append]
  exact Nat.le_add_left _ _

theorem Reaches.length_le (h : p.Reaches q) : q.rest.length ≤ p.rest.length :=
  h.rest.length_le

theorem Below.reaches (hp : p.Below n) (h : p.Reaches q) : q.Below n :=
  ⟨hp.columned.reaches h, Nat.lt_of_le_of_lt h.weight_le hp.weight⟩

theorem Below.mono {m : Nat} (hp : p.Below m) (h : m ≤ n) : p.Below n :=
  ⟨hp.columned, Nat.lt_of_lt_of_le hp.weight h⟩

/-- The tokens ahead are the next one and those after it. -/
theorem weight_pass {ts : List Token} (h : p.rest = t :: ts) :
    t.weight + (p.pass t).weight = p.weight := by
  unfold weight
  rw [pass_rest, h, List.tail_cons, totalWeight_cons]

/-- Past the next token one tree less is ahead. -/
theorem length_pass {ts : List Token} (h : p.rest = t :: ts) :
    (p.pass t).rest.length < (t :: ts).length := by
  rw [pass_rest, h, List.tail_cons]
  exact Nat.lt_succ_self _

/-- Further along than that fewer trees are ahead. -/
theorem Reaches.length_lt {ts : List Token} (h : (p.pass t).Reaches q) (hp : p.rest = t :: ts) :
    q.rest.length < p.rest.length := by
  rw [hp]
  exact Nat.lt_of_le_of_lt h.length_le (length_pass hp)

/-- Past the next token. -/
theorem Below.pass {ts : List Token} (hp : p.Below (n + 1)) (h : p.rest = t :: ts) :
    (p.pass t).Past n t where
  token := hp.columned t (by simp [h])
  columned := hp.columned.reaches (.pass h)
  weight := by
    rw [weight_pass h]
    exact Nat.le_of_lt_succ hp.weight

/-- Where a token has been consumed, fewer are ahead. -/
theorem Past.below (h : p.Past n t) : p.Below n := by
  have hlight := h.weight
  rw [weight_eq] at hlight
  exact ⟨h.columned, by omega⟩

/-- The interior of a consumed token has fewer tokens. -/
theorem Past.interior (h : p.Past n t) : t.Below n := by
  have hlight := h.weight
  rw [weight_eq] at hlight
  exact ⟨h.token, by omega⟩

end Parser

/-- Errors at the end of a block in columns are reported somewhere: it has a last character. -/
theorem Token.Columned.exists_endLoc {t : Token} (h : t.Columned) :
    ∃ endLoc, Parse.endLoc? t = some endLoc := by
  unfold Parse.endLoc?
  split
  · exact ⟨_, rfl⟩
  · cases hlast : t.loc.lastChar? with
    | some close => exact ⟨close, rfl⟩
    | none =>
      have hzero := (Location.lastChar?_eq_none_iff _).1 hlast
      have hcolumn := h.2
      omega

/-! ## Results -/

namespace Parse

variable {α β : Type} {n : Nat}

/-- The same result twice: a value, or an error that is reported, of a parser further along. -/
inductive Coincide (V : α → Parser → Prop) (p : Parser) :
    EStateM.Result (Failure ParseError) Parser α →
      EStateM.Result (Failure ParseError) Parser α → Prop
  | ok {a : α} {q : Parser} (reaches : p.Reaches q) (value : V a q) :
      Coincide V p (.ok a q) (.ok a q)
  | error {e : Located ParseError} {q : Parser} (reaches : p.Reaches q) :
      Coincide V p (.error (.reported e) q) (.error (.reported e) q)

namespace Coincide

variable {V V' : α → Parser → Prop} {W : β → Parser → Prop} {p q : Parser}
  {r s : EStateM.Result (Failure ParseError) Parser α}

theorem eq (h : Coincide V p r s) : r = s := by cases h <;> rfl

theorem left (h : Coincide V p r s) : Coincide V p r r := h.eq ▸ h

theorem mono (h : Coincide V p r s) (hV : ∀ a q, p.Reaches q → V a q → V' a q) :
    Coincide V' p r s := by
  cases h with
  | ok reaches value => exact .ok reaches (hV _ _ reaches value)
  | error reaches => exact .error reaches

/-- What is further along than a parser that is further along. -/
theorem of_reaches (h : Coincide V q r s) (hpq : p.Reaches q) : Coincide V p r s := by
  cases h with
  | ok reaches value => exact .ok (hpq.trans reaches) value
  | error reaches => exact .error (hpq.trans reaches)

/-- What comes after actions that agree starts from their value, further along. -/
theorem bind {x y : Parse α} {k l : α → Parse β} (h : Coincide V p (x p) (y p))
    (hk : ∀ a q, p.Reaches q → V a q → Coincide W q (k a q) (l a q)) :
    Coincide W p ((x >>= k) p) ((y >>= l) p) := by
  show Coincide W p (EStateM.bind x k p) (EStateM.bind y l p)
  unfold EStateM.bind
  revert h
  generalize x p = r
  generalize y p = s
  intro h
  cases h with
  | ok reaches value => exact (hk _ _ reaches value).of_reaches reaches
  | error reaches => exact .error reaches

/-- Agreeing results are a value or an error that is reported. -/
theorem exists_end (h : Coincide V p r s) :
    ∃ q, p.Reaches q ∧ ((∃ a, r = .ok a q) ∨ ∃ e, r = .error (.reported e) q) := by
  cases h with
  | ok reaches _ => exact ⟨_, reaches, .inl ⟨_, rfl⟩⟩
  | error reaches => exact ⟨_, reaches, .inr ⟨_, rfl⟩⟩

end Coincide

/-- Actions that agree at a parser. -/
def AlikeAt (p : Parser) (x y : Parse α) : Prop := Coincide (fun _ _ => True) p (x p) (y p)

/-- Actions that agree where fewer than `n` tokens are ahead, all of them in columns. -/
def Alike (n : Nat) (V : α → Prop) (x y : Parse α) : Prop :=
  ∀ p : Parser, p.Below n → Coincide (fun a _ => V a) p (x p) (y p)

namespace Alike

variable {V : α → Prop} {W : β → Prop} {x y x' y' : Parse α}

theorem mono {m : Nat} (h : Alike n V x y) (hm : m ≤ n) : Alike m V x y :=
  fun p hp => h p (hp.mono hm)

theorem pure {a : α} (h : V a) : Alike n V (Pure.pure a) (Pure.pure a) :=
  fun p _ => .ok (.refl p) h

theorem bind {k l : α → Parse β} (h : Alike n V x y) (hk : ∀ a, V a → Alike n W (k a) (l a)) :
    Alike n W (x >>= k) (y >>= l) :=
  fun p hp => (h p hp).bind fun a q hq ha => hk a ha q (hp.reaches hq)

/-- Actions may look at the parser first. -/
theorem get_bind {k l : Parser → Parse β}
    (hk : ∀ p, p.Below n → Coincide (fun b _ => W b) p (k p p) (l p p)) :
    Alike n W (get >>= k) (get >>= l) := fun p hp => hk p hp

theorem ite {c : Prop} [Decidable c] (hx : c → Alike n V x y) (hx' : ¬ c → Alike n V x' y') :
    Alike n V (if c then x else x') (if c then y else y') := by
  by_cases h : c
  · rw [if_pos h, if_pos h]
    exact hx h
  · rw [if_neg h, if_neg h]
    exact hx' h

/-! ## Single steps -/

theorem fail {cause : ParseError} {loc : Location} :
    Alike n V (Parse.fail cause loc) (Parse.fail cause loc) := fun p _ => .error (.refl p)

theorem unexpected {expected : String} {t? : Option Token} :
    Alike n V (Parse.unexpected expected t?) (Parse.unexpected expected t?) := by
  intro p _
  cases t? with
  | none => exact .error (.refl p)
  | some t => exact .error (.refl p)

end Alike

/-- Any token that is there is consumed. -/
theorem expectToken_coincide {expected : String} {p : Parser} (hp : p.Below (n + 1)) :
    Coincide (fun t q => q.Past n t) p (expectToken expected p) (expectToken expected p) := by
  unfold expectToken
  cases hrest : p.rest with
  | nil => exact .error (.refl p)
  | cons t ts => exact .ok (.pass hrest) (hp.pass hrest)

/-- A token that is expected is consumed, and then fewer are ahead. -/
theorem expect_coincide {expected : String} {fits : Token → Bool} {p : Parser}
    (hp : p.Below (n + 1)) :
    Coincide (fun t q => q.Past n t ∧ q.rest.length < p.rest.length) p (expect expected fits p)
      (expect expected fits p) := by
  unfold expect
  cases hrest : p.rest with
  | nil => exact .error (.refl p)
  | cons t ts =>
    dsimp only
    split
    · exact .ok (.pass hrest) ⟨hp.pass hrest, Parser.length_pass hrest⟩
    · exact .error (.refl p)

/-- A token that may be there is consumed if it is, and then fewer are ahead. -/
theorem accept_coincide {fits : Token → Bool} {p : Parser} (hp : p.Below (n + 1)) :
    Coincide (fun t? q => ∀ t, t? = some t → q.Past n t ∧ q.rest.length < p.rest.length) p
      (accept fits p) (accept fits p) := by
  unfold accept
  cases hrest : p.rest with
  | nil => exact .ok (.refl p) nofun
  | cons t ts =>
    dsimp only
    split
    · refine .ok (.pass hrest) fun u hu => ?_
      cases hu
      exact ⟨hp.pass hrest, Parser.length_pass hrest⟩
    · exact .ok (.refl p) nofun

namespace Alike

variable {V : α → Prop} {W : β → Prop} {x y : Parse α}

theorem expect {expected : String} {fits : Token → Bool} :
    Alike (n + 1) (Token.Below (n + 1)) (Parse.expect expected fits)
      (Parse.expect expected fits) :=
  fun _ hp => (expect_coincide hp).mono fun _ _ _ ht =>
    ⟨ht.1.token, Nat.lt_succ_of_lt ht.1.interior.interior⟩

theorem expectBody :
    Alike (n + 1) (Token.Below (n + 1)) Parse.expectBody Parse.expectBody := expect

theorem expectToken {expected : String} :
    Alike (n + 1) (fun _ => True) (Parse.expectToken expected) (Parse.expectToken expected) :=
  fun _ hp => (expectToken_coincide hp).mono fun _ _ _ _ => trivial

theorem accept {fits : Token → Bool} :
    Alike (n + 1) (fun _ => True) (Parse.accept fits) (Parse.accept fits) :=
  fun _ hp => (accept_coincide hp).mono fun _ _ _ _ => trivial

theorem acceptElse : Alike n (fun _ => True) Parse.acceptElse Parse.acceptElse := by
  intro p hp
  unfold Parse.acceptElse
  cases hrest : p.rest with
  | nil => exact .ok (.refl p) trivial
  | cons t ts =>
    dsimp only
    split
    · exact .ok (.pass hrest) trivial
    · split
      · exact .ok (.refl p) trivial
      · rename_i u us
        have hpass : (p.pass t).rest = u :: us := by
          rw [Parser.pass_rest, hrest, List.tail_cons]
        split
        · exact .ok ((Parser.Reaches.pass hrest).trans (.pass hpass)) trivial
        · exact .ok (.refl p) trivial

theorem peek : Alike n (fun _ => True) Parse.peek Parse.peek := fun p _ => .ok (.refl p) trivial

theorem advance : Alike n (fun _ => True) Parse.advance Parse.advance := by
  intro p hp
  unfold Parse.advance
  cases hrest : p.rest with
  | nil => exact .ok (.refl p) trivial
  | cons t ts => exact .ok (.pass hrest) trivial

theorem isDone : Alike n (fun _ => True) Parse.isDone Parse.isDone :=
  fun p _ => .ok (.refl p) trivial

theorem expectEnd : Alike n (fun _ => True) Parse.expectEnd Parse.expectEnd := by
  intro p hp
  unfold Parse.expectEnd
  cases hrest : p.rest with
  | nil => exact .ok (.refl p) trivial
  | cons t ts => exact .error (.refl p)

/-! ## Blocks and loops -/

/-- Actions that agree in the interior of a block agree around it, whatever is ahead there. -/
theorem inside {m : Nat} {block : Token} (hblock : block.Below n) (h : Alike n V x y) :
    Alike m V (Parse.inside block x) (Parse.inside block y) := by
  intro p hp
  obtain ⟨endLoc, hendLoc⟩ := hblock.columned.here.exists_endLoc
  have hin := h (p.interior block endLoc) ⟨fun t ht => hblock.columned.inside ht, hblock.interior⟩
  unfold Parse.endLoc? at hendLoc
  unfold Parse.inside
  dsimp only
  rw [hendLoc]
  dsimp only
  revert hin
  generalize x (p.interior block endLoc) = r
  generalize y (p.interior block endLoc) = s
  intro hin
  cases hin with
  | ok reaches value => exact .ok reaches.afterInterior value
  | error reaches => exact .error reaches.afterInterior

theorem within {m : Nat} {block : Token} (hblock : block.Below n) (h : Alike n V x y) :
    Alike m V (Parse.within block x) (Parse.within block y) :=
  inside hblock (h.bind fun _ ha => expectEnd.bind fun _ _ => pure ha)

/-- Actions that agree inside one more loop agree around it. -/
theorem insideLoop {label? : Option String} (h : Alike n V x y) :
    Alike n V (Parse.insideLoop label? x) (Parse.insideLoop label? y) := by
  intro p hp
  have hin := h { p with loops := label? :: p.loops } ⟨hp.columned, hp.weight⟩
  unfold Parse.insideLoop
  revert hin
  generalize x { p with loops := label? :: p.loops } = r
  generalize y { p with loops := label? :: p.loops } = s
  intro hin
  cases hin with
  | ok reaches value => exact .ok reaches.afterLoop value
  | error reaches => exact .error reaches.afterLoop

end Alike

/-! ## Sequences -/

/-- Actions that agree where at most `k` trees are ahead, and fewer than `n` tokens. -/
def AlikeWithin (n k : Nat) (x y : Parse α) : Prop :=
  ∀ p : Parser, p.Below n → p.rest.length ≤ k → AlikeAt p x y

/-- Loops whose turns agree one tree further than the turns after them agree, with as many turns as
there are trees ahead. -/
theorem AlikeWithin.turns {turn turn' : Parse α → Parse α}
    (hturn : ∀ k x y, AlikeWithin n k x y → AlikeWithin n (k + 1) (turn x) (turn' y)) (a : α) :
    Alike n (fun _ => True) (fun p => turn^[p.rest.length] (pure a) p)
      (fun p => turn'^[p.rest.length] (pure a) p) := by
  intro p hp
  have hpure : AlikeWithin n 0 (pure a) (pure a) := fun q _ _ => .ok (.refl q) trivial
  exact iterate_agree hturn hpure p.rest.length p hp (Nat.le_refl _)

/-- A loop whose turns consume a tree each, and that ends where no tree is ahead, ends before more
turns than there are trees ahead do, whatever stands below them. -/
theorem AlikeWithin.settle {turn : Parse α → Parse α} {a : α}
    (hturn : ∀ k x y, AlikeWithin n k x y → AlikeWithin n (k + 1) (turn x) (turn y))
    (hrest : ∀ below q, q.rest = [] → turn below q = .ok a q) {p : Parser} (hp : p.Below n)
    {turns : Nat} (hturns : p.rest.length < turns) (below : Parse α) :
    turn^[turns] below p = turn^[p.rest.length] (pure a) p := by
  have hnone (below : Parse α) : AlikeWithin n 0 (pure a) (turn below) := by
    intro q _ hq
    have hdone := hrest below q (List.length_eq_zero_iff.1 (Nat.le_zero.1 hq))
    rw [AlikeAt, hdone]
    exact .ok (.refl q) trivial
  exact (iterate_settles hturn hnone hturns below p hp (Nat.le_refl _)).eq.symm

/-- One turn of the loop over items with separators between them. -/
def itemsTurn (separator : TokenKind) (item : Parse α) (others : Parse (List α × Bool)) :
    Parse (List α × Bool) := do
  if ← isDone then return ([], false)
  let a ← item
  if ← isDone then return ([a], false)
  let p ← get
  let _ ← expect ("a " ++ separator.describe ++ " or " ++ p.ending.name) (·.kind == separator)
  let (as, _) ← others
  return (a :: as, true)

theorem itemsUpTo_eq_iterate (separator : TokenKind) (item : Parse α) (bound : Nat) :
    itemsUpTo separator item bound = (itemsTurn separator item)^[bound] (pure ([], false)) :=
  eq_iterate (itemsUpTo separator item) (itemsTurn separator item) (fun _ => rfl) bound

/-- Where there are no tokens, a turn ends the loop. -/
theorem itemsTurn_nil (separator : TokenKind) (item : Parse α) (others : Parse (List α × Bool))
    {p : Parser} (hp : p.rest = []) : itemsTurn separator item others p = .ok ([], false) p := by
  unfold itemsTurn
  rw [bind_eq (isDone_true hp)]
  rfl

/-- One turn of the loop over items that each follow a comma. -/
def afterCommasTurn (item : Parse α) (others : Parse (List α)) : Parse (List α) := do
  match ← accept (·.kind == .comma) with
  | none => return []
  | some _ =>
    let a ← item
    let as ← others
    return a :: as

theorem afterCommasUpTo_eq_iterate (item : Parse α) (bound : Nat) :
    afterCommasUpTo item bound = (afterCommasTurn item)^[bound] (pure []) :=
  eq_iterate (afterCommasUpTo item) (afterCommasTurn item) (fun _ => rfl) bound

theorem afterCommasTurn_nil (item : Parse α) (others : Parse (List α)) {p : Parser}
    (hp : p.rest = []) : afterCommasTurn item others p = .ok [] p := by
  have hnone : accept (·.kind == .comma) p = .ok none p := by rw [accept, hp]
  unfold afterCommasTurn
  rw [bind_eq hnone]
  rfl

variable {V : α → Prop} {x y : Parse α}

/-- A turn of the loop over items agrees one tree further than the turns after it: it consumes a
separator before them. -/
theorem itemsTurn_alike (h : Alike (n + 1) V x y) (separator : TokenKind) (k : Nat)
    (others others' : Parse (List α × Bool)) (hothers : AlikeWithin (n + 1) k others others') :
    AlikeWithin (n + 1) (k + 1) (itemsTurn separator x others) (itemsTurn separator y others') := by
  intro p hp hk
  unfold itemsTurn
  refine (Alike.isDone p hp).bind fun done p₁ h₁ _ => ?_
  cases done with
  | true => exact .ok (.refl p₁) trivial
  | false =>
    refine (h p₁ (hp.reaches h₁)).bind fun a p₂ h₂ _ => ?_
    have hp₂ := (hp.reaches h₁).reaches h₂
    refine (Alike.isDone p₂ hp₂).bind fun done p₃ h₃ _ => ?_
    cases done with
    | true => exact .ok (.refl p₃) trivial
    | false =>
      -- the separator leaves one tree less for the turns after it
      refine (expect_coincide (hp₂.reaches h₃)).bind fun t p₄ h₄ ht => ?_
      have hlength : p₄.rest.length ≤ k := by
        have hreached := ((h₁.trans h₂).trans h₃).length_le
        have hless := ht.2
        omega
      have hp₄ := (hp₂.reaches h₃).reaches h₄
      exact (hothers p₄ hp₄ hlength).bind fun as p₅ _ _ => .ok (.refl p₅) trivial

/-- A turn of the loop over items after commas agrees one tree further than the turns after it. -/
theorem afterCommasTurn_alike (h : Alike (n + 1) V x y) (k : Nat) (others others' : Parse (List α))
    (hothers : AlikeWithin (n + 1) k others others') :
    AlikeWithin (n + 1) (k + 1) (afterCommasTurn x others) (afterCommasTurn y others') := by
  intro p hp hk
  unfold afterCommasTurn
  refine (accept_coincide hp).bind fun comma? p₁ h₁ hcomma => ?_
  cases comma? with
  | none => exact .ok (.refl p₁) trivial
  | some comma =>
    refine (h p₁ (hp.reaches h₁)).bind fun a p₂ h₂ _ => ?_
    have hlength : p₂.rest.length ≤ k := by
      have hless := (hcomma comma rfl).2
      have hreached := h₂.length_le
      omega
    have hp₂ := (hp.reaches h₁).reaches h₂
    exact (hothers p₂ hp₂ hlength).bind fun as p₃ _ _ => .ok (.refl p₃) trivial

namespace Alike

theorem items {separator : TokenKind} (h : Alike (n + 1) V x y) :
    Alike (n + 1) (fun _ => True) (Parse.items separator x) (Parse.items separator y) := by
  unfold Parse.items
  simp only [itemsUpTo_eq_iterate]
  exact AlikeWithin.turns (itemsTurn_alike h separator) ([], false)

theorem list (h : Alike (n + 1) V x y) :
    Alike (n + 1) (fun _ => True) (Parse.list x) (Parse.list y) := items h

theorem sequence (h : Alike (n + 1) V x y) :
    Alike (n + 1) (fun _ => True) (Parse.sequence x) (Parse.sequence y) := by
  unfold Parse.sequence
  rw [map_eq_pure_bind, map_eq_pure_bind]
  exact (items h).bind fun _ _ => pure trivial

theorem afterCommas (h : Alike (n + 1) V x y) :
    Alike (n + 1) (fun _ => True) (Parse.afterCommas x) (Parse.afterCommas y) := by
  unfold Parse.afterCommas
  simp only [afterCommasUpTo_eq_iterate]
  exact AlikeWithin.turns (afterCommasTurn_alike h) []

end Alike

/-- The loops over items of some kind end by themselves at a parser: with more turns than there are
trees ahead, what stands below the last turn is not reached. -/
structure ItemLoopsEnd (p : Parser) (item : Parse α) : Prop where
  items : ∀ separator turns below, p.rest.length < turns →
    (itemsTurn separator item)^[turns] below p = Parse.items separator item p
  afterCommas : ∀ turns below, p.rest.length < turns →
    (afterCommasTurn item)^[turns] below p = Parse.afterCommas item p

/-- Loops over items that end further along end by themselves. -/
theorem Alike.itemLoopsEnd (h : Alike (n + 1) V x x) {p : Parser} (hp : p.Below (n + 1)) :
    ItemLoopsEnd p x where
  items separator turns below hturns := by
    unfold Parse.items
    rw [itemsUpTo_eq_iterate]
    exact AlikeWithin.settle (itemsTurn_alike h separator)
      (fun below _ => itemsTurn_nil separator x below) hp hturns below
  afterCommas turns below hturns := by
    unfold Parse.afterCommas
    rw [afterCommasUpTo_eq_iterate]
    exact AlikeWithin.settle (afterCommasTurn_alike h) (fun below _ => afterCommasTurn_nil x below)
      hp hturns below

end Parse

end Offside
