import Offside.Proofs.Grammar.Running
import Offside.Proofs.Token.Relocation

/-!
# Two parsers side by side

A parser on some tokens, and one on the same tokens moved. The second may have more tokens ahead
than the first; where it has, only the values of the first are compared, not its failures.

* `Parser.Tracks`: how the two parsers stand to each other. `Seam`: what may follow the tokens that
  they share.
* `Parse.Agree`, `Parse.Sim`: two results, and two actions, that yield values in some relation, or
  the same failure at places that correspond. None of these failures is a fault.
* `Parse.Sim.bind`, `Parse.Sim.expect`, `Parse.Sim.within`, `Parse.Sim.items`, ...: one lemma for
  each step and each combinator.
* `Grammar.Sim`: two grammars whose forms do so. `Grammar.Sim.of_extends`: it is enough that they
  begin and continue forms alike.
-/

namespace Offside

open Token

/-! ## Related parsers -/

/-- A semicolon is no reserved word. -/
theorem Token.isReserved_semicolon {t : Token} (ht : t.kind = .semicolon) (word : Reserved) :
    t.isReserved word = false := by
  rw [isReserved, reserved?, if_neg (by rw [ht]; decide)]
  rfl

/-- What the second parser has ahead after the tokens of the first: nothing, or, if failures are not
compared, a separator that no `else` follows. -/
inductive Seam : (strict : Bool) → List Token → Prop
  | nothing {strict : Bool} : Seam strict []
  | separator {t : Token} {us : List Token} (ht : t.kind = .semicolon)
      (hus : ∀ u, us.head? = some u → u.isReserved .otherwise = false) : Seam false (t :: us)

namespace Parser

variable {m : Relocation} {strict : Bool} {tail : List Token} {p p' : Parser}

/-- The parser `p'` has the tokens of `p` ahead, moved, and then `tail`. -/
structure Tracks (m : Relocation) (strict : Bool) (tail : List Token) (p p' : Parser) : Prop where
  /-- The tokens correspond. -/
  rest : p'.rest = p.rest.map (Token.move m) ++ tail
  /-- The tokens have locations that stay apart. -/
  suits : ∀ t ∈ p.rest, t.Suits m
  /-- So do the ends of the tokens consumed last. -/
  lastStop : p'.lastStop? = p.lastStop?.map m.move
  /-- The end of the token consumed last stays apart from the others. -/
  covers : ∀ c ∈ p.lastStop?, m.Covers c
  /-- The same ends after the tokens. -/
  ending : p'.ending = p.ending
  /-- So do the places of errors at the end. -/
  endLoc : strict = true → p'.endLoc = p.endLoc.move m
  /-- The loops are the same. -/
  loops : p'.loops = p.loops
  /-- What follows the tokens that correspond. -/
  seam : Seam strict tail

namespace Tracks

theorem rest_nil (h : Tracks m strict tail p p') (hp : p.rest = []) : p'.rest = tail := by
  rw [h.rest, hp]
  rfl

theorem rest_cons (h : Tracks m strict tail p p') {t : Token} {ts : List Token}
    (hp : p.rest = t :: ts) : p'.rest = t.move m :: (ts.map (Token.move m) ++ tail) := by
  rw [h.rest, hp]
  rfl

/-- After the tokens that correspond there is at most a separator. -/
theorem kind_of_head (h : Tracks m strict tail p p') (hp : p.rest = []) {t : Token}
    (ht : p'.rest.head? = some t) : t.kind = .semicolon := by
  rw [h.rest_nil hp] at ht
  cases h.seam with
  | nothing => cases ht
  | separator hkind _ =>
    cases ht
    exact hkind

/-- The second parser has as many tokens ahead as the first, and those after them. -/
theorem length (h : Tracks m strict tail p p') :
    p'.rest.length = p.rest.length + tail.length := by
  rw [h.rest, List.length_append, List.length_map]

/-- Failures are compared only where the tokens are all of the tokens. -/
theorem tail_nil (h : Tracks m true tail p p') : tail = [] := by
  cases h.seam
  rfl

/-- Both parsers move past a token. -/
theorem pass (h : Tracks m strict tail p p') {t : Token} {ts : List Token} (hp : p.rest = t :: ts) :
    Tracks m strict tail (p.pass t) (p'.pass (t.move m)) where
  rest := by
    rw [pass_rest, pass_rest, h.rest_cons hp, hp]
    rfl
  suits u hu := h.suits u (List.mem_of_mem_tail hu)
  lastStop := by
    rw [pass_lastStop?, pass_lastStop?, move_loc]
    rfl
  covers c hc := by
    cases hc
    exact (h.suits t (by rw [hp]; exact List.mem_cons_self)).stop
  ending := h.ending
  endLoc := h.endLoc
  loops := h.loops
  seam := h.seam

/-- Tokens are adjacent where they stand and where they move to. -/
theorem adjacent (h : Tracks m strict tail p p') {t : Token} (ht : t.Suits m) :
    p'.adjacent (t.move m) = p.adjacent t := by
  rw [Parser.adjacent, Parser.adjacent, h.lastStop, move_loc]
  cases hlast : p.lastStop? with
  | none => rfl
  | some c =>
    have hc : m.Covers c := h.covers c hlast
    rw [Option.map_some, Location.move_start, Bool.eq_iff_iff, beq_iff_eq, beq_iff_eq,
      Option.some.injEq, Option.some.injEq]
    exact ⟨fun heq => m.injective hc ht.start heq, congrArg m.move⟩

/-- A break passes the same loops. -/
theorem loopDepth? (h : Tracks m strict tail p p') (label? : Option String) :
    p'.loopDepth? label? = p.loopDepth? label? := by
  cases label? <;> simp only [Parser.loopDepth?, h.loops]

end Tracks

end Parser

namespace Parse

open Parser

variable {m : Relocation} {strict : Bool} {tail : List Token} {α β : Type}

/-! ## Related actions -/

/-- From related parsers, two results are values in a relation, and the parsers are related still,
or the same failure. A failure of the first is compared only if `strict`. -/
inductive Agree (m : Relocation) (strict : Bool) (tail : List Token) (V : α → α → Prop)
    (p : Parser) : EStateM.Result (Failure ParseError) Parser α →
    EStateM.Result (Failure ParseError) Parser α → Prop
  | ok {a a' : α} {q q' : Parser} (hV : V a a') (hq : Tracks m strict tail q q')
      (hlength : q.rest.length ≤ p.rest.length) : Agree m strict tail V p (.ok a q) (.ok a' q')
  | error {e : Located ParseError} {q q' : Parser} :
      Agree m strict tail V p (.error (.reported e) q) (.error (.reported (e.move m)) q')
  | free {e : Failure ParseError} {q : Parser} {r : EStateM.Result (Failure ParseError) Parser α}
      (hstrict : strict = false) : Agree m strict tail V p (.error e q) r

/-- From related parsers, two actions have results that agree. -/
def Sim (m : Relocation) (strict : Bool) (tail : List Token) (V : α → α → Prop)
    (x x' : Parse α) : Prop :=
  ∀ ⦃p p'⦄, Tracks m strict tail p p' → Agree m strict tail V p (x p) (x' p')

/-- A value and its image. -/
def Image (f : α → α) (a a' : α) : Prop := a' = f a

/-- A token that suits a relocation, and the token moved. -/
def Moved (m : Relocation) (t t' : Token) : Prop := t.Suits m ∧ t' = t.move m

namespace Agree

variable {V : α → α → Prop} {p q : Parser} {r r' : EStateM.Result (Failure ParseError) Parser α}

/-- What agrees from a parser that is further along agrees. -/
theorem of_shorter (h : Agree m strict tail V q r r') (hlength : q.rest.length ≤ p.rest.length) :
    Agree m strict tail V p r r' := by
  cases h with
  | ok hV hq hlength' => exact .ok hV hq (Nat.le_trans hlength' hlength)
  | error => exact .error
  | free hstrict => exact .free hstrict

/-- A failure that has its image wherever failures are compared. -/
theorem of_error {e : Located ParseError} {q : Parser}
    (h : strict = true → ∃ q', r' = .error (.reported (e.move m)) q') :
    Agree m strict tail V p (.error (.reported e) q) r' := by
  cases strict with
  | false => exact .free rfl
  | true =>
    obtain ⟨q', rfl⟩ := h rfl
    exact .error

/-- What comes after two actions whose results agree starts from related values and parsers. -/
theorem bind {W : β → β → Prop} {x x' : Parse α} {k k' : α → Parse β} {q' : Parser}
    (h : Agree m strict tail V p (x q) (x' q'))
    (hk : ∀ a a' r r', V a a' → Tracks m strict tail r r' → r.rest.length ≤ p.rest.length →
      Agree m strict tail W p (k a r) (k' a' r')) :
    Agree m strict tail W p ((x >>= k) q) ((x' >>= k') q') := by
  show Agree m strict tail W p (EStateM.bind x k q) (EStateM.bind x' k' q')
  unfold EStateM.bind
  revert h
  generalize x q = r
  generalize x' q' = r'
  intro h
  cases h with
  | ok hV hq hlength => exact hk _ _ _ _ hV hq hlength
  | error => exact .error
  | free hstrict => exact .free hstrict

end Agree

namespace Sim

variable {V : α → α → Prop} {W : β → β → Prop} {x x' : Parse α} {f : α → α} {g : β → β}

theorem pure {a a' : α} (h : V a a') : Sim m strict tail V (Pure.pure a) (Pure.pure a') :=
  fun _ _ hp => .ok h hp (Nat.le_refl _)

/-- An image is yielded by both. -/
theorem image {a a' : α} (h : a' = f a) :
    Sim m strict tail (Image f) (Pure.pure a) (Pure.pure a') := pure h

/-- What comes after an action starts from related values and related parsers. -/
theorem bind {k k' : α → Parse β} (hx : Sim m strict tail V x x')
    (hk : ∀ a a', V a a' → Sim m strict tail W (k a) (k' a')) :
    Sim m strict tail W (x >>= k) (x' >>= k') :=
  fun _ _ hp => (hx hp).bind fun a a' _ _ hV hr hlength => (hk a a' hV hr).of_shorter hlength

/-- What comes after an action starts from a value and its image. -/
theorem bind_image {k k' : α → Parse β} (hx : Sim m strict tail (Image f) x x')
    (hk : ∀ a, Sim m strict tail W (k a) (k' (f a))) :
    Sim m strict tail W (x >>= k) (x' >>= k') :=
  hx.bind fun a _ h => h ▸ hk a

/-- What comes after an action starts from a token that suits, and the token moved. -/
theorem bind_token {x x' : Parse Token} {k k' : Token → Parse β}
    (hx : Sim m strict tail (Moved m) x x')
    (hk : ∀ t, t.Suits m → Sim m strict tail W (k t) (k' (t.move m))) :
    Sim m strict tail W (x >>= k) (x' >>= k') :=
  hx.bind fun t _ h => h.2 ▸ hk t h.1

/-- Both actions look at the parser first. -/
theorem get_bind {k k' : Parser → Parse β}
    (hk : ∀ p p', Tracks m strict tail p p' → Agree m strict tail W p (k p p) (k' p' p')) :
    Sim m strict tail W (get >>= k) (get >>= k') :=
  fun p p' hp => hk p p' hp

/-- Both actions take the same branch. -/
theorem ite {c : Prop} [Decidable c] {y y' : Parse α} (hx : c → Sim m strict tail V x x')
    (hy : ¬ c → Sim m strict tail V y y') :
    Sim m strict tail V (if c then x else y) (if c then x' else y') := by
  by_cases h : c
  · rw [if_pos h, if_pos h]
    exact hx h
  · rw [if_neg h, if_neg h]
    exact hy h

/-! ## Single steps -/

theorem fail {cause : ParseError} {loc : Location} :
    Sim m strict tail V (Parse.fail cause loc) (Parse.fail cause (loc.move m)) :=
  fun _ _ _ => .error

/-- Both find the same token in place of what is expected. -/
theorem unexpected_some (expected : String) (t : Token) :
    Sim m strict tail V (Parse.unexpected expected (some t))
      (Parse.unexpected expected (some (t.move m))) := by
  intro p p' _
  refine .of_error fun _ => ⟨p', ?_⟩
  simp only [Parse.unexpected, Parser.unexpected, move_kind, move_text, move_loc]
  rfl

/-- What comes after a token that may be missing. -/
theorem bind_option {x x' : Parse (Option Token)} {k k' : Option Token → Parse β}
    (hx : Sim m strict tail (Option.Rel (Moved m)) x x')
    (hnone : Sim m strict tail W (k none) (k' none))
    (hsome : ∀ t, t.Suits m → Sim m strict tail W (k (some t)) (k' (some (t.move m)))) :
    Sim m strict tail W (x >>= k) (x' >>= k') := by
  refine hx.bind fun t? t?' h => ?_
  cases h with
  | none => exact hnone
  | @some t t' h => exact h.2 ▸ hsome t h.1

/-- Both find the end in place of what is expected, where failures are compared. -/
theorem agree_unexpected_none {p p' : Parser} (hp : Tracks m strict tail p p') (expected : String)
    {r : EStateM.Result (Failure ParseError) Parser α}
    (h : tail = [] → r = .error (p'.unexpected expected none) p') :
    Agree m strict tail V p (.error (p.unexpected expected none) p) r := by
  refine .of_error fun hstrict => ⟨p', ?_⟩
  subst hstrict
  rw [h hp.tail_nil, Parser.unexpected, hp.ending, hp.endLoc rfl]
  rfl

/-- Both consume the next token. -/
theorem agree_pass {V : Token → Token → Prop} {p p' : Parser} (hp : Tracks m strict tail p p')
    {t : Token} {ts : List Token} (hrest : p.rest = t :: ts) (hV : V t (t.move m)) :
    Agree m strict tail V p (.ok t (p.pass t)) (.ok (t.move m) (p'.pass (t.move m))) :=
  .ok hV (hp.pass hrest) (by simp [hrest])

theorem expectToken (expected : String) :
    Sim m strict tail (Moved m) (Parse.expectToken expected) (Parse.expectToken expected) := by
  intro p p' hp
  unfold Parse.expectToken
  cases hrest : p.rest with
  | nil =>
    refine agree_unexpected_none hp expected fun htail => ?_
    rw [hp.rest_nil hrest, htail]
  | cons t ts =>
    rw [hp.rest_cons hrest]
    exact agree_pass hp hrest ⟨hp.suits t (by simp [hrest]), rfl⟩

theorem expect {expected : String} {fits : Token → Bool} (hfits : ∀ t, fits (t.move m) = fits t) :
    Sim m strict tail (fun t t' => fits t = true ∧ Moved m t t') (Parse.expect expected fits)
      (Parse.expect expected fits) := by
  intro p p' hp
  unfold Parse.expect
  cases hrest : p.rest with
  | nil =>
    refine agree_unexpected_none hp expected fun htail => ?_
    rw [hp.rest_nil hrest, htail]
  | cons t ts =>
    rw [hp.rest_cons hrest]
    simp only [hfits]
    by_cases ht : fits t = true
    · rw [if_pos ht, if_pos ht]
      exact agree_pass hp hrest ⟨ht, hp.suits t (by simp [hrest]), rfl⟩
    · rw [if_neg ht, if_neg ht]
      exact unexpected_some expected t hp

/-- What comes after a token that fits. -/
theorem expect_bind {expected : String} {fits : Token → Bool} {k k' : Token → Parse β}
    (hfits : ∀ t, fits (t.move m) = fits t)
    (hk : ∀ t, t.Suits m → fits t = true → Sim m strict tail W (k t) (k' (t.move m))) :
    Sim m strict tail W (Parse.expect expected fits >>= k) (Parse.expect expected fits >>= k') :=
  (expect hfits).bind fun t _ h => h.2.2 ▸ hk t h.2.1 h.1

/-- What comes after a body. -/
theorem expectBody_bind {k k' : Token → Parse β}
    (hk : ∀ t, t.Suits m → t.kind = .block → Sim m strict tail W (k t) (k' (t.move m))) :
    Sim m strict tail W (Parse.expectBody >>= k) (Parse.expectBody >>= k') := by
  refine expect_bind (fun t => by rw [move_blockKind?]) fun t ht hfits => hk t ht ?_
  obtain ⟨kind, hkind, -⟩ := (Option.any_eq_true _ _).1 hfits
  exact kind_of_blockKind? hkind

/-- No separator that follows the tokens is taken for one of them. -/
theorem accept {fits : Token → Bool} (hfits : ∀ t, fits (t.move m) = fits t)
    (hseparator : ∀ t : Token, t.kind = .semicolon → fits t = false) :
    Sim m strict tail (Option.Rel (Moved m)) (Parse.accept fits) (Parse.accept fits) := by
  intro p p' hp
  unfold Parse.accept
  cases hrest : p.rest with
  | nil =>
    rw [hp.rest_nil hrest]
    cases hp.seam with
    | nothing => exact .ok .none hp (Nat.le_refl _)
    | separator ht _ =>
      simp only [hseparator _ ht, Bool.false_eq_true, if_false]
      exact .ok .none hp (Nat.le_refl _)
  | cons t ts =>
    rw [hp.rest_cons hrest]
    simp only [hfits]
    by_cases ht : fits t = true
    · rw [if_pos ht, if_pos ht]
      exact .ok (.some ⟨hp.suits t (by simp [hrest]), rfl⟩) (hp.pass hrest) (by simp [hrest])
    · rw [if_neg ht, if_neg ht]
      exact .ok .none hp (Nat.le_refl _)

/-- An `else` is not sought after the separator that follows the tokens. -/
theorem acceptElse :
    Sim m strict tail (Option.Rel (Moved m)) Parse.acceptElse Parse.acceptElse := by
  intro p p' hp
  have hnone : Agree m strict tail (Option.Rel (Moved m)) p (.ok none p) (.ok none p') :=
    .ok .none hp (Nat.le_refl _)
  unfold Parse.acceptElse
  cases hrest : p.rest with
  | nil =>
    rw [hp.rest_nil hrest]
    cases hp.seam with
    | nothing => exact hnone
    | @separator t us ht hus =>
      have hword := isReserved_semicolon ht .otherwise
      cases us with
      | nil => simpa only [hword, Bool.false_eq_true, if_false] using hnone
      | cons u us =>
        simpa only [hword, hus u rfl, Bool.false_eq_true, and_false, if_false] using hnone
  | cons t ts =>
    rw [hp.rest_cons hrest]
    simp only [move_isReserved, move_kind]
    have hpass := hp.pass hrest
    by_cases ht : t.isReserved .otherwise = true
    · rw [if_pos ht, if_pos ht]
      exact .ok (.some ⟨hp.suits t (by simp [hrest]), rfl⟩) hpass (by simp [hrest])
    · rw [if_neg ht, if_neg ht]
      cases ts with
      | nil =>
        rw [List.map_nil, List.nil_append]
        cases hp.seam with
        | nothing => exact hnone
        | separator hu _ =>
          have hword := isReserved_semicolon hu .otherwise
          simpa only [hword, Bool.false_eq_true, and_false, if_false] using hnone
      | cons u us =>
        simp only [List.map_cons, List.cons_append, move_isReserved]
        by_cases htu : t.kind = .semicolon ∧ u.isReserved .otherwise = true
        · rw [if_pos htu, if_pos htu]
          exact .ok (.some ⟨hp.suits u (by simp [hrest]), rfl⟩)
            (hpass.pass (show (p.pass t).rest = u :: us by simp [hrest]))
            (by simp only [pass_rest, hrest, List.tail_cons, List.length_cons]; omega)
        · rw [if_neg htu, if_neg htu]
          exact hnone

/-- Neither finds what is expected, whatever comes next. -/
theorem peek_unexpected (expected : String) :
    Sim m strict tail V (do let next? ← Parse.peek; Parse.unexpected expected next?)
      (do let next? ← Parse.peek; Parse.unexpected expected next?) := by
  intro p p' hp
  show Agree m strict tail V p (.error (p.unexpected expected p.rest.head?) p)
    (.error (p'.unexpected expected p'.rest.head?) p')
  cases hrest : p.rest with
  | nil =>
    refine agree_unexpected_none hp expected fun htail => ?_
    rw [hp.rest_nil hrest, htail]
    rfl
  | cons t ts =>
    rw [hp.rest_cons hrest]
    exact unexpected_some expected t hp

theorem advance :
    Sim m strict [] (Option.Rel (Moved m)) Parse.advance Parse.advance := by
  intro p p' hp
  unfold Parse.advance
  cases hrest : p.rest with
  | nil =>
    rw [hp.rest_nil hrest]
    exact .ok .none hp (Nat.le_refl _)
  | cons t ts =>
    rw [hp.rest_cons hrest]
    exact .ok (.some ⟨hp.suits t (by simp [hrest]), rfl⟩) (hp.pass hrest) (by simp [hrest])

theorem isDone : Sim m strict [] (Image id) Parse.isDone Parse.isDone := by
  intro p p' hp
  refine .ok ?_ hp (Nat.le_refl _)
  show p'.rest.isEmpty = p.rest.isEmpty
  rw [hp.rest, List.append_nil, List.isEmpty_map]

theorem expectEnd : Sim m strict [] (Image id) Parse.expectEnd Parse.expectEnd := by
  intro p p' hp
  unfold Parse.expectEnd
  cases hrest : p.rest with
  | nil =>
    rw [hp.rest_nil hrest]
    exact .ok rfl hp (Nat.le_refl _)
  | cons t ts =>
    rw [hp.rest_cons hrest, hp.ending]
    exact unexpected_some p.ending.name t hp

/-! ## Blocks and loops -/

/-- The interiors of a block and of the block moved have nothing after them. -/
theorem within {action action' : Parse α} (h : Sim m strict [] V action action') {t : Token}
    (ht : t.Suits m) (hblock : t.kind = .block) :
    Sim m strict tail V (Parse.within t action) (Parse.within (t.move m) action') := by
  have hwhole : Sim m strict [] V (do let a ← action; Parse.expectEnd; return a)
      (do let a ← action'; Parse.expectEnd; return a) :=
    h.bind fun a a' hV => expectEnd.bind fun _ _ _ => pure hV
  intro p p' hp
  have hinside : ∀ endLoc : Location, Tracks m strict []
      (p.interior t endLoc) (p'.interior (t.move m) (endLoc.move m)) := fun endLoc =>
    { rest := by
        show (t.move m).children = t.children.map (Token.move m) ++ []
        rw [move_children, List.append_nil]
      suits := fun u hu => ht.inside hu
      lastStop := rfl
      covers := fun c hc => by cases hc
      ending := rfl
      endLoc := fun _ => rfl
      loops := hp.loops
      seam := .nothing }
  obtain ⟨endLoc, hend, hend'⟩ : ∃ endLoc : Location,
      (if t.isBlock .indented then some t.loc.endPoint else t.loc.lastChar?) = some endLoc ∧
      (if (t.move m).isBlock .indented then some (t.move m).loc.endPoint
        else (t.move m).loc.lastChar?) = some (endLoc.move m) := by
    rw [move_isBlock]
    by_cases hdo : t.isBlock .indented = true
    · rw [if_pos hdo, if_pos hdo, move_loc]
      exact ⟨_, rfl, rfl⟩
    · rw [if_neg hdo, if_neg hdo]
      exact ht.lastChar? hblock
  unfold Parse.within Parse.inside
  dsimp only
  rw [hend, hend']
  dsimp only
  have hagree := hwhole (hinside endLoc)
  revert hagree
  generalize (do let a ← action; Parse.expectEnd; return a : Parse α) (p.interior t endLoc) = r
  generalize (do let a ← action'; Parse.expectEnd; return a : Parse α)
    (p'.interior (t.move m) (endLoc.move m)) = r'
  intro hagree
  cases hagree with
  | ok hV hq _ =>
    exact .ok hV { hp with loops := hq.loops } (Nat.le_refl _)
  | error => exact .error
  | free hstrict => exact .free hstrict

theorem insideLoop {label? : Option String} (h : Sim m strict tail V x x') :
    Sim m strict tail V (Parse.insideLoop label? x) (Parse.insideLoop label? x') := by
  intro p p' hp
  have hin : Tracks m strict tail { p with loops := label? :: p.loops }
      { p' with loops := label? :: p'.loops } := { hp with loops := congrArg (label? :: ·) hp.loops }
  unfold Parse.insideLoop
  have hagree := h hin
  revert hagree
  generalize x { p with loops := label? :: p.loops } = r
  generalize x' { p' with loops := label? :: p'.loops } = r'
  intro hagree
  cases hagree with
  | ok hV hq hlength => exact .ok hV { hq with loops := congrArg List.tail hq.loops } hlength
  | error => exact .error
  | free hstrict => exact .free hstrict

/-! ## Sequences -/

theorem itemsUpTo {separator : TokenKind} {item item' : Parse α}
    (h : Sim m strict [] (Image f) item item') (bound : Nat) :
    Sim m strict [] (Image fun r => (r.1.map f, r.2)) (Parse.itemsUpTo separator item bound)
      (Parse.itemsUpTo separator item' bound) := by
  induction bound with
  | zero => exact image rfl
  | succ bound ih =>
    unfold Parse.itemsUpTo
    refine isDone.bind_image fun done => ?_
    cases done with
    | true => exact image rfl
    | false =>
      refine h.bind_image fun a => isDone.bind_image fun done => ?_
      cases done with
      | true => exact image rfl
      | false =>
        refine get_bind fun p p' hp => ?_
        rw [hp.ending]
        exact expect_bind (fun t => by rw [move_kind])
          (fun t _ _ => ih.bind_image fun others => by cases others; exact image rfl) hp

theorem items {separator : TokenKind} {item item' : Parse α}
    (h : Sim m strict [] (Image f) item item') :
    Sim m strict [] (Image fun r => (r.1.map f, r.2)) (Parse.items separator item)
      (Parse.items separator item') := by
  intro p p' hp
  have hlength : p'.rest.length = p.rest.length := by rw [hp.rest]; simp
  unfold Parse.items
  rw [hlength]
  exact itemsUpTo h _ hp

theorem list {item item' : Parse α} (h : Sim m strict [] (Image f) item item') :
    Sim m strict [] (Image fun r => (r.1.map f, r.2)) (Parse.list item) (Parse.list item') :=
  items h

theorem sequence {item item' : Parse α} (h : Sim m strict [] (Image f) item item') :
    Sim m strict [] (Image (List.map f)) (Parse.sequence item) (Parse.sequence item') := by
  unfold Parse.sequence
  rw [map_eq_pure_bind, map_eq_pure_bind]
  exact (items h).bind_image fun _ => image rfl

/-- No bound is reached before the tokens are. -/
theorem afterCommasUpTo {item item' : Parse α} (h : Sim m strict tail (Image f) item item')
    {bound bound' : Nat} {p p' : Parser} (hp : Tracks m strict tail p p')
    (hbound : p.rest.length ≤ bound) (hbound' : p'.rest.length ≤ bound') :
    Agree m strict tail (Image (List.map f)) p (Parse.afterCommasUpTo item bound p)
      (Parse.afterCommasUpTo item' bound' p') := by
  induction bound generalizing bound' p p' with
  | zero =>
    have hrest := List.length_eq_zero_iff.1 (Nat.le_zero.1 hbound)
    rw [afterCommasUpTo_none bound' fun t ht => by rw [hp.kind_of_head hrest ht]; decide]
    exact .ok rfl hp (Nat.le_refl _)
  | succ bound ih =>
    cases hrest : p.rest with
    | nil =>
      rw [afterCommasUpTo_none _ (by simp [hrest]),
        afterCommasUpTo_none bound' fun t ht => by rw [hp.kind_of_head hrest ht]; decide]
      exact .ok rfl hp (Nat.le_refl _)
    | cons t ts =>
      have hrest' := hp.rest_cons hrest
      by_cases ht : t.kind = .comma
      · obtain ⟨bound', rfl⟩ : ∃ n, bound' = n + 1 :=
          ⟨bound' - 1, by rw [hrest', List.length_cons] at hbound'; omega⟩
        have hcomma : Parse.accept (·.kind == .comma) p = .ok (some t) (p.pass t) :=
          accept_eq hrest (beq_iff_eq.2 ht)
        have hcomma' : Parse.accept (·.kind == .comma) p'
            = .ok (some (t.move m)) (p'.pass (t.move m)) :=
          accept_eq hrest' (beq_iff_eq.2 ((move_kind m t).trans ht))
        unfold Parse.afterCommasUpTo
        rw [bind_eq hcomma, bind_eq hcomma']
        dsimp only
        have hpass : (p.pass t).rest.length + 1 = p.rest.length := by simp [hrest]
        refine ((h (hp.pass hrest)).bind fun a a' q q' ha hq hlength => ?_).of_shorter (by omega)
        have hbound'' : q'.rest.length ≤ bound' := by
          rw [hq.length]
          have := hp.length
          omega
        have hothers := ih hq (by omega) hbound''
        refine (hothers.bind fun as as' r r' has hr hlength' => ?_).of_shorter hlength
        cases ha
        cases has
        exact .ok rfl hr hlength'
      · rw [afterCommasUpTo_none _ (by simpa [hrest] using ht),
          afterCommasUpTo_none _ (by simpa [hrest'] using ht)]
        exact .ok rfl hp (Nat.le_refl _)

theorem afterCommas {item item' : Parse α} (h : Sim m strict tail (Image f) item item') :
    Sim m strict tail (Image (List.map f)) (Parse.afterCommas item) (Parse.afterCommas item') :=
  fun _ _ hp => afterCommasUpTo h hp (Nat.le_refl _) (Nat.le_refl _)

end Sim

end Parse

/-! ## Grammars -/

namespace Grammar

open Parse Parser

variable {m : Relocation} {strict : Bool} {α : Type} {f : α → α} {g g' : Grammar α}

/-- Two extensions bind as tightly and combine forms alike. -/
structure ExtendAlike (m : Relocation) (strict : Bool) (tail : List Token) (f : α → α)
    (extension extension' : Extension α) : Prop where
  power : extension'.power = extension.power
  combine : ∀ a, Parse.Sim m strict tail (Image f) (extension.combine a) (extension'.combine (f a))

/-- Two grammars have the same name, and their forms are read alike. -/
structure Sim (m : Relocation) (strict : Bool) (f : α → α) (g g' : Grammar α) : Prop where
  expected : g'.expected = g.expected
  start : ∀ tail t, t.Suits m →
    Parse.Sim m strict tail (Image f) (g.start t) (g'.start (t.move m))
  continueFrom : ∀ tail power t, t.Suits m →
    Parse.Sim m strict tail (Image f) (g.continueFrom power t) (g'.continueFrom power (t.move m))

/-- Forms are read alike from their first token on. -/
theorem Sim.parse (h : Sim m strict f g g') (tail : List Token) (power : Nat) :
    Parse.Sim m strict tail (Image f) (g.parse power) (g'.parse power) := by
  unfold Grammar.parse
  rw [h.expected]
  exact (Parse.Sim.expectToken _).bind_token fun t ht => h.continueFrom tail power t ht

/-- Where the next token continues no form, the form stays as it is. -/
theorem extendUpTo_none {power : Nat} {p : Parser} (bound : Nat) (form : α)
    (h : ∀ t, p.rest.head? = some t → g.extend? p t = none) :
    g.extendUpTo power bound form p = .ok form p :=
  extendUpTo_halted (fun t extension ht hextend => by rw [h t ht] at hextend; cases hextend) _ _

/-- Two grammars that begin and continue forms alike read them alike. No separator continues a form,
so that the second stops where the first does. -/
theorem Sim.of_extends (hexpected : g'.expected = g.expected)
    (hstart : ∀ tail t, t.Suits m →
      Parse.Sim m strict tail (Image f) (g.start t) (g'.start (t.move m)))
    (hextend : ∀ tail p p' t ts, Tracks m strict tail p p' → p.rest = t :: ts →
      Option.Rel (ExtendAlike m strict tail f) (g.extend? p t) (g'.extend? p' (t.move m)))
    (hseparator : ∀ p t, t.kind = .semicolon → g'.extend? p t = none) : Sim m strict f g g' := by
  have hextendUpTo : ∀ tail power bound bound' form p p', Tracks m strict tail p p' →
      p.rest.length ≤ bound → p'.rest.length ≤ bound' →
      Agree m strict tail (Image f) p (g.extendUpTo power bound form p)
        (g'.extendUpTo power bound' (f form) p') := by
    intro tail power bound
    induction bound with
    | zero =>
      intro bound' form p p' hp hbound hbound'
      have hrest := List.length_eq_zero_iff.1 (Nat.le_zero.1 hbound)
      rw [extendUpTo_none bound' _ fun t ht => hseparator p' t (hp.kind_of_head hrest ht)]
      exact .ok rfl hp (Nat.le_refl _)
    | succ bound ih =>
      intro bound' form p p' hp hbound hbound'
      cases hrest : p.rest with
      | nil =>
        rw [extendUpTo_none _ _ (by simp [hrest]),
          extendUpTo_none bound' _ fun t ht => hseparator p' t (hp.kind_of_head hrest ht)]
        exact .ok rfl hp (Nat.le_refl _)
      | cons t ts =>
        have hrest' := hp.rest_cons hrest
        obtain ⟨bound', rfl⟩ : ∃ n, bound' = n + 1 :=
          ⟨bound' - 1, by rw [hrest', List.length_cons] at hbound'; omega⟩
        have hrel := hextend tail p p' t ts hp hrest
        simp only [extendUpTo, hrest, hrest']
        revert hrel
        generalize g.extend? p t = e?
        generalize g'.extend? p' (t.move m) = e?'
        intro hrel
        cases hrel with
        | none => exact .ok rfl hp (Nat.le_refl _)
        | some halike =>
          dsimp only
          rw [halike.power]
          split
          · have hpass : (p.pass t).rest.length + 1 = p.rest.length := by simp [hrest]
            refine ((halike.combine form (hp.pass hrest)).bind
              fun a a' q q' ha hq hlength => ?_).of_shorter (by omega)
            cases ha
            have hbound'' : q'.rest.length ≤ bound' := by
              rw [hq.length]
              have := hp.length
              omega
            exact (ih bound' a q q' hq (by omega) hbound'').of_shorter hlength
          · exact .ok rfl hp (Nat.le_refl _)
  refine ⟨hexpected, hstart, fun tail power t ht => ?_⟩
  unfold Grammar.continueFrom
  refine (hstart tail t ht).bind_image fun form => ?_
  exact Parse.Sim.get_bind fun p p' hp =>
    hextendUpTo tail power _ _ form p p' hp (Nat.le_refl _) (Nat.le_refl _)

end Grammar

end Offside
