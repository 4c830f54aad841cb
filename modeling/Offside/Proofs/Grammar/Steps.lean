import Offside.Grammar.Basic
import Offside.Proofs.Token.Order

/-!
# What parsers consume

Every action of a parser that succeeds consumes some tokens and moves past them; nothing else about
the parser changes.

* `Parser.passAll`, `Parser.Consumes`: moving past some tokens.
* `Parse.bind_ok`, `Parse.expect_ok`, `Parse.accept_ok`, ...: what each step does when it succeeds.
* `Parse.Reads`: an action relates the tokens that it consumes to the value that it yields.
  `Parse.Reads.within`, `Parse.Reads.items`, `Parse.Reads.afterCommas`: so do blocks and sequences
  of it, with `Separated` and `AfterCommas` for the tokens of a sequence. `Parse.within_ok`,
  `Parse.itemsUpTo_ok`: the same without a condition on the tokens. `Parse.itemsUpTo_cases`: the
  first item of a sequence.
* `Grammar.Halted`: a form cannot be continued. `Grammar.extendUpTo_ok`, `Grammar.continueFrom_ok`,
  `Grammar.parse_ok`: an invariant of the forms of a grammar that every extension keeps holds of
  every form that is read, and reading stops only where the grammar halts.
-/

namespace Offside

open Token

/-! ## Moving past tokens -/

namespace Parser

/-- The parser past its next tokens. -/
def passAll (p : Parser) (used : List Token) : Parser := used.foldl pass p

/-- The parser `q` is `p` past the tokens `used`. -/
def Consumes (p : Parser) (used : List Token) (q : Parser) : Prop :=
  p.rest = used ++ q.rest ∧ q = p.passAll used

@[simp] theorem passAll_nil (p : Parser) : p.passAll [] = p := rfl

@[simp] theorem passAll_cons (p : Parser) (t : Token) (ts : List Token) :
    p.passAll (t :: ts) = (p.pass t).passAll ts := rfl

theorem passAll_append (p : Parser) (s t : List Token) :
    p.passAll (s ++ t) = (p.passAll s).passAll t := List.foldl_append

@[simp] theorem pass_rest (p : Parser) (t : Token) : (p.pass t).rest = p.rest.tail := rfl

@[simp] theorem pass_loops (p : Parser) (t : Token) : (p.pass t).loops = p.loops := rfl

@[simp] theorem pass_lastStop? (p : Parser) (t : Token) :
    (p.pass t).lastStop? = some t.loc.stop := rfl

/-- Moving past tokens stays inside the same loops. -/
@[simp] theorem passAll_loops (p : Parser) (ts : List Token) : (p.passAll ts).loops = p.loops := by
  induction ts generalizing p with
  | nil => rfl
  | cons t ts ih => rw [passAll_cons, ih, pass_loops]

/-- Moving past tokens is the same inside other loops. -/
theorem passAll_inLoops (p : Parser) (loops : List (Option String)) (ts : List Token) :
    ({ p with loops := loops } : Parser).passAll ts = { p.passAll ts with loops := loops } := by
  induction ts generalizing p with
  | nil => rfl
  | cons t ts ih => exact ih (p.pass t)

/-- Past some tokens, those after them are left. -/
theorem passAll_rest {p : Parser} {used rest : List Token} (h : p.rest = used ++ rest) :
    (p.passAll used).rest = rest := by
  induction used generalizing p with
  | nil => exact h
  | cons t ts ih => exact ih (by rw [pass_rest, h]; rfl)

/-- The next tokens can be consumed. -/
theorem consumes_passAll {p : Parser} {used : List Token} (rest : List Token)
    (h : p.rest = used ++ rest) : p.Consumes used (p.passAll used) := ⟨by rw [passAll_rest h, h], rfl⟩

theorem Consumes.refl (p : Parser) : p.Consumes [] p := ⟨rfl, rfl⟩

theorem Consumes.one {p : Parser} {t : Token} {rest : List Token} (h : p.rest = t :: rest) :
    p.Consumes [t] (p.pass t) := consumes_passAll rest h

theorem Consumes.trans {p q r : Parser} {s t : List Token} (hpq : p.Consumes s q)
    (hqr : q.Consumes t r) : p.Consumes (s ++ t) r := by
  refine ⟨?_, ?_⟩
  · rw [hpq.1, hqr.1, List.append_assoc]
  · rw [passAll_append, ← hpq.2]
    exact hqr.2

theorem Consumes.loops {p q : Parser} {used : List Token} (h : p.Consumes used q) :
    q.loops = p.loops := by rw [h.2, passAll_loops]

/-- A consumed token is proper. -/
theorem Consumes.proper {p q : Parser} {t : Token} {used : List Token}
    (h : p.Consumes (t :: used) q) (ho : Ordered p.rest) : t.Proper := by
  rw [h.1] at ho
  exact ho.head

/-- What is left of tokens in order is in order. -/
theorem Consumes.ordered {p q : Parser} {used : List Token} (h : p.Consumes used q)
    (ho : Ordered p.rest) : Ordered q.rest := (Ordered.of_append (h.1 ▸ ho)).2

/-- A consumed token is in order with what is left. -/
theorem Consumes.ordered_cons {p q : Parser} {t : Token} (h : p.Consumes [t] q)
    (ho : Ordered p.rest) : Ordered (t :: q.rest) := by
  rw [h.1] at ho
  exact ho

/-- Tokens before a parser, in order with those that it has ahead, are in order with those that it
consumes and then with those that are left. -/
theorem Consumes.ordered_before {p q : Parser} {s used : List Token} (h : p.Consumes used q)
    (ho : Ordered (s ++ p.rest)) : Ordered (s ++ used) ∧ Ordered (s ++ used ++ q.rest) := by
  rw [h.1, ← List.append_assoc] at ho
  exact ⟨ho.of_append.1, ho⟩

end Parser

open Parser

/-! ## Single steps -/

namespace Parse

variable {α β : Type}

theorem bind_ok {x : Parse α} {f : α → Parse β} {p q : Parser} {b : β} :
    (x >>= f) p = .ok b q ↔ ∃ a r, x p = .ok a r ∧ f a r = .ok b q := by
  show EStateM.bind x f p = .ok b q ↔ _
  unfold EStateM.bind
  cases x p with
  | ok a r =>
    constructor
    · intro h
      exact ⟨a, r, rfl, h⟩
    · rintro ⟨a', r', h, hf⟩
      cases h
      exact hf
  | error e r => simp

theorem pure_ok {a b : α} {p q : Parser} : (pure a : Parse α) p = .ok b q ↔ a = b ∧ p = q := by
  show EStateM.Result.ok a p = .ok b q ↔ _
  simp

theorem map_ok {f : α → β} {x : Parse α} {p q : Parser} {b : β} :
    (f <$> x) p = .ok b q ↔ ∃ a, x p = .ok a q ∧ f a = b := by
  show EStateM.map f x p = .ok b q ↔ _
  unfold EStateM.map
  cases x p with
  | ok a r =>
    constructor
    · intro h
      cases h
      exact ⟨a, rfl, rfl⟩
    · rintro ⟨a', h, rfl⟩
      cases h
      rfl
  | error e r => simp

theorem get_ok {p q r : Parser} : (get : Parse Parser) p = .ok r q ↔ p = r ∧ p = q := by
  show EStateM.Result.ok p p = .ok r q ↔ _
  simp

theorem unexpected_ne_ok {expected : String} {t? : Option Token} {a : α} {p q : Parser} :
    (unexpected expected t? : Parse α) p ≠ .ok a q := by
  intro h
  cases h

theorem fail_ne_ok {cause : ParseError} {loc : Location} {a : α} {p q : Parser} :
    (fail cause loc : Parse α) p ≠ .ok a q := by
  intro h
  cases h

theorem expectToken_ok {expected : String} {p q : Parser} {t : Token}
    (h : expectToken expected p = .ok t q) : p.Consumes [t] q := by
  unfold expectToken at h
  split at h
  · cases h
  · rename_i u rest hrest
    cases h
    exact Consumes.one hrest

theorem expect_ok {expected : String} {fits : Token → Bool} {p q : Parser} {t : Token}
    (h : expect expected fits p = .ok t q) : p.Consumes [t] q ∧ fits t = true := by
  unfold expect at h
  split at h
  · cases h
  · rename_i u rest hrest
    split at h
    · rename_i hfits
      cases h
      exact ⟨Consumes.one hrest, hfits⟩
    · cases h

theorem accept_ok {fits : Token → Bool} {p q : Parser} {t? : Option Token}
    (h : accept fits p = .ok t? q) :
    t? = none ∧ q = p ∧ (∀ t, p.rest.head? = some t → fits t = false) ∨
      ∃ t, t? = some t ∧ p.Consumes [t] q ∧ fits t = true := by
  unfold accept at h
  split at h
  · rename_i hrest
    cases h
    exact .inl ⟨rfl, rfl, fun t ht => by simp [hrest] at ht⟩
  · rename_i u rest hrest
    split at h
    · rename_i hfits
      cases h
      exact .inr ⟨u, rfl, Consumes.one hrest, hfits⟩
    · rename_i hfits
      cases h
      refine .inl ⟨rfl, rfl, fun t ht => ?_⟩
      simp only [hrest, List.head?_cons, Option.some.injEq] at ht
      subst ht
      simpa using hfits

theorem advance_ok {p q : Parser} {t? : Option Token} (h : advance p = .ok t? q) :
    t? = none ∧ q = p ∧ p.rest = [] ∨ ∃ t, t? = some t ∧ p.Consumes [t] q := by
  unfold advance at h
  split at h
  · rename_i hrest
    cases h
    exact .inl ⟨rfl, rfl, hrest⟩
  · rename_i u rest hrest
    cases h
    exact .inr ⟨u, rfl, Consumes.one hrest⟩

theorem expectEnd_ok {p q : Parser} {u : Unit} (h : expectEnd p = .ok u q) :
    p.rest = [] ∧ q = p := by
  unfold expectEnd at h
  split at h
  · rename_i hrest
    cases h
    exact ⟨hrest, rfl⟩
  · cases h

theorem isDone_ok {p q : Parser} {b : Bool} (h : isDone p = .ok b q) :
    b = p.rest.isEmpty ∧ q = p := by
  cases h
  exact ⟨rfl, rfl⟩

theorem peek_ok {p q : Parser} {t? : Option Token} (h : peek p = .ok t? q) :
    t? = p.rest.head? ∧ q = p := by
  cases h
  exact ⟨rfl, rfl⟩

/-- A token that a body can be: a block that holds statements. -/
def IsBody (t : Token) : Prop := t.blockKind?.any BlockKind.holdsStatements = true

theorem expectBody_ok {p q : Parser} {t : Token} (h : expectBody p = .ok t q) :
    p.Consumes [t] q ∧ IsBody t := expect_ok h

/-- The tokens of an `else`: the word, and the semicolon that layout may have put before it. -/
def IsElse (ts : List Token) : Prop :=
  ∃ t, t.isReserved .otherwise = true ∧
    (ts = [t] ∨ ∃ u : Token, u.kind = .semicolon ∧ ts = [u, t])

theorem acceptElse_ok {p q : Parser} {t? : Option Token} (h : acceptElse p = .ok t? q) :
    t? = none ∧ q = p ∨ ∃ t ts, t? = some t ∧ p.Consumes ts q ∧ IsElse ts := by
  unfold acceptElse at h
  split at h
  · cases h
    exact .inl ⟨rfl, rfl⟩
  · rename_i t after hrest
    split at h
    · rename_i ht
      cases h
      exact .inr ⟨t, [t], rfl, Consumes.one hrest, t, ht, .inl rfl⟩
    · split at h
      · cases h
        exact .inl ⟨rfl, rfl⟩
      · rename_i u rest
        split at h
        · rename_i htu
          cases h
          exact .inr ⟨u, [t, u], rfl, consumes_passAll rest hrest, u, htu.2,
            .inr ⟨t, htu.1, rfl⟩⟩
        · cases h
          exact .inl ⟨rfl, rfl⟩

/-! ## Blocks and loops -/

/-- Inside the given loops, an action relates the tokens that it consumes to its value. -/
def Reads (loops : List (Option String)) (action : Parse α) (R : List Token → α → Prop) : Prop :=
  ∀ p a q, p.loops = loops → Ordered p.rest → action p = .ok a q →
    ∃ used, p.Consumes used q ∧ R used a

variable {loops : List (Option String)} {action : Parse α} {R : List Token → α → Prop}

/-- An action before the end of the tokens. -/
theorem whole_ok {p q : Parser} {a : α}
    (h : (do let a ← action; expectEnd; return a : Parse α) p = .ok a q) :
    action p = .ok a q ∧ q.rest = [] := by
  obtain ⟨b, r, hb, h⟩ := bind_ok.1 h
  obtain ⟨u, r', hend, h⟩ := bind_ok.1 h
  obtain ⟨rfl, rfl⟩ := pure_ok.1 h
  obtain ⟨hrest, rfl⟩ := expectEnd_ok hend
  exact ⟨hb, hrest⟩

/-- The value of a successful action. -/
theorem result_ok {p : Parser} {a : α} (h : action.result p = .ok a) :
    ∃ q, action p = .ok a q := by
  unfold Parse.result at h
  split at h
  · rename_i b q hq
    cases h
    exact ⟨q, hq⟩
  · cases h

/-- An action consumes the whole interior of a block, and the parser around the block stays. -/
theorem within_ok {block : Token} {p q : Parser} {a : α}
    (hok : Parse.within block action p = .ok a q) :
    ∃ l r, action (p.interior block l) = .ok a r ∧ r.rest = [] ∧
      q = { p with loops := r.loops } := by
  unfold Parse.within inside at hok
  dsimp only at hok
  split at hok
  · cases hok
  · rename_i endLoc _
    split at hok
    · rename_i b r hr
      cases hok
      obtain ⟨haction, hrest⟩ := whole_ok hr
      exact ⟨endLoc, r, haction, hrest, rfl⟩
    · cases hok

/-- An action that consumes the whole interior of a block reads it. -/
theorem Reads.within (h : Reads loops action R) {block : Token} {p q : Parser} {a : α}
    (hp : p.loops = loops) (hblock : block.Proper) (hok : Parse.within block action p = .ok a q) :
    q = p ∧ R block.children a := by
  obtain ⟨l, r, haction, hrest, rfl⟩ := within_ok hok
  obtain ⟨used, hused, hR⟩ := h (p.interior block l) _ _ hp hblock.ordered haction
  refine ⟨?_, ?_⟩
  · rw [hused.loops]
    rfl
  · have hall : block.children = used ++ _ := hused.1
    rw [hrest, List.append_nil] at hall
    exact hall ▸ hR

/-- An action inside one more loop. -/
theorem Reads.insideLoop {label? : Option String} (h : Reads (label? :: loops) action R) :
    Reads loops (insideLoop label? action) R := by
  intro p a q hp ho hok
  unfold Parse.insideLoop at hok
  split at hok
  · rename_i b r hr
    cases hok
    obtain ⟨used, hused, hR⟩ :=
      h { p with loops := label? :: p.loops } a r (congrArg (label? :: ·) hp) ho hr
    refine ⟨used, ⟨hused.1, ?_⟩, hR⟩
    rw [hused.2, passAll_inLoops, List.tail_cons, ← passAll_inLoops]
  · cases hok

/-! ## Sequences -/

/-- The tokens of items with separators between them, and whether there is a separator. One may also
stand at the end. -/
inductive Separated (separator : TokenKind) (R : List Token → α → Prop) :
    Bool → List Token → List α → Prop
  | nil : Separated separator R false [] []
  | last {ts : List Token} {a : α} (h : R ts a) : Separated separator R false ts [a]
  | more {ts us : List Token} {a : α} {as : List α} {t : Token} {b : Bool} (h : R ts a)
      (ht : t.kind = separator) (others : Separated separator R b us as) :
      Separated separator R true (ts ++ t :: us) (a :: as)

/-- The tokens of items that each follow a comma. -/
inductive AfterCommas (R : List Token → α → Prop) : List Token → List α → Prop
  | nil : AfterCommas R [] []
  | cons {ts us : List Token} {a : α} {as : List α} {t : Token} (ht : t.kind = .comma) (h : R ts a)
      (others : AfterCommas R us as) : AfterCommas R (t :: (ts ++ us)) (a :: as)

/-- What holds of every item holds of items with separators between them. -/
theorem Separated.all {separator : TokenKind} {P : α → Prop} (hR : ∀ ts a, R ts a → P a) {b : Bool}
    {ts : List Token} {as : List α} (h : Separated separator R b ts as) : ∀ a ∈ as, P a := by
  induction h with
  | nil => exact fun _ h => absurd h List.not_mem_nil
  | last h => exact List.forall_mem_singleton.2 (hR _ _ h)
  | more h _ _ ih => exact List.forall_mem_cons.2 ⟨hR _ _ h, ih⟩

/-- What holds of every item holds of items after commas. -/
theorem AfterCommas.all {P : α → Prop} (hR : ∀ ts a, R ts a → P a) {ts : List Token} {as : List α}
    (h : AfterCommas R ts as) : ∀ a ∈ as, P a := by
  induction h with
  | nil => exact fun _ h => absurd h List.not_mem_nil
  | cons _ h _ ih => exact List.forall_mem_cons.2 ⟨hR _ _ h, ih⟩

/-- No tokens are a sequence without items. -/
theorem itemsUpTo_nil {separator : TokenKind} {item : Parse α} {bound : Nat} {p : Parser}
    (hp : p.rest = []) : itemsUpTo separator item bound p = .ok ([], false) p := by
  cases bound with
  | zero => rfl
  | succ bound =>
    unfold itemsUpTo
    show EStateM.bind isDone _ p = _
    unfold EStateM.bind isDone
    rw [hp]
    rfl

/-- What has been read of a sequence that is not empty: its first item, and then nothing or a
separator and the other items. -/
theorem itemsUpTo_cases {separator : TokenKind} {item : Parse α} {bound : Nat} {p r : Parser}
    {as : List α} {b : Bool} (hp : p.rest ≠ [])
    (h : itemsUpTo separator item (bound + 1) p = .ok (as, b) r) :
    ∃ a q, item p = .ok a q ∧
      ((q.rest = [] ∧ as = [a] ∧ b = false ∧ r = q) ∨
      ∃ t ts others b', q.rest = t :: ts ∧ t.kind = separator ∧
        itemsUpTo separator item bound (q.pass t) = .ok (others, b') r ∧ as = a :: others ∧
        b = true) := by
  unfold itemsUpTo at h
  obtain ⟨done, p', hdone, h⟩ := bind_ok.1 h
  obtain ⟨rfl, rfl⟩ := isDone_ok hdone
  rw [if_neg (by rwa [List.isEmpty_iff])] at h
  obtain ⟨a, q₀, hitem, h⟩ := bind_ok.1 h
  obtain ⟨done, q, hdone, h⟩ := bind_ok.1 h
  obtain ⟨rfl, rfl⟩ := isDone_ok hdone
  refine ⟨a, q, hitem, ?_⟩
  split at h
  · rename_i hempty
    obtain ⟨heq, rfl⟩ := pure_ok.1 h
    cases heq
    exact .inl ⟨List.isEmpty_iff.1 hempty, rfl, rfl, rfl⟩
  · obtain ⟨q', q₁, hq', h⟩ := bind_ok.1 h
    obtain ⟨rfl, rfl⟩ := get_ok.1 hq'
    obtain ⟨t, q₂, ht, h⟩ := bind_ok.1 h
    obtain ⟨⟨others, b'⟩, r', hothers, h⟩ := bind_ok.1 h
    obtain ⟨heq, rfl⟩ := pure_ok.1 h
    cases heq
    obtain ⟨htused, hkind⟩ := expect_ok ht
    cases htused.2
    exact .inr ⟨t, _, others, b', htused.1, by simpa using hkind, hothers, rfl, rfl⟩

/-- Items up to the end of the tokens consume them all, if each item that begins at a good place
consumes tokens that it relates to its value. A bound that is no less than the number of tokens is
no bound on items. -/
theorem itemsUpTo_ok {P : Parser → Prop}
    (hP : ∀ {p q : Parser} {used : List Token}, p.Consumes used q → P p → P q)
    (h : ∀ p a q, P p → action p = .ok a q → ∃ used, p.Consumes used q ∧ R used a)
    {separator : TokenKind} {bound : Nat} {p q : Parser} {as : List α} {b : Bool} (hp : P p)
    (hbound : p.rest.length ≤ bound)
    (hok : Parse.itemsUpTo separator action bound p = .ok (as, b) q) :
    p.Consumes p.rest q ∧ Separated separator R b p.rest as := by
  induction bound generalizing p as b with
  | zero =>
    obtain ⟨heq, rfl⟩ := pure_ok.1 hok
    cases heq
    rw [List.length_eq_zero_iff.1 (Nat.le_zero.1 hbound)]
    exact ⟨Consumes.refl p, .nil⟩
  | succ bound ih =>
    by_cases hnil : p.rest = []
    · rw [itemsUpTo_nil hnil] at hok
      cases hok
      rw [hnil]
      exact ⟨Consumes.refl _, .nil⟩
    · obtain ⟨a, r, ha, hcases⟩ := itemsUpTo_cases hnil hok
      obtain ⟨used, hused, hR⟩ := h _ _ _ hp ha
      rcases hcases with ⟨hr, rfl, rfl, rfl⟩ | ⟨t, ts, others, b', hr, ht, hothers, rfl, rfl⟩
      · have hall : p.rest = used := by rw [hused.1, hr, List.append_nil]
        rw [hall]
        exact ⟨hused, .last hR⟩
      · have hpass := hused.trans (Consumes.one hr)
        have hall : p.rest = used ++ t :: (r.pass t).rest := by
          rw [hpass.1, List.append_assoc]
          rfl
        have hlength : (r.pass t).rest.length ≤ bound := by
          rw [hall, List.length_append, List.length_cons] at hbound
          omega
        obtain ⟨hlast, hsep⟩ := ih (hP hpass hp) hlength hothers
        rw [hall]
        refine ⟨?_, .more hR ht hsep⟩
        rw [← List.singleton_append, ← List.append_assoc]
        exact hpass.trans hlast

/-- Items up to the end of the tokens read them all, if the bound is large enough. -/
theorem Reads.itemsUpTo (h : Reads loops action R) {separator : TokenKind} {bound : Nat}
    {p q : Parser} {as : List α} {b : Bool} (hp : p.loops = loops) (ho : Ordered p.rest)
    (hbound : p.rest.length ≤ bound)
    (hok : Parse.itemsUpTo separator action bound p = .ok (as, b) q) :
    p.Consumes p.rest q ∧ Separated separator R b p.rest as :=
  itemsUpTo_ok (P := fun p => p.loops = loops ∧ Ordered p.rest)
    (fun hused hp => ⟨hused.loops.trans hp.1, hused.ordered hp.2⟩)
    (fun p a q hp hok => h p a q hp.1 hp.2 hok) ⟨hp, ho⟩ hbound hok

/-- Items up to the end of the tokens read them all. -/
theorem Reads.items (h : Reads loops action R) {separator : TokenKind} {p q : Parser}
    {as : List α} {b : Bool} (hp : p.loops = loops) (ho : Ordered p.rest)
    (hok : Parse.items separator action p = .ok (as, b) q) :
    p.Consumes p.rest q ∧ Separated separator R b p.rest as :=
  h.itemsUpTo hp ho (Nat.le_refl _) hok

/-- A list reads all tokens as items with commas between them. -/
theorem Reads.list (h : Reads loops action R) :
    Reads loops (Parse.list action) fun ts items => Separated .comma R items.2 ts items.1 := by
  intro p items q hp ho hok
  obtain ⟨hused, hsep⟩ := h.items hp ho hok
  exact ⟨p.rest, hused, hsep⟩

/-- A sequence reads all tokens as items with semicolons between them. -/
theorem Reads.sequence (h : Reads loops action R) :
    Reads loops (Parse.sequence action) fun ts as => ∃ b, Separated .semicolon R b ts as := by
  intro p as q hp ho hok
  obtain ⟨⟨as, b⟩, hitems, rfl⟩ := map_ok.1 hok
  obtain ⟨hused, hsep⟩ := h.items hp ho hitems
  exact ⟨p.rest, hused, b, hsep⟩

/-- Items after commas are read in turn. -/
theorem Reads.afterCommasUpTo (h : Reads loops action R) (bound : Nat) :
    Reads loops (Parse.afterCommasUpTo action bound) (AfterCommas R) := by
  induction bound with
  | zero =>
    intro p as q hp ho hok
    obtain ⟨rfl, rfl⟩ := pure_ok.1 hok
    exact ⟨[], Consumes.refl p, .nil⟩
  | succ bound ih =>
    intro p as q hp ho hok
    unfold Parse.afterCommasUpTo at hok
    obtain ⟨t?, r, ht, hrest⟩ := bind_ok.1 hok
    rcases accept_ok ht with ⟨rfl, rfl, -⟩ | ⟨t, rfl, htused, hkind⟩
    · obtain ⟨rfl, rfl⟩ := pure_ok.1 hrest
      exact ⟨[], Consumes.refl r, .nil⟩
    · obtain ⟨a, r₁, ha, hok⟩ := bind_ok.1 hrest
      obtain ⟨others, r₂, hothers, hok⟩ := bind_ok.1 hok
      obtain ⟨rfl, rfl⟩ := pure_ok.1 hok
      obtain ⟨used, hused, hR⟩ := h _ _ _ (htused.loops.trans hp) (htused.ordered ho) ha
      have hr₁ := htused.trans hused
      obtain ⟨more, hmore, hR'⟩ := ih _ _ _ (hr₁.loops.trans hp) (hr₁.ordered ho) hothers
      exact ⟨t :: (used ++ more), hr₁.trans hmore, .cons (by simpa using hkind) hR hR'⟩

/-- All items that each follow a comma are read in turn. -/
theorem Reads.afterCommas (h : Reads loops action R) :
    Reads loops (Parse.afterCommas action) (AfterCommas R) :=
  fun p as q hp ho hok => h.afterCommasUpTo p.rest.length p as q hp ho hok

end Parse

/-! ## Grammars -/

namespace Grammar

open Parse

variable {α : Type} {g : Grammar α} {power : Nat}

/-- No token that binds tighter than `power` continues a form here. -/
def Halted (g : Grammar α) (power : Nat) (p : Parser) : Prop :=
  ∀ t extension, p.rest.head? = some t → g.extend? p t = some extension →
    extension.power ≤ power

/-- An invariant that relates the tokens of a form, the form and the parser after it, and that every
extension keeps. -/
def Keeps (g : Grammar α) (power : Nat) (Inv : List Token → α → Parser → Prop) : Prop :=
  ∀ used form p t extension form' q, Inv used form p → p.rest.head? = some t →
    g.extend? p t = some extension → power < extension.power →
    extension.combine form (p.pass t) = .ok form' q →
    ∃ more, (p.pass t).Consumes more q ∧ Inv (used ++ t :: more) form' q

variable {Inv : List Token → α → Parser → Prop}

/-- Extending a form keeps an invariant, and it stops only where the grammar halts. -/
theorem extendUpTo_ok (hkeeps : Keeps g power Inv) {bound : Nat} {used : List Token}
    {form form' : α} {p q : Parser} (hinv : Inv used form p) (hbound : p.rest.length ≤ bound)
    (hok : g.extendUpTo power bound form p = .ok form' q) :
    ∃ more, p.Consumes more q ∧ Inv (used ++ more) form' q ∧ Halted g power q := by
  have hstop : form = form' → p = q → Halted g power p →
      ∃ more, p.Consumes more q ∧ Inv (used ++ more) form' q ∧ Halted g power q := by
    rintro rfl rfl hhalted
    exact ⟨[], Consumes.refl p, by rwa [List.append_nil], hhalted⟩
  induction bound generalizing used form p with
  | zero =>
    obtain ⟨rfl, rfl⟩ := pure_ok.1 hok
    refine hstop rfl rfl fun t extension ht => ?_
    simp [List.length_eq_zero_iff.1 (Nat.le_zero.1 hbound)] at ht
  | succ bound ih =>
    unfold extendUpTo at hok
    split at hok
    · rename_i hrest
      cases hok
      refine hstop rfl rfl fun t extension ht => ?_
      simp [hrest] at ht
    · rename_i t rest hrest
      have hhead : p.rest.head? = some t := by rw [hrest]; rfl
      split at hok
      · rename_i hnone
        cases hok
        refine hstop rfl rfl fun u extension hu hextension => ?_
        cases hhead.symm.trans hu
        rw [hnone] at hextension
        cases hextension
      · rename_i extension hextension
        split at hok
        · rename_i hpower
          obtain ⟨form₁, p₁, hcombine, hok⟩ := bind_ok.1 hok
          obtain ⟨more, hmore, hinv₁⟩ :=
            hkeeps used form p t extension form₁ p₁ hinv hhead hextension hpower hcombine
          have hp₁ := (Consumes.one hrest).trans hmore
          have hlength : p₁.rest.length ≤ bound := by
            have := congrArg List.length hp₁.1
            simp only [List.length_append, List.length_singleton] at this
            omega
          obtain ⟨more', hmore', hinv', hhalted⟩ := ih hinv₁ hlength hok (by
            rintro rfl rfl hhalted
            exact ⟨[], Consumes.refl p₁, by rwa [List.append_nil], hhalted⟩)
          refine ⟨t :: more ++ more', hp₁.trans hmore', ?_, hhalted⟩
          rwa [← List.append_assoc]
        · rename_i hpower
          cases hok
          refine hstop rfl rfl fun u extension' hu hextension' => ?_
          cases hhead.symm.trans hu
          cases hextension.symm.trans hextension'
          omega

/-- A form that is continued from its first token has the invariant, if every beginning has it. -/
theorem continueFrom_ok (hkeeps : Keeps g power Inv) {t : Token} {form : α} {p q : Parser}
    (hstart : ∀ form' r, g.start t p = .ok form' r →
      ∃ more, p.Consumes more r ∧ Inv (t :: more) form' r)
    (hok : g.continueFrom power t p = .ok form q) :
    ∃ more, p.Consumes more q ∧ Inv (t :: more) form q ∧ Halted g power q := by
  unfold continueFrom at hok
  obtain ⟨form₁, r, hform₁, hok⟩ := bind_ok.1 hok
  obtain ⟨r', r'', hr', hok⟩ := bind_ok.1 hok
  obtain ⟨rfl, rfl⟩ := get_ok.1 hr'
  obtain ⟨more, hmore, hinv⟩ := hstart form₁ r hform₁
  obtain ⟨more', hmore', hinv', hhalted⟩ := extendUpTo_ok hkeeps hinv (Nat.le_refl _) hok
  exact ⟨more ++ more', hmore.trans hmore', hinv', hhalted⟩

/-- A form begins with the next token. -/
theorem parse_ok {form : α} {p q : Parser} (hok : g.parse power p = .ok form q) :
    ∃ t, p.Consumes [t] (p.pass t) ∧ g.continueFrom power t (p.pass t) = .ok form q := by
  unfold parse at hok
  obtain ⟨t, r, ht, hok⟩ := bind_ok.1 hok
  have hr := expectToken_ok ht
  have hr' : r = p.pass t := hr.2
  subst hr'
  exact ⟨t, hr, hok⟩

end Grammar

end Offside
