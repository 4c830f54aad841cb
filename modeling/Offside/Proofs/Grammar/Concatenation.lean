import Offside.Proofs.Grammar.Locations
import Offside.Proofs.Grammar.Relocation

/-!
# Sequences one after another

* `Parse.itemsUpTo_more`, `Parse.itemsUpTo_congr`: the first item of a sequence.
  `Parse.itemsUpTo_bound`: every bound that is large enough will do.
* `Parse.Portable`: an item that is read alike wherever its tokens are and whatever separator follows
  them. `Statement.parse_portable`, `Declaration.parse_portable`: statements and declarations are.
* `Parse.Portable.itemsUpTo_append`: such items are read on up to a separator and what follows it.
  `Parse.Portable.sequence_append`: a sequence of them is read as its two parts are.
-/

namespace Offside

open Token

/-- Consuming tokens does not change what ends after them. -/
theorem Parser.Consumes.ending {p q : Parser} {used : List Token} (h : p.Consumes used q) :
    q.ending = p.ending := by
  rw [h.2]
  clear h
  induction used generalizing p with
  | nil => rfl
  | cons t used ih => exact ih

namespace Parse

variable {α : Type} {separator : TokenKind} {item : Parse α} {bound : Nat} {p p' q : Parser} {a : α}

/-! ## The first item -/

/-- An item before a separator and further items. -/
theorem itemsUpTo_more {t : Token} {ts : List Token} {as : List α} {b : Bool} {r : Parser}
    (hp : p.rest ≠ []) (hitem : item p = .ok a q) (hq : q.rest = t :: ts) (ht : t.kind = separator)
    (h : itemsUpTo separator item bound (q.pass t) = .ok (as, b) r) :
    itemsUpTo separator item (bound + 1) p = .ok (a :: as, true) r := by
  rw [itemsUpTo_cons hp hitem hq ht, bind_eq h]
  rfl

/-- A sequence that is not empty depends on a parser only through its first item. -/
theorem itemsUpTo_congr (hp : p.rest ≠ []) (hp' : p'.rest ≠ []) (hitem : item p = item p') :
    itemsUpTo separator item (bound + 1) p = itemsUpTo separator item (bound + 1) p' := by
  unfold itemsUpTo
  rw [bind_eq (isDone_false hp), bind_eq (isDone_false hp')]
  simp only [Bool.false_eq_true, if_false]
  show EStateM.bind item _ p = EStateM.bind item _ p'
  unfold EStateM.bind
  rw [hitem]

/-- Every bound that is no less than the number of tokens will do. -/
theorem itemsUpTo_bound {R : List Token → α → Prop} {loops : List (Option String)}
    (h : Reads loops item R) {bound' : Nat} {as : List α} {b : Bool} {r : Parser}
    (hp : p.loops = loops) (ho : Ordered p.rest) (hbound : p.rest.length ≤ bound)
    (hbound' : p.rest.length ≤ bound') (hok : itemsUpTo separator item bound p = .ok (as, b) r) :
    itemsUpTo separator item bound' p = .ok (as, b) r := by
  induction bound generalizing bound' p as b with
  | zero =>
    have hrest := List.length_eq_zero_iff.1 (Nat.le_zero.1 hbound)
    rw [itemsUpTo_nil hrest] at hok ⊢
    exact hok
  | succ bound ih =>
    by_cases hrest : p.rest = []
    · rw [itemsUpTo_nil hrest] at hok ⊢
      exact hok
    · obtain ⟨bound', rfl⟩ : ∃ n, bound' = n + 1 :=
        ⟨bound' - 1, by have := List.length_pos_iff.2 hrest; omega⟩
      obtain ⟨a, q, hitem, ⟨hq, rfl, rfl, rfl⟩ | ⟨t, ts, others, b', hq, ht, hothers, rfl, rfl⟩⟩ :=
        itemsUpTo_cases hrest hok
      · exact itemsUpTo_last hrest hitem hq
      · obtain ⟨used, hused, -⟩ := h p a q hp ho hitem
        have hpass : (q.pass t).rest = ts := by rw [Parser.pass_rest, hq]; rfl
        have hlength := congrArg List.length hused.1
        rw [hq, List.length_append, List.length_cons] at hlength
        have hts : Ordered (q.pass t).rest := by
          have hall := hused.ordered ho
          rw [hq] at hall
          rw [hpass]
          exact hall.tail
        exact itemsUpTo_more hrest hitem hq ht
          (ih (hused.loops.trans hp) hts (by rw [hpass]; omega) (by rw [hpass]; omega) hothers)

/-! ## Items that can be read elsewhere -/

/-- An item of a sequence that is read alike wherever its tokens are, and whatever separator follows
them. The items of the sequence are outside of all loops. -/
structure Portable (item : Parse α) (move : Relocation → α → α) (R : List Token → α → Prop) :
    Prop where
  /-- An item consumes the tokens that it is read from. -/
  reads : Reads [] item R
  /-- Moved tokens are read as the moved item. -/
  sim (m : Relocation) (tail : List Token) : Sim m false tail (Image (move m)) item item
  /-- Where nothing moves, items stay as they are. -/
  stay (a : α) : move .stay a = a
  /-- It does not matter where the token before an item ends. -/
  fresh {p : Parser} (hp : p.rest ≠ []) : item { p with lastStop? := none } = item p
  /-- An item does not begin with `else`. -/
  begins {p q : Parser} {a : α} {t : Token} (hp : p.rest.head? = some t) (h : item p = .ok a q) :
    t.isReserved .otherwise = false

/-- Where nothing moves, tokens stay as they are. -/
theorem map_move_stay {ts : List Token} (h : ∀ t ∈ ts, t.Suits .stay) :
    ts.map (Token.move .stay) = ts := by
  have hself : ∀ t ∈ ts, t.move .stay = id t := fun t ht =>
    Token.move_eq_self _ ((h t ht).mono fun _ _ => rfl)
  rw [List.map_congr_left hself, List.map_id]

namespace Portable

variable {move : Relocation → α → α} {R : List Token → α → Prop}

/-- Items are read up to a separator and what follows it, which are not among their tokens, if they
are read without these. The last item must not be followed by a separator of its own. -/
theorem itemsUpTo_append (hitem : Portable item move R) {s : Token} {us : List Token}
    (hs : s.kind = .semicolon) {bound' : Nat} {as : List α} {b : Bool}
    (hp : Parser.Tracks .stay false (s :: us) p p') (hloops : p.loops = []) (ho : Ordered p.rest)
    (hne : p.rest ≠ []) (hlast : ∀ t, p.rest.getLast? = some t → t.kind ≠ .semicolon)
    (hbound' : p'.rest.length ≤ bound')
    (h : itemsUpTo .semicolon item bound p = .ok (as, b) q) (hbound : p.rest.length ≤ bound) :
    ∃ bound'' q', q'.rest = us ∧ q'.loops = [] ∧ q'.ending = p.ending ∧ us.length ≤ bound'' ∧
      ∀ others b' r, itemsUpTo .semicolon item bound'' q' = .ok (others, b') r →
        itemsUpTo .semicolon item bound' p' = .ok (as ++ others, true) r := by
  induction bound generalizing bound' p p' as b with
  | zero => exact absurd (List.length_eq_zero_iff.1 (Nat.le_zero.1 hbound)) hne
  | succ bound ih =>
    have hlength' := hp.length
    have hpositive := List.length_pos_iff.2 hne
    rw [List.length_cons] at hlength'
    have hne' : p'.rest ≠ [] := List.length_pos_iff.1 (by omega)
    obtain ⟨bound', rfl⟩ : ∃ n, bound' = n + 1 := ⟨bound' - 1, by omega⟩
    obtain ⟨a, q₁, hfirst, hcases⟩ := itemsUpTo_cases hne h
    obtain ⟨used, hused, -⟩ := hitem.reads p a q₁ hloops ho hfirst
    obtain ⟨q₁', hfirst', htracks⟩ : ∃ q₁', item p' = .ok a q₁' ∧
        Parser.Tracks .stay false (s :: us) q₁ q₁' := by
      have hagree := hitem.sim .stay (s :: us) hp
      rw [hfirst] at hagree
      cases hresult : item p' with
      | error e r =>
        rw [hresult] at hagree
        cases hagree
      | ok a' q₁' =>
        rw [hresult] at hagree
        cases hagree with
        | ok hV hq _ =>
          cases hV
          rw [hitem.stay]
          exact ⟨q₁', rfl, hq⟩
    rcases hcases with ⟨hq, rfl, rfl, rfl⟩ | ⟨t, ts, others, b', hq, ht, hothers, rfl, rfl⟩
    · -- the last item of the first part: the separator is next
      have hq' := htracks.rest_nil hq
      refine ⟨bound', q₁'.pass s, ?_, ?_, ?_, by omega, fun others b' r hothers => ?_⟩
      · rw [Parser.pass_rest, hq']
        rfl
      · rw [Parser.pass_loops, htracks.loops, hused.loops, hloops]
      · show q₁'.ending = p.ending
        rw [htracks.ending, hused.ending]
      · exact itemsUpTo_more hne' hfirst' hq' hs hothers
    · have hpass : (q₁.pass t).rest = ts := by rw [Parser.pass_rest, hq]; rfl
      have hall := hused.ordered ho
      have hrest : p.rest = used ++ t :: ts := by rw [hused.1, hq]
      have hts : ts ≠ [] := by
        rintro rfl
        exact hlast t (by rw [hrest]; simp) ht
      have hlast' : ∀ u, (q₁.pass t).rest.getLast? = some u → u.kind ≠ .semicolon := by
        intro u hu
        rw [hpass] at hu
        refine hlast u ?_
        rw [hrest, List.getLast?_append, List.getLast?_cons, hu]
        rfl
      have hordered : Ordered (q₁.pass t).rest := by
        rw [hq] at hall
        rw [hpass]
        exact hall.tail
      have hlength := congrArg List.length hrest
      rw [List.length_append, List.length_cons] at hlength
      have hpasses := htracks.pass hq
      have hlength'' := hpasses.length
      rw [hpass, List.length_cons] at hlength''
      obtain ⟨bound'', q', hrest', hloops', hending, hbound'', hread⟩ := ih hpasses
        (hused.loops.trans hloops) hordered (by rw [hpass]; exact hts) hlast'
        (show _ ≤ bound' by omega) hothers (by rw [hpass]; omega)
      refine ⟨bound'', q', hrest', hloops', hending.trans hused.ending, hbound'',
        fun more b'' r hmore => ?_⟩
      exact itemsUpTo_more hne' hfirst' (htracks.rest_cons hq) ((move_kind _ t).trans ht)
        (hread more b'' r hmore)

/-- A sequence is read as its two parts are, whose items are separated by a semicolon. -/
theorem sequence_append (hitem : Portable item move R) {span span' : Location} {s : Token}
    {ts us : List Token} {as others : List α} (m : Relocation) (hs : s.kind = .semicolon)
    (hts : ∀ t ∈ ts, t.Suits .stay) (hus : ∀ u ∈ us, u.Suits m) (ho : Ordered ts)
    (ho' : Ordered us) (hne : ts ≠ []) (hne' : us ≠ [])
    (hlast : ∀ t, ts.getLast? = some t → t.kind ≠ .semicolon)
    (h : (sequence item).result (.ofTokens span ts) = .ok as)
    (h' : (sequence item).result (.ofTokens span' us) = .ok others) (whole : Location) :
    (sequence item).result (.ofTokens whole (ts ++ s :: us.map (Token.move m)))
      = .ok (as ++ others.map (move m)) := by
  obtain ⟨q, hok⟩ := result_ok h
  obtain ⟨⟨as, b⟩, hitems, rfl⟩ := map_ok.1 hok
  obtain ⟨q', hok'⟩ := result_ok h'
  obtain ⟨⟨others, b'⟩, hitems', rfl⟩ := map_ok.1 hok'
  obtain ⟨u, us', rfl⟩ := List.exists_cons_of_ne_nil hne'
  have helse : u.isReserved .otherwise = false := by
    obtain ⟨a, r, hfirst, -⟩ := itemsUpTo_cases hne' hitems'
    exact hitem.begins rfl hfirst
  have hfirst : Parser.Tracks .stay false (s :: (u :: us').map (Token.move m))
      (.ofTokens span ts) (.ofTokens whole (ts ++ s :: (u :: us').map (Token.move m))) :=
    { rest := by rw [Parser.ofTokens, Parser.ofTokens, map_move_stay hts]
      suits := hts
      lastStop := rfl
      covers := fun c hc => by cases hc
      ending := rfl
      endLoc := fun h => by cases h
      loops := rfl
      seam := .separator hs fun v hv => by
        cases hv
        rw [move_isReserved]
        exact helse }
  obtain ⟨bound, r, hrest, hloops, hending, hbound, hread⟩ := hitem.itemsUpTo_append hs hfirst rfl
    ho hne hlast (Nat.le_refl _) hitems (Nat.le_refl _)
  -- the second part is read from its first token on, as if there were no first part
  have hsecond : Parser.Tracks m false [] (.ofTokens span' (u :: us')) { r with lastStop? := none } :=
    { rest := hrest.trans (List.append_nil _).symm
      suits := hus
      lastStop := rfl
      covers := fun c hc => by cases hc
      ending := hending
      endLoc := fun h => by cases h
      loops := hloops
      seam := .nothing }
  have hbound' : (u :: us').length ≤ bound := by rwa [List.length_map] at hbound
  have hsim : Sim m false [] _ (itemsUpTo .semicolon item bound)
      (itemsUpTo .semicolon item bound) := .itemsUpTo (hitem.sim m []) bound
  have hagree := hsim hsecond
  rw [itemsUpTo_bound hitem.reads rfl ho' (Nat.le_refl _) hbound' hitems'] at hagree
  obtain ⟨r', hothers⟩ : ∃ r', itemsUpTo .semicolon item bound r
      = .ok (others.map (move m), b') r' := by
    obtain ⟨bound, rfl⟩ : ∃ n, bound = n + 1 :=
      ⟨bound - 1, by rw [List.length_cons] at hbound'; omega⟩
    have hne'' : r.rest ≠ [] := by
      rw [hrest]
      exact List.cons_ne_nil _ _
    have hfresh : itemsUpTo .semicolon item (bound + 1) { r with lastStop? := none }
        = itemsUpTo .semicolon item (bound + 1) r :=
      itemsUpTo_congr hne'' hne'' (hitem.fresh hne'')
    rw [← hfresh]
    revert hagree
    generalize itemsUpTo .semicolon item (bound + 1) { r with lastStop? := none } = result
    intro hagree
    cases hagree with
    | ok hV _ _ =>
      cases hV
      exact ⟨_, rfl⟩
  have hall : items .semicolon item (.ofTokens whole (ts ++ s :: (u :: us').map (Token.move m)))
      = .ok (as ++ others.map (move m), true) r' := hread _ _ _ hothers
  unfold result sequence
  rw [map_eq_pure_bind, bind_eq hall]
  rfl

/-- Only failures depend on the span of the input. -/
theorem sequence_span (hitem : Portable item move R) {span : Location} {ts : List Token}
    {as : List α} (hts : ∀ t ∈ ts, t.Suits .stay)
    (h : (sequence item).result (.ofTokens span ts) = .ok as) (whole : Location) :
    (sequence item).result (.ofTokens whole ts) = .ok as := by
  have hspans : Parser.Tracks .stay false [] (.ofTokens span ts) (.ofTokens whole ts) :=
    { rest := by rw [Parser.ofTokens, Parser.ofTokens, map_move_stay hts, List.append_nil]
      suits := hts
      lastStop := rfl
      covers := fun c hc => by cases hc
      ending := rfl
      endLoc := fun h => by cases h
      loops := rfl
      seam := .nothing }
  obtain ⟨q, hok⟩ := result_ok h
  have hagree := Sim.sequence (hitem.sim .stay []) hspans
  rw [hok] at hagree
  unfold result
  revert hagree
  generalize sequence item (.ofTokens whole ts) = result
  intro hagree
  cases hagree with
  | ok hV _ _ =>
    cases hV
    rw [funext hitem.stay, List.map_id']

end Portable

end Parse

/-! ## Statements and declarations -/

/-- A grammar reads a form from its first token on. -/
theorem Grammar.atWeight_fresh {α : Type} (tower : Nat → Grammar α) (power : Nat) {p : Parser}
    (hp : p.rest ≠ []) :
    Grammar.atWeight tower power { p with lastStop? := none } = Grammar.atWeight tower power p := by
  obtain ⟨t, ts, hrest⟩ := List.exists_cons_of_ne_nil hp
  unfold Grammar.atWeight
  rw [Grammar.parse_eq hrest]
  exact Grammar.parse_eq hrest

/-- A form does not begin with `else` if the grammar does not start one with it. -/
theorem Grammar.atWeight_begins {α : Type} {tower : Nat → Grammar α} {power : Nat}
    (h : ∀ level t p a q, t.reserved? = some .otherwise → (tower level).start t p ≠ .ok a q)
    {p q : Parser} {a : α} {t : Token} (hp : p.rest.head? = some t)
    (hok : Grammar.atWeight tower power p = .ok a q) : t.isReserved .otherwise = false := by
  obtain ⟨ts, hrest⟩ := List.head?_eq_some_iff.1 hp
  rw [Bool.eq_false_iff]
  intro helse
  rw [Grammar.atWeight, Grammar.parse_eq hrest, Grammar.continueFrom] at hok
  obtain ⟨form, r, hform, -⟩ := Parse.bind_ok.1 hok
  exact h p.weight t (p.pass t) form r (isReserved_iff.1 helse) hform

/-- Statements are read alike wherever their tokens are. -/
theorem Statement.parse_portable :
    (Statement.parse 0).Portable Statement.move (Statement.From []) where
  reads p x q hp ho hok := (Statement.grammar_sound p.weight).reads
    (Statement.grammar_extend? p.weight) [] p x q hp ho hok
  sim m tail := Statement.parse_sim 0
  stay := Statement.move_stay
  fresh := Grammar.atWeight_fresh Statement.grammar 0
  begins := Grammar.atWeight_begins fun level t p x q helse hok => by
    cases level with
    | zero => exact Parse.unexpected_ne_ok hok
    | succ level =>
      change Statement.start _ _ _ t p = .ok x q at hok
      rw [Statement.start, helse] at hok
      exact Parse.unexpected_ne_ok hok

/-- Declarations are read alike wherever their tokens are. -/
theorem Declaration.parse_portable :
    (Declaration.parse 0).Portable Declaration.move Declaration.ReadFrom where
  reads p d q hp ho hok := Declaration.grammar_reads p.weight 0 p d q hp ho hok
  sim m tail := Declaration.parse_sim 0
  stay := Declaration.move_stay
  fresh := Grammar.atWeight_fresh Declaration.grammar 0
  begins := Grammar.atWeight_begins fun level t p d q helse hok => by
    change Declaration.start level t p = .ok d q at hok
    rw [Declaration.start, helse] at hok
    exact Parse.unexpected_ne_ok hok

end Offside
