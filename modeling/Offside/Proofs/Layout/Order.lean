import Offside.Proofs.Layout.Steps
import Offside.Proofs.Token.Nesting

/-!
# Layout keeps tokens in order

* `Layout.Rules.enter_inOrder`: the interior of a block that is entered is in order inside it, and
  what follows it is in order after it. For a `do` the block has grown by its region.
* `Layout.PlacedInOrder`: laid-out tokens in order, each with its own start.
  `Layout.arrange_inOrder`: arranging tokens in order yields such tokens.
* `Layout.punctuate_inOrder`, `Layout.layout_inOrder`: separators, and so layout as a whole, keep
  tokens in order.
-/

namespace Offside.Layout

open Token

/-! ## Entering a block -/

/-- A region and what follows it stay in order. -/
theorem splitRegion_inOrder (column row : Nat) {a b : Cursor} {ts : List Token}
    (h : InOrder a b ts) : ∃ m, InOrder a m (splitRegion column row ts).1 ∧
      InOrder m b (splitRegion column row ts).2 := by
  rw [← splitRegion_append column row ts] at h
  exact inOrder_append.1 h

/-- Tokens in order end, as a location, where their last token does. -/
theorem inOrder_getLast {a b : Cursor} {ts : List Token} (h : InOrder a b ts) {last : Token}
    (hlast : ts.getLast? = some last) : InOrder a last.loc.stop ts ∧ last.loc.stop ≤ b ∧
      a ≤ last.loc.start := by
  obtain ⟨ys, rfl⟩ := List.getLast?_eq_some_iff.1 hlast
  obtain ⟨m, hys, hone⟩ := inOrder_append.1 h
  obtain ⟨hm, hp, hb⟩ := inOrder_cons.1 hone
  refine ⟨inOrder_append.2 ⟨m, hys, inOrder_cons.2 ⟨hm, hp, ?_⟩⟩, inOrder_nil.1 hb,
    Cursor.le_trans hys.le hm⟩
  exact inOrder_nil.2 (Cursor.le_refl _)

/-- The interior of a block is in order inside it, and what follows it is in order after it. -/
theorem Rules.enter_inOrder {r : Rules} {t : Token} {rest : List Token} {interior : Interior}
    {b : Cursor} (h : r.enter t rest = .ok interior) (ht : t.Proper)
    (hrest : InOrder t.loc.stop b rest) :
    interior.loc.start = t.loc.start ∧ t.loc.stop ≤ interior.loc.stop ∧
      InOrder interior.loc.start interior.loc.stop interior.tokens ∧
      InOrder interior.loc.stop b interior.rest := by
  have hin := ht.interior
  rcases enter_cases h with ⟨-, -, rfl⟩ | ⟨-, rfl⟩ | ⟨-, -, rfl⟩
  · exact ⟨rfl, Cursor.le_refl _, hin, hrest⟩
  · obtain ⟨m, hregion, hafter⟩ :=
      splitRegion_inOrder r.column t.loc.stop.row hrest
    have htokens : InOrder t.loc.start m (r.enterIndented t rest).tokens :=
      inOrder_append.2 ⟨_, hin, hregion⟩
    have hloc : (r.enterIndented t rest).loc = ((r.enterIndented t rest).tokens.getLast?).elim t.loc
        fun last => t.loc.join last.loc := rfl
    rw [hloc]
    cases hlast : (r.enterIndented t rest).tokens.getLast? with
    | none =>
      have hnil := List.getLast?_eq_none_iff.1 hlast
      rw [hnil]
      refine ⟨rfl, Cursor.le_refl _, inOrder_nil.2 t.loc.start_le_stop, ?_⟩
      exact hafter.mono hregion.le (Cursor.le_refl b)
    | some last =>
      obtain ⟨htokens', hm, hstart⟩ := inOrder_getLast htokens hlast
      rw [Option.elim_some, Location.join_start hstart]
      -- the last token ends inside the keyword's own interior, or it is one of the region
      rcases Cursor.le_total t.loc.stop last.loc.stop with hle | hle
      · rw [Location.join_stop hle]
        exact ⟨rfl, hle, htokens', hafter.mono hm (Cursor.le_refl b)⟩
      · rw [Location.join_stop_left hle]
        exact ⟨rfl, Cursor.le_refl _, htokens'.mono (Cursor.le_refl _) hle,
          hafter.mono hregion.le (Cursor.le_refl b)⟩
  · exact ⟨rfl, Cursor.le_refl _, hin, hrest⟩

/-! ## Separators -/

/-- Laid-out tokens in order, each with where it begins. -/
def PlacedInOrder (a b : Cursor) (run : List Placed) : Prop :=
  InOrder a b (run.map Placed.token) ∧ ∀ p ∈ run, p.start = p.token.loc.start

/-- A semicolon that layout puts somewhere is proper. -/
theorem semicolon_proper (c : Cursor) : (Token.semicolon (Location.point c)).Proper :=
  (proper_iff _).2 ⟨(fun h => nomatch h), (fun h => nomatch h), (fun h => absurd rfl h),
    inOrder_nil.2 (Cursor.le_refl c)⟩

/-- A separator goes right before the token that begins a statement. -/
theorem inOrder_mark {a b : Cursor} {t : Token} {ts : List Token} (h : InOrder a b (t :: ts))
    (begins : Bool) :
    InOrder a b ((if begins then [Token.semicolon (Location.point t.loc.start)] else [])
      ++ t :: ts) := by
  obtain ⟨ha, hrest⟩ := inOrder_cons.1 h
  cases begins with
  | false => exact h
  | true =>
    refine inOrder_cons.2 ⟨ha, semicolon_proper _, ?_⟩
    exact inOrder_cons.2 ⟨Cursor.le_refl _, hrest⟩

/-- Separating statements keeps tokens in order. -/
theorem separate_inOrder {a b : Cursor} {column row : Nat} {inStatement : Bool}
    {run : List Placed} (h : PlacedInOrder a b run) :
    InOrder a b (separate column row inStatement run) := by
  induction run generalizing a row inStatement with
  | nil =>
    rw [separate]
    exact h.1
  | cons p run ih =>
    obtain ⟨horder, hstart⟩ := h
    rw [List.map_cons, inOrder_cons] at horder
    have hp : p.start = p.token.loc.start := hstart p List.mem_cons_self
    have hrun : PlacedInOrder p.token.loc.stop b run :=
      ⟨horder.2.2, fun q hq => hstart q (List.mem_cons_of_mem _ hq)⟩
    have hnext : ∀ inStatement', InOrder a b
        (p.token :: separate column p.token.loc.stop.row inStatement' run) :=
      fun inStatement' => inOrder_cons.2 ⟨horder.1, horder.2.1, ih hrun⟩
    rw [separate, hp]
    split
    · split
      · exact inOrder_mark (hnext false) _
      · -- the written semicolon is dropped, so the sequence has lost a token
        refine (inOrder_mark (hnext false) (inStatement && decide (row < p.token.loc.start.row)
          && p.token.loc.start.col == column)).sublist ?_
        exact List.Sublist.append_left (List.sublist_cons_self _ _) _
    · exact inOrder_mark (hnext true) _

/-- Punctuating a run of statements keeps tokens in order. -/
theorem punctuate_inOrder {a b : Cursor} {column : Nat} {run : List Placed}
    (h : PlacedInOrder a b run) : InOrder a b (punctuate column run) := by
  unfold punctuate dropFinalSemicolon
  split
  · exact (separate_inOrder h).sublist (List.dropLast_sublist _)
  · exact separate_inOrder h

/-! ## Arrangements -/

/-- A laid-out block is proper. -/
theorem Interior.close_proper {interior : Interior} {t : Token} {run : List Placed}
    (ht : t.Proper) (hblock : t.kind = .block) (hstart : interior.loc.start = t.loc.start)
    (hstop : t.loc.stop ≤ interior.loc.stop)
    (hrun : PlacedInOrder interior.loc.start interior.loc.stop run) :
    (interior.close t run).Proper := by
  have hkind : (interior.close t run).kind = .block := hblock
  refine (proper_iff _).2 ⟨fun h => ?_, fun h => ?_, fun _ => ?_, ?_⟩
  · rw [hkind] at h
    cases h
  · rw [hkind] at h
    cases h
  · show interior.loc.start ≠ interior.loc.stop
    rw [hstart]
    intro heq
    refine ((proper_iff t).1 ht).2.2.1 ?_ (Cursor.le_antisymm t.loc.start_le_stop ?_)
    · rw [hblock]
      decide
    · rw [heq]
      exact hstop
  · show InOrder interior.loc.start interior.loc.stop
      (if interior.holdsStatements then punctuate interior.rules.column run
        else run.map Placed.token)
    split
    · exact punctuate_inOrder hrun
    · exact hrun.1

/-- One more laid-out token in front. -/
theorem PlacedInOrder.cons {a b : Cursor} {p : Placed} {run : List Placed}
    (ha : a ≤ p.token.loc.start) (hp : p.token.Proper) (hstart : p.start = p.token.loc.start)
    (h : PlacedInOrder p.token.loc.stop b run) : PlacedInOrder a b (p :: run) := by
  refine ⟨?_, ?_⟩
  · rw [List.map_cons]
    exact inOrder_cons.2 ⟨ha, hp, h.1⟩
  · intro q hq
    rcases List.mem_cons.1 hq with rfl | hq
    · exact hstart
    · exact h.2 q hq

/-- Arranging keeps tokens in order. -/
theorem arrange_inOrder {r : Rules} {ts : List Token} {a b : Cursor} {run : List Placed}
    (hts : InOrder a b ts) (h : arrange r ts = .ok run) : PlacedInOrder a b run := by
  induction h using arrange_induction generalizing a b with
  | nil => exact ⟨hts, fun p hp => absurd hp List.not_mem_nil⟩
  | leaf _ _ _ ih =>
    obtain ⟨ha, ht, hrest⟩ := inOrder_cons.1 hts
    exact (ih hrest).cons ha ht rfl
  | @block r t rest interior inner others _ hkind henter _ _ ihinner ihothers =>
    obtain ⟨ha, ht, hrest⟩ := inOrder_cons.1 hts
    obtain ⟨hstart, hstop, htokens, hafter⟩ := Rules.enter_inOrder henter ht hrest
    refine (ihothers hafter).cons ?_
      (Interior.close_proper ht hkind hstart hstop (ihinner htokens)) hstart.symm
    show a ≤ interior.loc.start
    rw [hstart]
    exact ha

/-- Layout keeps tokens in order. -/
theorem layout_inOrder {ts laidOut : List Token} {a b : Cursor} (hts : InOrder a b ts)
    (h : layout ts = .ok laidOut) : InOrder a b laidOut := by
  obtain ⟨run, hrun, rfl⟩ := layout_ok h
  exact punctuate_inOrder (arrange_inOrder hts hrun)

end Offside.Layout
