import Offside.Proofs.Layout.Closers

/-!
# Layout of shifted tokens

Layout compares rows with rows and columns with columns, so a shift of rows and columns changes
nothing but locations.

* `Layout.Rules.move`, `Layout.Interior.move`, `Layout.Placed.move`: what layout works with, moved.
* `Layout.splitRegion_move`, `Layout.Rules.enter_move`: regions and blocks move along.
* `Layout.separate_move`, `Layout.punctuate_move`: so do separators.
* `Layout.arrange_move`, `Layout.layout_move`: shifted tokens have the same layout, shifted, or fail
  alike.
-/

namespace Offside

namespace Layout

open Token

variable (s : Shift)

/-! ## Blocks -/

/-- What indentation means at a place that is shifted. -/
def Rules.move (r : Rules) : Rules := ⟨r.column + s.columns, r.limit?.map (· + s.columns)⟩

/-- The interior of a block that is shifted. -/
def Interior.move (interior : Interior) : Interior where
  rules := interior.rules.move s
  tokens := interior.tokens.map (Token.move s.relocation)
  rest := interior.rest.map (Token.move s.relocation)
  loc := interior.loc.move s.relocation
  holdsStatements := interior.holdsStatements

/-- A laid-out token that is shifted. -/
def Placed.move (p : Placed) : Placed := ⟨s.relocation.move p.start, p.token.move s.relocation⟩

/-- A shifted token dedents where the token does. -/
theorem dedents_move (column row : Nat) (t : Token) :
    dedents (column + s.columns) (s.row row) (t.move s.relocation) = dedents column row t := by
  simp only [dedents, move_loc, Location.move_start, Shift.relocation_move, s.row_lt_iff,
    Nat.add_le_add_iff_right]

/-- Shifted tokens are split where the tokens are. -/
theorem splitRegion_move (column row : Nat) (ts : List Token) :
    splitRegion (column + s.columns) (s.row row) (ts.map (Token.move s.relocation))
      = ((splitRegion column row ts).1.map (Token.move s.relocation),
        (splitRegion column row ts).2.map (Token.move s.relocation)) := by
  induction ts generalizing row with
  | nil => rfl
  | cons t ts ih =>
    rw [List.map_cons, splitRegion, splitRegion, dedents_move]
    split
    · rfl
    · have hrow : (t.move s.relocation).loc.stop.row = s.row t.loc.stop.row := by rw [move_loc]; rfl
      rw [hrow, ih]
      rfl

theorem columnOf_move (column : Nat) (ts : List Token) :
    Rules.columnOf (column + s.columns) (ts.map (Token.move s.relocation))
      = Rules.columnOf column ts + s.columns := by
  cases ts with
  | nil => rfl
  | cons t ts =>
    simp only [List.map_cons, Rules.columnOf, move_loc]
    rfl

namespace Rules

variable {t : Token}

/-- The check of a brace moves along. -/
theorem checkBrace_move (r : Rules) (ht : t.Wide) :
    (r.move s).checkBrace (t.move s.relocation) = moveOutcome s.relocation id (r.checkBrace t) := by
  obtain ⟨close, hclose, hclose'⟩ := Location.move_lastChar? s.relocation (l := t.loc) trivial ht
  have hlimit : ((r.move s).limit?.any fun column =>
        decide ((close.move s.relocation).start.col ≤ column))
      = r.limit?.any fun column => decide (close.start.col ≤ column) := by
    simp only [Rules.move]
    cases r.limit? <;> simp
  unfold checkBrace
  rw [move_loc, hclose, hclose']
  dsimp only
  rw [hlimit]
  simp only [Rules.move, Location.move_start, Shift.relocation_move, s.row_le_iff,
    Nat.add_lt_add_iff_right]
  split
  · rfl
  · split
    · rfl
    · split <;> rfl

/-- The check of brackets moves along. -/
theorem checkBrackets_move (r : Rules) (ht : t.Wide) :
    (r.move s).checkBrackets (t.move s.relocation)
      = moveOutcome s.relocation id (r.checkBrackets t) := by
  obtain ⟨close, hclose, hclose'⟩ := Location.move_lastChar? s.relocation (l := t.loc) trivial ht
  unfold checkBrackets
  rw [move_loc, move_children]
  simp only [Location.move_start, Shift.relocation_move, Rules.move, splitRegion_move]
  cases (splitRegion r.column t.loc.start.row t.children).2 with
  | cons child after =>
    simp only [List.map_cons, move_loc]
    rfl
  | nil =>
    rw [hclose, hclose']
    simp only [List.map_nil, Location.move_start, Shift.relocation_move, s.row_lt_iff,
      Nat.add_le_add_iff_right]
    split <;> rfl

/-- A `do` that is shifted takes the shifted region. -/
theorem enterIndented_move (r : Rules) (t : Token) (rest : List Token) :
    (r.move s).enterIndented (t.move s.relocation) (rest.map (Token.move s.relocation))
      = (r.enterIndented t rest).move s := by
  have hsplit := splitRegion_move s r.column t.loc.stop.row rest
  have hlast (ts : List Token) :
      ((ts.map (Token.move s.relocation)).getLast?).elim (t.loc.move s.relocation)
          (fun last => (t.loc.move s.relocation).join last.loc)
        = (ts.getLast?.elim t.loc fun last => t.loc.join last.loc).move s.relocation := by
    rw [List.getLast?_map]
    cases ts.getLast? <;> simp
  unfold enterIndented Interior.move
  simp only [Rules.move, move_loc, move_children, Location.move_stop, Shift.relocation_move, hsplit,
    ← List.map_append, columnOf_move, hlast, Option.map_some, Nat.add_max_add_right]

/-- A shifted block is entered alike. -/
theorem enter_move (r : Rules) (ht : t.Wide) (rest : List Token) :
    (r.move s).enter (t.move s.relocation) (rest.map (Token.move s.relocation))
      = moveOutcome s.relocation (Interior.move s) (r.enter t rest) := by
  unfold enter
  rw [move_blockKind?]
  split
  · rw [checkBrace_move s r ht]
    refine moveOutcome_map _ fun _ => ?_
    simp only [Interior.move, Rules.move, columnOf_move, move_children, move_loc, Option.map_none]
  · rw [enterIndented_move]
    rfl
  · rw [checkBrackets_move s r ht]
    refine moveOutcome_map _ fun _ => ?_
    simp only [Interior.move, move_children, move_loc]

end Rules

/-! ## Separators -/

/-- Shifted statements are separated alike. The row before them only matters inside a statement. -/
theorem separate_move (column : Nat) {row row' : Nat} {inStatement : Bool}
    (hrow : inStatement = true → row' = s.row row) (run : List Placed) :
    separate (column + s.columns) row' inStatement (run.map (Placed.move s))
      = (separate column row inStatement run).map (Token.move s.relocation) := by
  induction run generalizing row row' inStatement with
  | nil =>
    rw [List.map_nil, separate, separate]
    rfl
  | cons p run ih =>
    have hbegins : (inStatement && decide (row' < (p.move s).start.row)
          && (p.move s).start.col == column + s.columns)
        = (inStatement && decide (row < p.start.row) && p.start.col == column) := by
      cases inStatement with
      | false => rfl
      | true =>
        rw [Bool.eq_iff_iff]
        simp [Placed.move, hrow rfl, s.row_lt_iff]
    have hnext (inStatement' : Bool) :
        separate (column + s.columns) (p.move s).token.loc.stop.row inStatement'
            (run.map (Placed.move s))
          = (separate column p.token.loc.stop.row inStatement' run).map
            (Token.move s.relocation) := by
      refine ih fun _ => ?_
      rw [Placed.move, move_loc]
      rfl
    have hkind : (p.move s).token.kind = p.token.kind := move_kind _ _
    have hmark (begins : Bool) :
        (if begins then [Token.semicolon (Location.point (p.move s).start)] else [])
          = (if begins then [Token.semicolon (Location.point p.start)] else []).map
            (Token.move s.relocation) := by
      cases begins
      · rfl
      · simp [Placed.move]
    rw [List.map_cons, separate, separate]
    simp only [hbegins, hnext, hkind, hmark]
    split
    · split <;> simp [Placed.move]
    · simp [Placed.move]

theorem dropFinalSemicolon_move (m : Relocation) (ts : List Token) :
    dropFinalSemicolon (ts.map (Token.move m)) = (dropFinalSemicolon ts).map (Token.move m) := by
  unfold dropFinalSemicolon
  rw [List.getLast?_map, Option.any_map]
  simp only [move_kind]
  split
  · rw [List.map_dropLast]
  · rfl

/-- Shifted statements are punctuated alike. -/
theorem punctuate_move (column : Nat) (run : List Placed) :
    punctuate (column + s.columns) (run.map (Placed.move s))
      = (punctuate column run).map (Token.move s.relocation) := by
  have hrow : false = true → 0 = s.row 0 := nofun
  rw [punctuate, separate_move s column hrow, dropFinalSemicolon_move, punctuate]

/-! ## Arrangements -/

/-- A block is put together alike. -/
theorem Interior.close_move (interior : Interior) (t : Token) (run : List Placed) :
    (interior.move s).close (t.move s.relocation) (run.map (Placed.move s))
      = (interior.close t run).move s.relocation := by
  have htokens : (run.map (Placed.move s)).map Placed.token
      = (run.map Placed.token).map (Token.move s.relocation) := by
    rw [List.map_map, List.map_map]
    rfl
  simp only [Interior.close, move_eq, Interior.move, Rules.move, punctuate_move, htokens]
  split <;> rfl

/-- Shifted tokens are arranged alike, or break the same rule. -/
theorem arrange_move (r : Rules) {ts : List Token} (hts : ∀ t ∈ ts, t.Every Token.Wide) :
    arrange (r.move s) (ts.map (Token.move s.relocation))
      = moveOutcome s.relocation (List.map (Placed.move s)) (arrange r ts) := by
  induction hn : totalWeight ts using Nat.strongRecOn generalizing r ts with
  | ind n ih =>
    subst hn
    cases ts with
    | nil =>
      rw [List.map_nil, arrange_nil, arrange_nil]
      rfl
    | cons t rest =>
      obtain ⟨ht, hrest⟩ := List.forall_mem_cons.1 hts
      have hweight : totalWeight (t :: rest) = 1 + totalWeight t.children + totalWeight rest := by
        rw [totalWeight_cons, weight_eq]
      have hplaced : (⟨(t.move s.relocation).loc.start, t.move s.relocation⟩ : Placed)
          = Placed.move s ⟨t.loc.start, t⟩ := by
        rw [Placed.move, move_loc]
        rfl
      by_cases hkind : t.kind = .block
      · have hkind' : (t.move s.relocation).kind = .block := (move_kind _ t).trans hkind
        rw [List.map_cons, arrange_cons hkind', arrange_cons hkind,
          Rules.enter_move s r ht.here rest]
        refine moveOutcome_bind _ fun interior henter => ?_
        have hw := Rules.enter_weight henter
        obtain ⟨htokens, hafter⟩ := Rules.enter_every henter ht hrest
        have hinner : arrange (interior.move s).rules (interior.move s).tokens = _ :=
          ih (totalWeight interior.tokens) (by omega) interior.rules htokens rfl
        have hothers : arrange (r.move s) (interior.move s).rest = _ :=
          ih (totalWeight interior.rest) (by omega) r hafter rfl
        rw [hinner]
        refine moveOutcome_bind _ fun run _ => ?_
        rw [hothers]
        refine moveOutcome_map _ fun others => ?_
        rw [List.map_cons, Interior.close_move, move_loc]
        rfl
      · have hkind' : (t.move s.relocation).kind ≠ .block := fun h =>
          hkind ((move_kind _ t).symm.trans h)
        rw [List.map_cons, arrange_leaf hkind', arrange_leaf hkind,
          ih (totalWeight rest) (by omega) r hrest rfl]
        refine moveOutcome_map _ fun others => ?_
        rw [List.map_cons, hplaced]

/-- Shifted tokens have the same layout, shifted, or fail alike. -/
theorem layout_move {ts : List Token} (hts : ∀ t ∈ ts, t.Every Token.Wide) :
    layout (ts.map (Token.move s.relocation))
      = moveOutcome s.relocation (List.map (Token.move s.relocation)) (layout ts) := by
  cases ts with
  | nil =>
    have hnil : layout [] = .ok [] := by
      simp only [layout, arrange_nil]
      rfl
    rw [List.map_nil, hnil]
    rfl
  | cons t rest =>
    have hcolumn : Rules.columnOf 1 ((t :: rest).map (Token.move s.relocation))
        = Rules.columnOf 1 (t :: rest) + s.columns := by
      simp only [List.map_cons, Rules.columnOf, move_loc]
      rfl
    have harrange : arrange ⟨Rules.columnOf 1 (t :: rest) + s.columns, none⟩
        ((t :: rest).map (Token.move s.relocation)) = _ :=
      arrange_move s ⟨Rules.columnOf 1 (t :: rest), none⟩ hts
    simp only [layout, hcolumn, harrange]
    exact moveOutcome_map _ fun run => punctuate_move s _ run

end Layout

end Offside
