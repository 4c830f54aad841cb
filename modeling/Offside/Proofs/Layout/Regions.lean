import Mathlib.Data.List.Chain
import Offside.Proofs.Layout.Order

/-!
# Regions

A `do` takes all tokens up to the first that begins a line at or to the left of the column of the
run it is in.

* `Layout.RegionEnds`: the region of a token, if it is a `do`, ends where the next token begins.
* `Layout.splitRegion_rest`, `Layout.enterIndented_rest`: what follows a region begins such a line.
* `Layout.arrange_regionEnds`, `Layout.separate_regionEnds`, `Layout.punctuate_regionEnds`: in a
  laid-out run every region ends where the next token begins.
-/

namespace Offside.Layout

open Token

/-- If the token is a `do`, its region ends where the next token begins: on a later row and not to
the right of `column`. -/
def RegionEnds (column : Nat) (t : Token) (next : Cursor) : Prop :=
  t.blockKind? = some .indented → t.loc.stop.row < next.row ∧ next.col ≤ column

theorem dedents_iff {column row : Nat} {t : Token} :
    dedents column row t ↔ row < t.loc.start.row ∧ t.loc.start.col ≤ column := by
  rw [dedents, Bool.and_eq_true, decide_eq_true_iff, decide_eq_true_iff]

/-- What follows a region begins a line at or to the left of the column. -/
theorem splitRegion_rest {column row : Nat} {ts : List Token} {t : Token}
    (h : t ∈ (splitRegion column row ts).2.head?) :
    dedents column ((splitRegion column row ts).1.getLast?.elim row (·.loc.stop.row)) t := by
  induction ts generalizing row with
  | nil => cases h
  | cons u rest ih =>
    rw [splitRegion] at h ⊢
    split
    · rename_i hdedents
      rw [if_pos hdedents] at h
      cases h
      exact hdedents
    · rename_i hstays
      rw [if_neg hstays] at h
      have hlater := ih h
      show dedents column ((u :: (splitRegion column u.loc.stop.row rest).1).getLast?.elim row
        (·.loc.stop.row)) t
      rw [List.getLast?_cons]
      cases hlast : (splitRegion column u.loc.stop.row rest).1.getLast? <;>
        rwa [hlast] at hlater

/-- No token ends a region exactly if the first does not and the others do not end theirs. -/
theorem splitRegion_cons_eq_nil {column row : Nat} {t : Token} {ts : List Token} :
    (splitRegion column row (t :: ts)).2 = [] ↔
      ¬ dedents column row t ∧ (splitRegion column t.loc.stop.row ts).2 = [] := by
  rw [splitRegion]
  split
  · rename_i hdedents
    simp [hdedents]
  · rename_i hstays
    simp [hstays]

/-- Brackets may be entered exactly if no line in them, and no closer on a later row, begins at or
to the left of the column. -/
theorem Rules.checkBrackets_iff {r : Rules} {t : Token} :
    r.checkBrackets t = .ok () ↔ (splitRegion r.column t.loc.start.row t.children).2 = [] ∧
      ∃ close, t.loc.lastChar? = some close ∧
        (t.loc.start.row < close.start.row → r.column < close.start.col) := by
  unfold checkBrackets
  split
  · rename_i child after hsplit
    simp [hsplit, breach]
  · rename_i hsplit
    split
    · rename_i hlast
      simp [hlast]
    · rename_i close hlast
      split
      · rename_i hdedents
        simp only [breach, reduceCtorEq, hsplit, hlast, Option.some.injEq, exists_eq_left',
          true_and, false_iff]
        omega
      · rename_i hstays
        simp only [hsplit, hlast, Option.some.injEq, exists_eq_left', true_and, true_iff]
        omega

/-- What follows the region of a `do` begins a line at or to the left of the column, seen from where
the laid-out block ends. -/
theorem enterIndented_rest {r : Rules} {t u : Token} {rest : List Token} {b : Cursor}
    (ht : t.Proper) (hrest : InOrder t.loc.stop b rest)
    (hu : u ∈ (r.enterIndented t rest).rest.head?) :
    (r.enterIndented t rest).loc.stop.row < u.loc.start.row ∧ u.loc.start.col ≤ r.column := by
  have hdedents := dedents_iff.1 (splitRegion_rest (show
    u ∈ (splitRegion r.column t.loc.stop.row rest).2.head? from hu))
  suffices hstop : (r.enterIndented t rest).loc.stop.row
      = (splitRegion r.column t.loc.stop.row rest).1.getLast?.elim t.loc.stop.row
        (·.loc.stop.row) by
    rw [hstop]
    exact hdedents
  obtain ⟨m, hregion, -⟩ := splitRegion_inOrder r.column t.loc.stop.row hrest
  show ((t.children ++ (splitRegion r.column t.loc.stop.row rest).1).getLast?.elim t.loc
    fun last => t.loc.join last.loc).stop.row = _
  rw [List.getLast?_append]
  cases hlast : (splitRegion r.column t.loc.stop.row rest).1.getLast? with
  | some last =>
    obtain ⟨-, -, hstart⟩ := inOrder_getLast hregion hlast
    show (t.loc.join last.loc).stop.row = last.loc.stop.row
    rw [Location.join_stop (Cursor.le_trans hstart last.loc.start_le_stop)]
  | none =>
    -- what the `do` holds already ends inside it
    cases hchild : t.children.getLast? with
    | none => rfl
    | some last =>
      obtain ⟨-, hstop, -⟩ := inOrder_getLast ht.interior hchild
      show (t.loc.join last.loc).stop.row = t.loc.stop.row
      rw [Location.join_stop_left hstop]

/-- In a laid-out run every region ends where the next token begins. -/
theorem arrange_regionEnds {r : Rules} {ts : List Token} {a b : Cursor} {run : List Placed}
    (hts : InOrder a b ts) (h : arrange r ts = .ok run) :
    run.IsChain fun p q => RegionEnds r.column p.token q.start := by
  induction h using arrange_induction generalizing a b with
  | nil => exact .nil
  | leaf _ hkind _ ih =>
    obtain ⟨ha, ht, hrest⟩ := inOrder_cons.1 hts
    refine List.isChain_cons.2 ⟨fun q _ hindented => ?_, ih hrest⟩
    exact absurd (kind_of_blockKind? hindented) hkind
  | block _ _ henter _ hothers _ ihothers =>
    obtain ⟨ha, ht, hrest⟩ := inOrder_cons.1 hts
    obtain ⟨-, -, -, hafter⟩ := Rules.enter_inOrder henter ht hrest
    refine List.isChain_cons.2 ⟨fun q hq hindented => ?_, ihothers hafter⟩
    have hnext := arrange_head hothers
    rw [hq] at hnext
    obtain ⟨u, hu, hstart⟩ := Option.map_eq_some_iff.1 hnext.symm
    rcases Rules.enter_cases henter with ⟨hbrace, -⟩ | ⟨-, rfl⟩ | ⟨hother, -⟩
    · cases hbrace.symm.trans hindented
    · rw [← hstart]
      exact enterIndented_rest ht hrest hu
    · exact absurd hindented hother

/-- A semicolon has no region. -/
theorem regionEnds_semicolon (column : Nat) {t : Token} (ht : t.kind = .semicolon) (next : Cursor) :
    RegionEnds column t next := by
  intro hindented
  cases ht.symm.trans (kind_of_blockKind? hindented)

/-- Separating statements keeps regions apart from what follows them. Before the run there is a
token, and it is a semicolon unless a statement is under way. -/
theorem separate_regionEnds {column row : Nat} {inStatement : Bool} {t : Token}
    {run : List Placed} (ht : inStatement = false → t.kind = .semicolon)
    (hstart : ∀ p ∈ run, p.start = p.token.loc.start)
    (hhead : ∀ p ∈ run.head?, RegionEnds column t p.start)
    (h : run.IsChain fun p q => RegionEnds column p.token q.start) :
    (t :: separate column row inStatement run).IsChain fun t u =>
      RegionEnds column t u.loc.start := by
  induction run generalizing row inStatement t with
  | nil =>
    rw [separate]
    exact .singleton t
  | cons p run ih =>
    obtain ⟨hp, hrun⟩ := List.forall_mem_cons.1 hstart
    obtain ⟨hnext, hlater⟩ := List.isChain_cons.1 h
    have hfirst : RegionEnds column t p.start := hhead p rfl
    have hsame (t : Token) (row : Nat) (inStatement : Bool)
        (ht : inStatement = false → t.kind = .semicolon) (hfirst : RegionEnds column t p.start)
        (hbegins : ¬ (inStatement = true ∧ row < p.start.row ∧ p.start.col = column)) :
        (t :: separate column row inStatement (p :: run)).IsChain fun t u =>
          RegionEnds column t u.loc.start := by
      by_cases hends : p.token.kind = .semicolon → inStatement = true
      · rw [separate_continues hbegins hends]
        refine List.isChain_cons_cons.2 ⟨hp ▸ hfirst, ih (fun hkind => ?_) hrun hnext hlater⟩
        simpa using hkind
      · rw [Classical.not_imp, Bool.not_eq_true] at hends
        obtain ⟨hkind, rfl⟩ := hends
        rw [separate_drops hkind]
        exact ih ht hrun (fun q _ => regionEnds_semicolon column (ht rfl) q.start) hlater
    by_cases hbegins : inStatement = true ∧ row < p.start.row ∧ p.start.col = column
    · obtain ⟨rfl, hrow, hcol⟩ := hbegins
      rw [separate_begins hrow hcol]
      refine List.isChain_cons_cons.2 ⟨hfirst, hsame _ row false (fun _ => rfl) ?_ fun h => ?_⟩
      · exact regionEnds_semicolon column rfl p.start
      · exact Bool.false_ne_true h.1
    · exact hsame t row inStatement ht hfirst hbegins

/-- Punctuating a run keeps regions apart from what follows them. -/
theorem punctuate_regionEnds {column : Nat} {run : List Placed}
    (hstart : ∀ p ∈ run, p.start = p.token.loc.start)
    (h : run.IsChain fun p q => RegionEnds column p.token q.start) :
    (punctuate column run).IsChain fun t u => RegionEnds column t u.loc.start := by
  have hseparate : (separate column 0 false run).IsChain fun t u =>
      RegionEnds column t u.loc.start := by
    refine (separate_regionEnds (t := Token.semicolon (Location.point Cursor.origin)) (fun _ => rfl)
      hstart (fun p _ => ?_) h).tail
    exact regionEnds_semicolon column rfl p.start
  unfold punctuate dropFinalSemicolon
  split
  · exact hseparate.dropLast
  · exact hseparate

end Offside.Layout
