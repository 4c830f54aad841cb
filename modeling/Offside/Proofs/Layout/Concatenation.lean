import Offside.Proofs.Layout.Closers

/-!
# Layout of tokens one after another

Tokens that begin a line at or to the left of the statements before them leave the layout of these
as it is.

* `Layout.EndsBefore`: such tokens. `Layout.arrange_append`: both parts are laid out on their own.
* `Layout.Spaced`, `Layout.separate_spaced`: no semicolon stands at the beginning or after another.
  `Layout.punctuate_getLast?`: none stands at the end.
* `Layout.separate_append`, `Layout.punctuate_append`, `Layout.layout_append`: the statements of the
  second part follow those of the first and a semicolon.
-/

namespace Offside.Layout

open Token

/-! ## Arrangements -/

/-- What follows some tokens begins a line after them, at or to the left of a column. -/
def EndsBefore (column : Nat) (ts us : List Token) : Prop :=
  ∀ u, us.head? = some u → u.loc.start.col ≤ column ∧ ∀ t ∈ ts, t.loc.stop.row < u.loc.start.row

theorem EndsBefore.of_subset {column : Nat} {ts ts' us : List Token} (h : EndsBefore column ts us)
    (hsub : ∀ t ∈ ts', t ∈ ts) : EndsBefore column ts' us :=
  fun u hu => ⟨(h u hu).1, fun t ht => (h u hu).2 t (hsub t ht)⟩

/-- A region ends where the tokens end. -/
theorem splitRegion_endsBefore {column row : Nat} {ts us : List Token}
    (hrow : ∀ u, us.head? = some u → row < u.loc.start.row) (h : EndsBefore column ts us) :
    splitRegion column row (ts ++ us)
      = ((splitRegion column row ts).1, (splitRegion column row ts).2 ++ us) := by
  induction ts generalizing row with
  | nil =>
    cases us with
    | nil => rfl
    | cons u us =>
      have hdedents : dedents column row u = true := by
        simp only [dedents, hrow u rfl, (h u rfl).1, decide_true, Bool.and_self]
      show splitRegion column row (u :: us) = ([], u :: us)
      rw [splitRegion, if_pos hdedents]
  | cons t ts ih =>
    rw [List.cons_append, splitRegion, splitRegion]
    split
    · rfl
    · rw [ih (fun u hu => (h u hu).2 t List.mem_cons_self)
        (h.of_subset fun _ => List.mem_cons_of_mem t)]

/-- A block that is entered does not take what follows the tokens. -/
theorem Rules.enter_append {r : Rules} {t : Token} {rest us : List Token} {interior : Interior}
    (h : EndsBefore r.column (t :: rest) us) (henter : r.enter t rest = .ok interior) :
    r.enter t (rest ++ us) = .ok { interior with rest := interior.rest ++ us } := by
  unfold enter at henter ⊢
  split at henter
  · obtain ⟨⟨⟩, hcheck, rfl⟩ := map_ok_iff.1 henter
    rw [hcheck]
    rfl
  · have hsplit : splitRegion r.column t.loc.stop.row (rest ++ us) = _ :=
      splitRegion_endsBefore (fun u hu => (h u hu).2 t List.mem_cons_self)
        (h.of_subset fun _ => List.mem_cons_of_mem t)
    cases henter
    simp only [enterIndented, hsplit]
  · obtain ⟨⟨⟩, hcheck, rfl⟩ := map_ok_iff.1 henter
    rw [hcheck]
    rfl

/-- The tokens that a block leaves over are some of the tokens after it. -/
theorem Rules.mem_of_mem_rest {r : Rules} {t : Token} {rest : List Token} {interior : Interior}
    (h : r.enter t rest = .ok interior) {u : Token} (hu : u ∈ interior.rest) : u ∈ rest := by
  rcases enter_cases h with ⟨-, -, rfl⟩ | ⟨-, rfl⟩ | ⟨-, -, rfl⟩
  · exact hu
  · exact mem_of_mem_splitRegion (Or.inr hu)
  · exact hu

/-- Tokens that begin a line at or to the left of the statements before them are laid out on their
own. -/
theorem arrange_append {r : Rules} {ts us : List Token} {run : List Placed}
    (h : EndsBefore r.column ts us) (hrun : arrange r ts = .ok run) :
    arrange r (ts ++ us) = (arrange r us).map (run ++ ·) := by
  have hcons (r : Rules) (p : Placed) (others : List Placed) :
      ((arrange r us).map (others ++ ·)).map (p :: ·) = (arrange r us).map (p :: others ++ ·) := by
    cases arrange r us <;> rfl
  induction hrun using arrange_induction with
  | nil =>
    rw [List.nil_append]
    cases arrange _ us <;> rfl
  | leaf _ hkind _ ih =>
    rw [List.cons_append, arrange_leaf hkind,
      ih (h.of_subset fun _ => List.mem_cons_of_mem _), hcons]
  | block _ hkind henter hinner _ _ ihothers =>
    have hrest := h.of_subset fun u hu =>
      List.mem_cons_of_mem _ (Rules.mem_of_mem_rest henter hu)
    rw [List.cons_append, arrange_block hkind (Rules.enter_append h henter) hinner]
    dsimp only
    rw [ihothers hrest, hcons]
    rfl

/-! ## Separators -/

/-- Tokens without a semicolon after another, nor at the beginning unless a statement is under
way. -/
def Spaced : (inStatement : Bool) → List Token → Prop
  | _, [] => True
  | inStatement, t :: ts =>
    if t.kind = .semicolon then inStatement = true ∧ Spaced false ts else Spaced true ts

theorem Spaced.semicolon {t : Token} (ht : t.kind = .semicolon) {ts : List Token}
    (h : Spaced false ts) : Spaced true (t :: ts) := by
  rw [Spaced, if_pos ht]
  exact ⟨rfl, h⟩

theorem Spaced.token {t : Token} (ht : t.kind ≠ .semicolon) {ts : List Token}
    (h : Spaced true ts) (inStatement : Bool) : Spaced inStatement (t :: ts) := by
  rw [Spaced, if_neg ht]
  exact h

/-- The end of a spaced sequence is spaced. -/
theorem Spaced.of_append {inStatement : Bool} {ts us : List Token}
    (h : Spaced inStatement (ts ++ us)) : ∃ inStatement', Spaced inStatement' us := by
  induction ts generalizing inStatement with
  | nil => exact ⟨inStatement, h⟩
  | cons t ts ih =>
    rw [List.cons_append, Spaced] at h
    split at h
    · exact ih h.2
    · exact ih h

/-- Separated statements are spaced. -/
theorem separate_spaced (column row : Nat) (inStatement : Bool) (run : List Placed) :
    Spaced inStatement (separate column row inStatement run) := by
  induction run generalizing row inStatement with
  | nil =>
    rw [separate]
    trivial
  | cons p run ih =>
    rw [separate]
    generalize hbegins : (inStatement && decide (row < p.start.row) && p.start.col == column) = begins
    by_cases hp : p.token.kind = .semicolon
    · rw [if_pos hp]
      cases begins with
      | true =>
        simp only [Bool.and_eq_true] at hbegins
        rw [hbegins.1.1]
        exact .semicolon rfl (ih _ false)
      | false =>
        cases inStatement with
        | true => exact .semicolon hp (ih _ false)
        | false => exact ih _ false
    · rw [if_neg hp]
      cases begins with
      | true =>
        simp only [Bool.and_eq_true] at hbegins
        rw [hbegins.1.1]
        exact .semicolon rfl ((ih _ true).token hp false)
      | false => exact (ih _ true).token hp inStatement

/-- A spaced sequence without its final semicolon does not end with one. -/
theorem Spaced.dropFinalSemicolon {inStatement : Bool} {ts : List Token} (h : Spaced inStatement ts)
    {t : Token} (ht : (dropFinalSemicolon ts).getLast? = some t) : t.kind ≠ .semicolon := by
  intro hkind
  unfold Layout.dropFinalSemicolon at ht
  cases hlast : ts.getLast? with
  | none =>
    rw [List.getLast?_eq_none_iff.1 hlast] at ht
    cases ht
  | some s =>
    rw [hlast, Option.any_some] at ht
    by_cases hs : s.kind = .semicolon
    · rw [if_pos (by simpa using hs)] at ht
      obtain ⟨us, hus⟩ := List.getLast?_eq_some_iff.1 ht
      obtain ⟨vs, rfl⟩ := List.getLast?_eq_some_iff.1 hlast
      rw [List.dropLast_concat] at hus
      rw [hus, List.append_assoc] at h
      obtain ⟨inStatement', h⟩ := h.of_append
      rw [List.singleton_append, Spaced, if_pos hkind, Spaced, if_pos hs] at h
      cases h.2.1
    · rw [if_neg (by simpa using hs), hlast] at ht
      cases ht
      exact hs hkind

/-- No semicolon stands at the end of punctuated statements. -/
theorem punctuate_getLast? {column : Nat} {run : List Placed} {t : Token}
    (h : (punctuate column run).getLast? = some t) : t.kind ≠ .semicolon :=
  (separate_spaced column 0 false run).dropFinalSemicolon h

/-- The row on which laid-out tokens end, if `row` is the row before them. -/
def lastRow (row : Nat) (run : List Placed) : Nat :=
  run.getLast?.elim row fun p => p.token.loc.stop.row

/-- Whether a statement is under way after some tokens, if `inStatement` says so before them. -/
def underWay (inStatement : Bool) (ts : List Token) : Bool :=
  ts.getLast?.elim inStatement fun t => !decide (t.kind = .semicolon)

theorem lastRow_cons (row : Nat) (p : Placed) (run : List Placed) :
    lastRow row (p :: run) = lastRow p.token.loc.stop.row run := by
  unfold lastRow
  rw [List.getLast?_cons]
  cases run.getLast? <;> rfl

theorem underWay_cons (inStatement : Bool) (t : Token) (ts : List Token) :
    underWay inStatement (t :: ts) = underWay (!decide (t.kind = .semicolon)) ts := by
  unfold underWay
  rw [List.getLast?_cons]
  cases ts.getLast? <;> rfl

/-- Statements after others are separated on their own, given how the others end. -/
theorem separate_append (column row : Nat) (inStatement : Bool) (run rest : List Placed) :
    separate column row inStatement (run ++ rest)
      = separate column row inStatement run ++ separate column (lastRow row run)
        (underWay inStatement (separate column row inStatement run)) rest := by
  induction run generalizing row inStatement with
  | nil =>
    rw [separate]
    rfl
  | cons p run ih =>
    rw [List.cons_append, separate, separate, lastRow_cons]
    generalize hbegins : (inStatement && decide (row < p.start.row) && p.start.col == column) = begins
    have hsemicolon : (!decide ((Token.semicolon (Location.point p.start)).kind = .semicolon))
        = false := rfl
    by_cases hp : p.token.kind = .semicolon
    · have hkind : (!decide (p.token.kind = .semicolon)) = false := by simp [hp]
      rw [if_pos hp, if_pos hp, ih]
      cases begins with
      | true =>
        simp only [Bool.not_true, Bool.and_false, Bool.false_eq_true, if_false, if_true,
          List.nil_append, List.cons_append, underWay_cons, hsemicolon]
      | false =>
        cases inStatement with
        | true =>
          simp only [Bool.not_false, Bool.and_self, if_true, Bool.false_eq_true, if_false,
            List.nil_append, List.cons_append, underWay_cons, hkind]
        | false => rfl
    · have hkind : (!decide (p.token.kind = .semicolon)) = true := by simp [hp]
      rw [if_neg hp, if_neg hp, ih]
      cases begins <;>
        simp only [Bool.false_eq_true, if_false, if_true, List.nil_append, List.cons_append,
          underWay_cons, hkind]

/-- A final semicolon is one of the second part, unless that is empty. -/
theorem dropFinalSemicolon_append {t : Token} (ht : t.kind = .semicolon) (ts us : List Token) :
    dropFinalSemicolon (ts ++ t :: us)
      = if us = [] then ts else ts ++ t :: dropFinalSemicolon us := by
  unfold dropFinalSemicolon
  cases us with
  | nil => simp [ht]
  | cons u us =>
    have hlast : (ts ++ t :: u :: us).getLast? = (u :: us).getLast? := by
      simp [List.getLast?_cons]
    rw [hlast, if_neg (List.cons_ne_nil u us)]
    split
    · rw [List.dropLast_append_of_ne_nil (List.cons_ne_nil _ _),
        List.dropLast_cons_of_ne_nil (List.cons_ne_nil _ _)]
    · rfl

/-- Punctuation drops no statement. -/
theorem punctuate_eq_nil_iff {column : Nat} {run : List Placed} :
    punctuate column run = [] ↔ separate column 0 false run = [] := by
  have hspaced := separate_spaced column 0 false run
  unfold punctuate
  generalize separate column 0 false run = ts at hspaced
  cases ts with
  | nil => exact ⟨fun _ => rfl, fun _ => rfl⟩
  | cons t ts =>
    refine iff_of_false (fun h => ?_) (List.cons_ne_nil t ts)
    unfold dropFinalSemicolon at h
    split at h
    · rename_i hlast
      cases ts with
      | cons u us => cases h
      | nil =>
        have ht : t.kind = .semicolon := by simpa using hlast
        rw [Spaced, if_pos ht] at hspaced
        cases hspaced.1
    · cases h

/-- The statements of two runs, the second of which begins a line in the column of the statements
after the first. -/
theorem punctuate_append {column : Nat} {run rest : List Placed}
    (hcol : ∀ p, rest.head? = some p → p.start.col = column)
    (hrow : ∀ p, rest.head? = some p → ∀ q ∈ run, q.token.loc.stop.row < p.start.row)
    (hne : punctuate column run ≠ []) :
    ∃ s : Token, s.kind = .semicolon ∧ punctuate column (run ++ rest)
      = if punctuate column rest = [] then punctuate column run
        else punctuate column run ++ s :: punctuate column rest := by
  have hrun : run ≠ [] := by
    rintro rfl
    exact hne rfl
  obtain ⟨q, hq⟩ : ∃ q, run.getLast? = some q := by
    cases hq : run.getLast? with
    | none => exact absurd (List.getLast?_eq_none_iff.1 hq) hrun
    | some q => exact ⟨q, rfl⟩
  have hlastRow : lastRow 0 run = q.token.loc.stop.row := by
    rw [lastRow, hq]
    rfl
  simp only [punctuate_eq_nil_iff]
  unfold punctuate at hne ⊢
  rw [separate_append, hlastRow]
  cases hlast : (separate column 0 false run).getLast? with
  | none =>
    rw [List.getLast?_eq_none_iff.1 hlast] at hne
    exact absurd rfl hne
  | some t =>
    have hunderWay : underWay false (separate column 0 false run)
        = !decide (t.kind = .semicolon) := by
      rw [underWay, hlast]
      rfl
    rw [hunderWay]
    by_cases ht : t.kind = .semicolon
    · -- the first statements end with a semicolon of their own
      obtain ⟨ts, hts⟩ := List.getLast?_eq_some_iff.1 hlast
      have hdrop : dropFinalSemicolon (ts ++ [t]) = ts := by
        rw [dropFinalSemicolon_append ht]
        rfl
      refine ⟨t, ht, ?_⟩
      rw [decide_eq_true ht, Bool.not_true, separate_row column _ 0 rest, hts, hdrop, List.append_assoc,
        List.singleton_append, dropFinalSemicolon_append ht]
    · have hdrop : dropFinalSemicolon (separate column 0 false run) = separate column 0 false run := by
        rw [dropFinalSemicolon, hlast, if_neg (by simpa using ht)]
      rw [hdrop, decide_eq_false ht, Bool.not_false]
      cases rest with
      | nil =>
        refine ⟨Token.semicolon (Location.point Cursor.origin), rfl, ?_⟩
        rw [separate, List.append_nil, separate, if_pos rfl, hdrop]
      | cons p rest =>
        refine ⟨Token.semicolon (Location.point p.start), rfl, ?_⟩
        rw [separate_begins (hrow p rfl q (List.mem_of_getLast? hq)) (hcol p rfl),
          separate_row column _ 0 (p :: rest), dropFinalSemicolon_append rfl]

/-- Tokens that begin a line in the column of the tokens before them have a layout of their own,
after a semicolon. -/
theorem layout_append {a b : Cursor} {ts us laid laid' : List Token} (hts : InOrder a b ts)
    (hlaid : layout ts = .ok laid) (hlaid' : layout us = .ok laid') (hne : laid ≠ [])
    (hcol : ∀ t u, ts.head? = some t → us.head? = some u → t.loc.start.col = u.loc.start.col)
    (hrow : ∀ u, us.head? = some u → b.row < u.loc.start.row) :
    ∃ s : Token, s.kind = .semicolon ∧
      layout (ts ++ us) = .ok (if laid' = [] then laid else laid ++ s :: laid') := by
  obtain ⟨run, hrun, rfl⟩ := layout_ok hlaid
  obtain ⟨run', hrun', rfl⟩ := layout_ok hlaid'
  have hfirst : ts ≠ [] := by
    rintro rfl
    cases hrun.symm.trans (arrange_nil _)
    exact hne rfl
  have hstop {l : Location} (h : l.stop ≤ b) : l.stop.row ≤ b.row := by
    rw [Cursor.le_def] at h
    omega
  obtain ⟨column, hcolumn, hcolumn', hboth, hend⟩ : ∃ column, Rules.columnOf 1 ts = column ∧
      (us ≠ [] → Rules.columnOf 1 us = column) ∧ Rules.columnOf 1 (ts ++ us) = column ∧
      ∀ u, us.head? = some u → u.loc.start.col = column := by
    cases ts with
    | nil => exact absurd rfl hfirst
    | cons t ts =>
      refine ⟨t.loc.start.col, rfl, fun hus => ?_, rfl, fun u hu => (hcol t u rfl hu).symm⟩
      cases us with
      | nil => exact absurd rfl hus
      | cons u us => exact (hcol t u rfl rfl).symm
  rw [hcolumn] at hrun hne
  have hplaced := arrange_inOrder hts hrun
  have hrest : arrange ⟨column, none⟩ us = .ok run' ∧
      punctuate (Rules.columnOf 1 us) run' = punctuate column run' := by
    by_cases hus : us = []
    · subst hus
      cases hrun'.symm.trans (arrange_nil _)
      exact ⟨arrange_nil _, rfl⟩
    · rw [hcolumn' hus] at hrun' ⊢
      exact ⟨hrun', rfl⟩
  have hhead {p : Placed} (hp : run'.head? = some p) : ∃ u, us.head? = some u ∧
      p.start = u.loc.start := by
    have hstart := arrange_head hrest.1
    rw [hp, Option.map_some] at hstart
    obtain ⟨u, hu, hstart⟩ := Option.map_eq_some_iff.1 hstart.symm
    exact ⟨u, hu, hstart.symm⟩
  have hafter : EndsBefore column ts us := fun u hu =>
    ⟨Nat.le_of_eq (hend u hu), fun t ht =>
      Nat.lt_of_le_of_lt (hstop (hts.every t ht).here.2) (hrow u hu)⟩
  have hplacedCol : ∀ p, run'.head? = some p → p.start.col = column := by
    intro p hp
    obtain ⟨u, hu, hstart⟩ := hhead hp
    rw [hstart]
    exact hend u hu
  have hplacedRow : ∀ p, run'.head? = some p → ∀ q ∈ run, q.token.loc.stop.row < p.start.row := by
    intro p hp q hq
    obtain ⟨u, hu, hstart⟩ := hhead hp
    rw [hstart]
    exact Nat.lt_of_le_of_lt (hstop (hplaced.1.every q.token (List.mem_map_of_mem hq)).here.2)
      (hrow u hu)
  obtain ⟨s, hs, hpunctuate⟩ := punctuate_append hplacedCol hplacedRow hne
  refine ⟨s, hs, ?_⟩
  simp only [layout, hboth]
  rw [arrange_append hafter hrun, hrest.1, hcolumn, hrest.2, ← hpunctuate]
  rfl

end Offside.Layout
