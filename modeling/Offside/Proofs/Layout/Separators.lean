import Mathlib
import Offside.Proofs.Layout.StatementRuns

/-!
# Where semicolons stand

Punctuating a run brings it into a normal form: semicolons stand between statements only, there is
one wherever a line begins in the column of the run, and layout has inserted none elsewhere.

* `Layout.Piece`: a token of a punctuated run, with whether layout has inserted it.
* `Layout.Piece.Follows`: what a token may be, given what is before it. `Layout.NormalForm`: a run
  in which every token is what it may be.
* `Layout.punctuate_normalForm`: punctuated runs are in normal form.
* `Layout.arrange_places`: laid-out tokens are tokens of the input and begin where those began.
* `Layout.layout_normalForm`: every run of statements of the result is in normal form.
-/

namespace Offside.Layout

open Token

/-! ## The normal form of a run -/

/-- A token of a punctuated run. -/
inductive Piece where
  /-- A semicolon that layout has inserted, where a statement begins. -/
  | inserted (start : Cursor)
  /-- A token of the run. -/
  | kept (p : Placed)

namespace Piece

/-- The token itself. -/
def token : Piece → Token
  | inserted start => Token.semicolon (Location.point start)
  | kept p => p.token

/-- Where the token begins in the source. -/
def start : Piece → Cursor
  | inserted start => start
  | kept p => p.start

/-- Whether layout has inserted the token. -/
def isInserted : Piece → Bool
  | inserted _ => true
  | kept _ => false

/-- The token of the run, if it is one. -/
def placed? : Piece → Option Placed
  | inserted _ => none
  | kept p => some p

/-- The token may come after one that ends on `row`, where `inStatement` says whether there is such
a token and it is no semicolon. -/
structure Follows (column row : Nat) (inStatement : Bool) (p : Piece) : Prop where
  /-- A semicolon ends a statement. -/
  semicolon : p.token.kind = .semicolon → inStatement
  /-- A semicolon is inserted before the beginning of a line in the column of the run. -/
  inserted : p.isInserted → row < p.start.row ∧ p.start.col = column
  /-- No other token of a statement begins a line there. -/
  kept : ¬ p.isInserted → inStatement → ¬ (row < p.start.row ∧ p.start.col = column)

/-- The second token may come right after the first. -/
def FollowedBy (column : Nat) (p q : Piece) : Prop :=
  q.Follows column p.token.loc.stop.row (p.token.kind != .semicolon)

/-- What is no semicolon may begin a run, and so may come where there is no statement to end. -/
theorem follows_nothing {p : Piece} (h : p.token.kind ≠ .semicolon) (column row : Nat) :
    p.Follows column row false := by
  refine ⟨fun hkind => absurd hkind h, fun hinserted => ?_,
    fun _ hin => absurd hin Bool.false_ne_true⟩
  cases p with
  | inserted start => exact absurd rfl h
  | kept p => cases hinserted

/-- If there is no statement to end, it does not matter where the token before ends. -/
theorem Follows.change_row {column row : Nat} {p : Piece} (h : p.Follows column row false)
    (row' : Nat) : p.Follows column row' false :=
  follows_nothing (fun hkind => Bool.false_ne_true (h.semicolon hkind)) column row'

end Piece

/-- A run is in normal form: it neither begins nor ends with a semicolon, and each of its tokens may
come after the one before it. -/
structure NormalForm (column : Nat) (pieces : List Piece) : Prop where
  head : ∀ p ∈ pieces.head?, p.token.kind ≠ .semicolon
  last : ∀ p ∈ pieces.getLast?, p.token.kind ≠ .semicolon
  chain : pieces.IsChain (Piece.FollowedBy column)

/-! ## Punctuated runs -/

/-- The tokens are pieces that may follow one another, the first of them what is before the run. The
pieces that are kept are from the run. -/
def Separated (column row : Nat) (inStatement : Bool) (run : List Placed) (out : List Token) :
    Prop :=
  ∃ pieces : List Piece, out = pieces.map Piece.token ∧
    (pieces.filterMap Piece.placed?).Sublist run ∧
    (∀ p ∈ pieces.head?, p.Follows column row inStatement) ∧
    pieces.IsChain (Piece.FollowedBy column)

section Separated

variable {column row : Nat} {inStatement : Bool} {p : Placed} {run : List Placed}
  {out : List Token}

/-- A token that may come first is kept. -/
theorem Separated.keep
    (h : Separated column p.token.loc.stop.row (p.token.kind != .semicolon) run out)
    (hp : (Piece.kept p).Follows column row inStatement) :
    Separated column row inStatement (p :: run) (p.token :: out) := by
  obtain ⟨pieces, rfl, hrun, hhead, hchain⟩ := h
  refine ⟨.kept p :: pieces, rfl, hrun.cons_cons p, ?_, List.isChain_cons.2 ⟨hhead, hchain⟩⟩
  rintro q ⟨⟩
  exact hp

/-- A semicolon that ends no statement is dropped. -/
theorem Separated.drop {row' : Nat} (h : Separated column row' false run out) :
    Separated column row false (p :: run) out := by
  obtain ⟨pieces, rfl, hrun, hhead, hchain⟩ := h
  exact ⟨pieces, rfl, hrun.cons p, fun q hq => (hhead q hq).change_row row, hchain⟩

/-- A semicolon is inserted at the beginning of a line. -/
theorem Separated.insert {row' : Nat} {start : Cursor} (h : Separated column row' false run out)
    (hrow : row < start.row) (hcol : start.col = column) :
    Separated column row true run (Token.semicolon (Location.point start) :: out) := by
  obtain ⟨pieces, rfl, hrun, hhead, hchain⟩ := h
  refine ⟨.inserted start :: pieces, rfl, hrun, ?_, List.isChain_cons.2 ⟨?_, hchain⟩⟩
  · rintro q ⟨⟩
    exact ⟨fun _ => rfl, fun _ => ⟨hrow, hcol⟩, fun hnot => absurd rfl hnot⟩
  · exact fun q hq => (hhead q hq).change_row _

/-- Separating the tokens of a run turns it into pieces that may follow one another. -/
theorem separate_separated (column row : Nat) (inStatement : Bool) (run : List Placed) :
    Separated column row inStatement run (separate column row inStatement run) := by
  induction run generalizing row inStatement with
  | nil =>
    rw [separate]
    exact ⟨[], rfl, .slnil, fun p hp => absurd hp (Option.not_mem_none p), .nil⟩
  | cons p run ih =>
    have hsame (row : Nat) (inStatement : Bool)
        (hbegins : ¬ (inStatement = true ∧ row < p.start.row ∧ p.start.col = column)) :
        Separated column row inStatement (p :: run)
          (separate column row inStatement (p :: run)) := by
      by_cases hends : p.token.kind = .semicolon → inStatement = true
      · rw [separate_continues hbegins hends]
        exact .keep (ih _ _) ⟨hends, fun hinserted => absurd hinserted Bool.false_ne_true,
          fun _ hin hline => hbegins ⟨hin, hline⟩⟩
      · rw [Classical.not_imp, Bool.not_eq_true] at hends
        obtain ⟨hkind, rfl⟩ := hends
        rw [separate_drops hkind]
        exact .drop (ih _ _)
    by_cases hbegins : inStatement = true ∧ row < p.start.row ∧ p.start.col = column
    · obtain ⟨rfl, hrow, hcol⟩ := hbegins
      rw [separate_begins hrow hcol]
      exact .insert (hsame row false fun h => Bool.false_ne_true h.1) hrow hcol
    · exact hsame row inStatement hbegins

end Separated

/-- Dropping a semicolon at the end of pieces that may follow one another brings them into normal
form. -/
theorem dropFinalSemicolon_normalForm {column : Nat} {pieces : List Piece}
    (hhead : ∀ p ∈ pieces.head?, p.token.kind ≠ .semicolon)
    (hchain : pieces.IsChain (Piece.FollowedBy column)) :
    ∃ others : List Piece, dropFinalSemicolon (pieces.map Piece.token) = others.map Piece.token ∧
      others.Sublist pieces ∧ NormalForm column others := by
  unfold dropFinalSemicolon
  rw [List.getLast?_map]
  cases hlast : pieces.getLast? with
  | none => exact ⟨pieces, rfl, .refl _, hhead, by simp [hlast], hchain⟩
  | some last =>
    by_cases hkind : last.token.kind = .semicolon
    · obtain ⟨others, rfl⟩ := List.getLast?_eq_some_iff.1 hlast
      obtain ⟨hothers, -, hbetween⟩ := List.isChain_append.1 hchain
      refine ⟨others, by simp [hkind], List.sublist_append_left _ _, ?_, ?_, hothers⟩
      · intro p hp
        exact hhead p (by rw [List.head?_append, hp]; rfl)
      · -- two semicolons do not follow one another
        intro p hp
        exact bne_iff_ne.1 ((hbetween p hp last rfl).semicolon hkind)
    · refine ⟨pieces, by simp [hkind], .refl _, hhead, ?_, hchain⟩
      simpa [hlast] using hkind

/-- Punctuating a run brings it into normal form and adds nothing but the semicolons that it
inserts. -/
theorem punctuate_normalForm (column : Nat) (run : List Placed) :
    ∃ pieces : List Piece, punctuate column run = pieces.map Piece.token ∧
      (pieces.filterMap Piece.placed?).Sublist run ∧ NormalForm column pieces := by
  obtain ⟨pieces, hpieces, hrun, hhead, hchain⟩ := separate_separated column 0 false run
  obtain ⟨others, hothers, hsublist, hnormal⟩ := dropFinalSemicolon_normalForm
    (fun p hp hkind => Bool.false_ne_true ((hhead p hp).semicolon hkind)) hchain
  exact ⟨others, by rw [punctuate, hpieces, hothers], (hsublist.filterMap _).trans hrun, hnormal⟩

/-! ## Runs of the input and of the result -/

/-- The token is laid out from the other. A `do` may have grown, and not only at its end, but other
tokens are still where they were. -/
structure Placed.From (p : Placed) (t : Token) : Prop where
  start : p.start = t.loc.start
  kind : p.token.kind = t.kind
  text : p.token.text = t.text
  loc : t.blockKind? ≠ some .indented → p.token.loc = t.loc
  grown : t.loc.Within p.token.loc

theorem placed_from_leaf (t : Token) : Placed.From ⟨t.loc.start, t⟩ t :=
  ⟨rfl, rfl, rfl, fun _ => rfl, .refl _⟩

/-- A `do` contains where it was before it took its region. -/
theorem Rules.enterIndented_loc (r : Rules) (t : Token) (rest : List Token) :
    t.loc.Within (r.enterIndented t rest).loc := by
  unfold enterIndented
  dsimp only
  cases (t.children ++ (splitRegion r.column t.loc.stop.row rest).1).getLast? with
  | none => exact .refl _
  | some last => exact Location.within_join_left _ _

/-- A laid-out block is laid out from the block. -/
theorem placed_from_close {r : Rules} {t : Token} {rest : List Token} {interior : Interior}
    (h : r.enter t rest = .ok interior) (run : List Placed) :
    Placed.From ⟨t.loc.start, interior.close t run⟩ t := by
  rcases Rules.enter_cases h with ⟨-, -, rfl⟩ | ⟨hindented, rfl⟩ | ⟨-, -, rfl⟩
  · exact ⟨rfl, rfl, rfl, fun _ => rfl, .refl _⟩
  · exact ⟨rfl, rfl, rfl, fun hkind => absurd hindented hkind, r.enterIndented_loc t rest⟩
  · exact ⟨rfl, rfl, rfl, fun _ => rfl, .refl _⟩

/-- What follows a block that is entered was there before. -/
theorem Rules.enter_rest {r : Rules} {t : Token} {rest : List Token} {interior : Interior}
    (h : r.enter t rest = .ok interior) : interior.rest.Sublist rest := by
  rcases enter_cases h with ⟨-, -, rfl⟩ | ⟨-, rfl⟩ | ⟨-, -, rfl⟩
  · exact .refl _
  · have happend := splitRegion_append r.column t.loc.stop.row rest
    show (splitRegion r.column t.loc.stop.row rest).2.Sublist rest
    conv => rhs; rw [← happend]
    exact List.sublist_append_right _ _
  · exact .refl _

/-- Laid-out tokens are laid out from tokens of the input, in order. -/
theorem arrange_from {r : Rules} {ts : List Token} {run : List Placed}
    (h : arrange r ts = .ok run) : List.SublistForall₂ Placed.From run ts := by
  induction hn : ts.length using Nat.strongRecOn generalizing ts run with
  | ind n ih =>
    subst hn
    cases ts with
    | nil =>
      cases h.symm.trans (arrange_nil r)
      exact .nil
    | cons t rest =>
      rcases arrange_cases h with ⟨-, others, hothers, rfl⟩ |
        ⟨-, interior, inner, others, henter, -, hothers, rfl⟩
      · exact .cons (placed_from_leaf t) (ih rest.length (Nat.lt_succ_self _) hothers rfl)
      · have hrest := Rules.enter_rest henter
        refine .cons (placed_from_close henter inner) ?_
        have hlater := ih interior.rest.length (Nat.lt_succ_of_le hrest.length_le) hothers rfl
        obtain ⟨from_, hfrom, hsublist⟩ := List.sublistForall₂_iff.1 hlater
        exact List.sublistForall₂_iff.2 ⟨from_, hfrom, hsublist.trans hrest⟩

/-- Some of the tokens that are laid out from others are so, too. -/
theorem sublistForall₂_of_sublist {some all : List Placed} {ts : List Token}
    (h : List.SublistForall₂ Placed.From all ts) (hsome : some.Sublist all) :
    List.SublistForall₂ Placed.From some ts := by
  induction h generalizing some with
  | nil =>
    rw [List.sublist_nil.1 hsome]
    exact .nil
  | cons hfrom _ ih =>
    cases hsome with
    | cons _ hsome => exact .cons_right (ih hsome)
    | cons_cons _ hsome => exact .cons hfrom (ih hsome)
  | cons_right _ ih => exact .cons_right (ih hsome)

/-- The tokens are what a run looks like once it is laid out: they are in normal form, and all but
the inserted semicolons are laid out from tokens of the run. -/
def StatementRun.Normalised (run : StatementRun) (out : List Token) : Prop :=
  ∃ pieces : List Piece, out = pieces.map Piece.token ∧ NormalForm run.rules.column pieces ∧
    List.SublistForall₂ Placed.From (pieces.filterMap Piece.placed?) run.tokens

theorem StatementRun.Becomes.normalised {run : StatementRun} {out : List Token}
    (h : run.Becomes out) : run.Normalised out := by
  obtain ⟨placed, hplaced, rfl⟩ := h
  obtain ⟨pieces, hpieces, hsublist, hnormal⟩ := punctuate_normalForm run.rules.column placed
  exact ⟨pieces, hpieces, hnormal, sublistForall₂_of_sublist (arrange_from hplaced) hsublist⟩

/-- Every run of statements of a laid-out text is in normal form, at any depth and whatever the
locations of the tokens are. -/
theorem layout_normalForm {ts laid : List Token} (h : layout ts = .ok laid) :
    List.Forall₂ StatementRun.Normalised (statementRuns ts) (laid :: statementRunsAll laid) :=
  (layout_runs h).imp fun _ _ => StatementRun.Becomes.normalised

/-- A line in the column of the input begins a statement. -/
theorem layout_normalForm_lines :
    List.Forall₂ StatementRun.Normalised
      (statementRuns [.leaf .identifier "a" (.one ⟨1, 1⟩), .leaf .identifier "b" (.one ⟨2, 1⟩)])
      ([.leaf .identifier "a" (.one ⟨1, 1⟩), .semicolon (.point ⟨2, 1⟩),
          .leaf .identifier "b" (.one ⟨2, 1⟩)]
        :: statementRunsAll [.leaf .identifier "a" (.one ⟨1, 1⟩), .semicolon (.point ⟨2, 1⟩),
          .leaf .identifier "b" (.one ⟨2, 1⟩)]) :=
  layout_normalForm (by cbv)

/-- The region of a `do` can begin before the word, if locations are arbitrary. The `do` then begins
there as well, and that can be where a line begins, in the column of the run and without a semicolon
before it. -/
theorem moved_do_unseparated : ∃ (ts : List Token) (a d : Token),
    ts = [.leaf .identifier "a" (.one ⟨1, 7⟩), .block .indented (.ofText ⟨5, 3⟩ "do".toList) [],
      .leaf .identifier "z" (.one ⟨2, 7⟩)] ∧
    layout ts = .ok [a, d] ∧ a.kind ≠ .semicolon ∧ d.kind ≠ .semicolon ∧
    a.loc.stop.row < d.loc.start.row ∧ d.loc.start.col = Rules.columnOf 1 ts :=
  ⟨_, .leaf .identifier "a" (.one ⟨1, 7⟩),
    .block .indented ⟨⟨2, 7⟩, ⟨5, 5⟩, by decide⟩ [.leaf .identifier "z" (.one ⟨2, 7⟩)],
    rfl, by cbv, by decide, by decide, by decide, by decide⟩

end Offside.Layout
