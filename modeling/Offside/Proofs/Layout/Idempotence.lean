import Offside.Proofs.Layout.Regions
import Offside.Proofs.Layout.Rows
import Offside.Proofs.Layout.Separators

/-!
# Laid-out tokens stay as they are

Layout is idempotent. A laid-out `do` holds its region already and ends where the next token begins,
and the semicolons that are needed are there.

* `Layout.NormalForm.punctuate`, `Layout.punctuate_punctuate`: runs in normal form are punctuated.
* `Layout.Stays`: a token that layout leaves as it is. `Layout.arrange_placeAll`: so are sequences
  of such tokens, if regions end between them.
* `Layout.stays_leaf`, `Layout.stays_brace`, `Layout.stays_do`, `Layout.stays_brackets`: what leaves
  each kind of token as it is.
* `Layout.arrange_stays`, `Layout.layout_idempotent`: laid-out tokens stay as they are, if no run of
  statements begins with a semicolon. Its column would be that of the semicolon, which is dropped.
-/

namespace Offside

namespace Layout

open Token

/-! ## Punctuated runs -/

/-- Separating pieces that may follow one another changes nothing. -/
theorem separate_placeAll {column row : Nat} {inStatement : Bool} {pieces : List Piece}
    (hstart : ∀ p ∈ pieces, p.start = p.token.loc.start)
    (hhead : ∀ p ∈ pieces.head?, p.Follows column row inStatement)
    (hchain : pieces.IsChain (Piece.FollowedBy column)) :
    separate column row inStatement (placeAll (pieces.map Piece.token))
      = pieces.map Piece.token := by
  induction pieces generalizing row inStatement with
  | nil => rfl
  | cons p pieces ih =>
    obtain ⟨hp, hpieces⟩ := List.forall_mem_cons.1 hstart
    obtain ⟨hnext, hlater⟩ := List.isChain_cons.1 hchain
    have hfollows : p.Follows column row inStatement := hhead p rfl
    have ih' := ih hpieces hnext hlater
    rw [List.map_cons, placeAll_cons]
    cases p with
    | inserted start =>
      obtain ⟨hrow, hcol⟩ := hfollows.inserted rfl
      cases hfollows.semicolon rfl
      rw [separate_begins hrow hcol, separate_drops rfl]
      exact congrArg _ ih'
    | kept p =>
      obtain ⟨start, t⟩ := p
      change start = t.loc.start at hp
      subst hp
      show separate column row inStatement (⟨t.loc.start, t⟩ :: _) = t :: _
      rw [separate_continues (fun ⟨hin, hline⟩ => hfollows.kept nofun hin hline) hfollows.semicolon]
      exact congrArg _ ih'

/-- A run in normal form is punctuated. -/
theorem NormalForm.punctuate {column : Nat} {pieces : List Piece} (h : NormalForm column pieces)
    (hstart : ∀ p ∈ pieces, p.start = p.token.loc.start) :
    punctuate column (placeAll (pieces.map Piece.token)) = pieces.map Piece.token := by
  rw [Layout.punctuate, separate_placeAll hstart ?_ h.chain, dropFinalSemicolon, List.getLast?_map]
  · cases hlast : pieces.getLast? with
    | none => rfl
    | some last => simp [h.last last hlast]
  · exact fun p hp => Piece.follows_nothing (h.head p hp) column 0

/-- A punctuated run is not changed by punctuating it again. -/
theorem punctuate_punctuate {run : List Placed} (hstart : ∀ p ∈ run, p.start = p.token.loc.start)
    (column : Nat) :
    punctuate column (placeAll (punctuate column run)) = punctuate column run := by
  obtain ⟨pieces, hpieces, hsublist, hnormal⟩ := punctuate_normalForm column run
  rw [hpieces]
  refine hnormal.punctuate fun p hp => ?_
  cases p with
  | inserted start => rfl
  | kept p =>
    have hmem : p ∈ pieces.filterMap Piece.placed? := List.mem_filterMap.2 ⟨.kept p, hp, rfl⟩
    exact hstart p (hsublist.mem hmem)

/-! ## Tokens that stay as they are -/

/-- Layout leaves the token as it is, wherever its region ends. -/
def Stays (r : Rules) (t : Token) : Prop :=
  ∀ rest : List Token, (∀ u ∈ rest.head?, RegionEnds r.column t u.loc.start) →
    arrange r (t :: rest) = (arrange r rest).map (⟨t.loc.start, t⟩ :: ·)

/-- So it leaves a sequence of such tokens, if every region ends where the next token begins. -/
theorem arrange_placeAll {r : Rules} {ts : List Token} (h : ∀ t ∈ ts, Stays r t)
    (hends : ts.IsChain fun t u => RegionEnds r.column t u.loc.start) :
    arrange r ts = .ok (placeAll ts) := by
  induction ts with
  | nil => exact arrange_nil r
  | cons t ts ih =>
    obtain ⟨ht, hts⟩ := List.forall_mem_cons.1 h
    obtain ⟨hnext, hlater⟩ := List.isChain_cons.1 hends
    rw [ht ts hnext, ih hts hlater]
    rfl

/-- The interior stays as it is, where it is a run of statements if `holdsStatements`. -/
structure Settled (r : Rules) (holdsStatements : Bool) (ts : List Token) : Prop where
  arrange : arrange r ts = .ok (placeAll ts)
  punctuate : holdsStatements → punctuate r.column (placeAll ts) = ts

/-- A block stays as it is if it keeps its place and its interior stays as it is. -/
theorem arrange_settled {r rules : Rules} {t : Token} {rest : List Token} {holdsStatements : Bool}
    (ht : t.kind = .block)
    (henter : r.enter t rest = .ok ⟨rules, t.children, rest, t.loc, holdsStatements⟩)
    (h : Settled rules holdsStatements t.children) :
    arrange r (t :: rest) = (arrange r rest).map (⟨t.loc.start, t⟩ :: ·) := by
  have hclose : (⟨rules, t.children, rest, t.loc, holdsStatements⟩ : Interior).close t
      (placeAll t.children) = t := by
    obtain ⟨kind, text, loc, children⟩ := t
    cases holdsStatements with
    | false => simp only [Interior.close, placeAll_token, Bool.false_eq_true, if_false]
    | true => simp only [Interior.close, if_true, h.punctuate rfl]
  rw [arrange_block ht henter h.arrange, hclose]

theorem stays_leaf {r : Rules} {t : Token} (h : t.kind ≠ .block) : Stays r t :=
  fun _ _ => arrange_leaf h

theorem stays_brace {r : Rules} {t : Token} (ht : t.blockKind? = some (.bracketed .brace))
    (hcheck : r.checkBrace t = .ok ())
    (h : Settled ⟨Rules.columnOf r.column t.children, none⟩ true t.children) : Stays r t := by
  intro rest _
  refine arrange_settled (kind_of_blockKind? ht) ?_ h
  rw [Rules.enter, ht]
  simp only [hcheck, Except.map]

theorem stays_brackets {r : Rules} {t : Token} (hkind : t.kind = .block)
    (hbrace : t.blockKind? ≠ some (.bracketed .brace)) (hdo : t.blockKind? ≠ some .indented)
    (hcheck : r.checkBrackets t = .ok ()) (h : Settled r false t.children) : Stays r t := by
  intro rest _
  refine arrange_settled hkind ?_ h
  unfold Rules.enter
  split
  · exact absurd ‹_› hbrace
  · exact absurd ‹_› hdo
  · simp only [hcheck, Except.map]

/-- A `do` with its region in it takes no more tokens. -/
theorem stays_do {r : Rules} {t : Token} (ht : t.blockKind? = some .indented) (hproper : t.Proper)
    (h : Settled ⟨max (Rules.columnOf r.column t.children) r.column, some r.column⟩ true
      t.children) : Stays r t := by
  intro rest hends
  have hregion : splitRegion r.column t.loc.stop.row rest = ([], rest) := by
    cases rest with
    | nil => rfl
    | cons u rest =>
      rw [splitRegion, if_pos (dedents_iff.2 (hends u rfl ht))]
  have hloc : (t.children.getLast?.elim t.loc fun last => t.loc.join last.loc) = t.loc := by
    cases hlast : t.children.getLast? with
    | none => rfl
    | some last =>
      obtain ⟨-, hstop, hstart⟩ := inOrder_getLast hproper.interior hlast
      exact Location.eq_of_ends (Location.join_start hstart) (Location.join_stop_left hstop)
  refine arrange_settled (kind_of_blockKind? ht) ?_ h
  rw [Rules.enter, ht]
  simp only [Rules.enterIndented, hregion, List.append_nil, hloc]

/-! ## Laid-out tokens -/

/-- The run does not begin with a semicolon. -/
def StatementRun.Begins (run : StatementRun) : Prop :=
  ∀ t ∈ run.tokens.head?, t.kind ≠ .semicolon

/-- What begins a run and is no semicolon still begins it when it is punctuated. -/
theorem punctuate_head (column : Nat) {p : Placed} {run : List Placed}
    (hp : p.token.kind ≠ .semicolon) : (punctuate column (p :: run)).head? = some p.token := by
  have hseparate : separate column 0 false (p :: run)
      = p.token :: separate column p.token.loc.stop.row (p.token.kind != .semicolon) run :=
    separate_continues (fun h => nomatch h.1) (fun h => absurd h hp)
  rw [punctuate, hseparate]
  generalize separate column p.token.loc.stop.row (p.token.kind != .semicolon) run = others
  cases others with
  | nil => simp [dropFinalSemicolon, hp]
  | cons u others =>
    unfold dropFinalSemicolon
    split <;> rfl

/-- The column of a run is that of the punctuated run. -/
theorem columnOf_punctuate {r : Rules} {ts : List Token} {a b : Cursor} {run : List Placed}
    (hts : InOrder a b ts) (h : arrange r ts = .ok run)
    (hbegins : ∀ t ∈ ts.head?, t.kind ≠ .semicolon) (default column : Nat) :
    Rules.columnOf default (punctuate column run) = Rules.columnOf default ts := by
  cases ts with
  | nil =>
    cases h.symm.trans (arrange_nil r)
    rfl
  | cons t rest =>
    obtain ⟨-, hstart⟩ := arrange_inOrder hts h
    have hkind := hbegins t rfl
    have hhead : ∃ p others, run = p :: others ∧ p.start = t.loc.start ∧ p.token.kind = t.kind := by
      rcases arrange_cases h with ⟨-, others, -, rfl⟩ | ⟨-, interior, inner, others, -, -, -, rfl⟩
      · exact ⟨_, others, rfl, rfl, rfl⟩
      · exact ⟨_, others, rfl, rfl, rfl⟩
    obtain ⟨p, others, rfl, hp, hsame⟩ := hhead
    have hpunctuated : (punctuate column (p :: others)).head? = some p.token :=
      punctuate_head column (hsame ▸ hkind)
    cases hout : punctuate column (p :: others) with
    | nil =>
      rw [hout] at hpunctuated
      cases hpunctuated
    | cons u us =>
      rw [hout] at hpunctuated
      cases hpunctuated
      show p.token.loc.start.col = t.loc.start.col
      rw [← hstart p List.mem_cons_self, hp]

section Settled

variable {r : Rules} {run : List Placed} (hstart : ∀ p ∈ run, p.start = p.token.loc.start)
  (hends : run.IsChain fun p q => RegionEnds r.column p.token q.start)
  (hstays : ∀ p ∈ run, Stays r p.token)

include hstart hends hstays

/-- A laid-out run of statements stays as it is if its tokens do. -/
theorem settled_punctuate : Settled r true (punctuate r.column run) := by
  refine ⟨arrange_placeAll (fun t ht => ?_) (punctuate_regionEnds hstart hends), fun _ => ?_⟩
  · obtain ⟨p, hp, rfl | rfl⟩ := mem_punctuate ht
    · exact stays_leaf nofun
    · exact hstays p hp
  · exact punctuate_punctuate hstart r.column

/-- So does the interior of brackets. -/
theorem settled_tokens : Settled r false (run.map Placed.token) := by
  refine ⟨arrange_placeAll (List.forall_mem_map.2 hstays) ?_, nofun⟩
  rw [List.isChain_map]
  exact hends.imp_of_mem_imp fun p q _ hq h => hstart q hq ▸ h

end Settled

/-- Where no region ends among some tokens, none ends when they are laid out. -/
theorem arrange_splitRegion {r : Rules} {ts : List Token} {a b : Cursor} {run : List Placed}
    {row : Nat} (hts : InOrder a b ts) (h : arrange r ts = .ok run)
    (hregion : (splitRegion r.column row ts).2 = []) :
    (splitRegion r.column row (run.map Placed.token)).2 = [] := by
  induction ts generalizing a row run with
  | nil =>
    cases h.symm.trans (arrange_nil r)
    rfl
  | cons t rest ih =>
    obtain ⟨-, ht, hrest⟩ := inOrder_cons.1 hts
    obtain ⟨hfirst, hlater⟩ := splitRegion_cons_eq_nil.1 hregion
    rcases arrange_cases h with ⟨-, others, hothers, rfl⟩ |
      ⟨-, interior, inner, others, henter, -, hothers, rfl⟩
    · exact splitRegion_cons_eq_nil.2 ⟨hfirst, ih hrest hothers hlater⟩
    · obtain ⟨hstart, -⟩ := Rules.enter_inOrder henter ht hrest
      refine splitRegion_cons_eq_nil.2 ⟨?_, ?_⟩
      · rw [dedents_iff] at hfirst ⊢
        show ¬ (row < interior.loc.start.row ∧ interior.loc.start.col ≤ r.column)
        rwa [hstart]
      · rcases Rules.enter_cases henter with ⟨-, -, rfl⟩ | ⟨-, rfl⟩ | ⟨-, -, rfl⟩
        · exact ih hrest hothers hlater
        · -- the `do` has taken all tokens after it
          change arrange r (splitRegion r.column t.loc.stop.row rest).2 = .ok others at hothers
          rw [hlater, arrange_nil] at hothers
          cases hothers
          rfl
        · exact ih hrest hothers hlater

/-- A laid-out block stays as it is, if the tokens in it do. -/
theorem stays_close {r : Rules} {t : Token} {rest : List Token} {interior : Interior}
    {run : List Placed} {b : Cursor} (hkind : t.kind = .block) (ht : t.Proper)
    (hrest : InOrder t.loc.stop b rest) (henter : r.enter t rest = .ok interior)
    (hrun : arrange interior.rules interior.tokens = .ok run)
    (hbegins : interior.holdsStatements →
      (⟨interior.rules, interior.tokens⟩ : StatementRun).Begins)
    (hstays : ∀ p ∈ run, Stays interior.rules p.token) : Stays r (interior.close t run) := by
  obtain ⟨hstart, hstop, htokens, -⟩ := Rules.enter_inOrder henter ht hrest
  have hplaced := arrange_inOrder htokens hrun
  have hends := arrange_regionEnds htokens hrun
  have hholds := Rules.enter_holdsStatements henter
  have hproper : (interior.close t run).Proper :=
    Interior.close_proper ht hkind hstart hstop hplaced
  rcases Rules.enter_cases henter with ⟨hbrace, hcheck, rfl⟩ | ⟨hindented, rfl⟩ |
    ⟨hindented, hcheck, rfl⟩
  · have hcolumn := columnOf_punctuate htokens hrun (hbegins rfl) r.column
      (Rules.columnOf r.column t.children)
    refine stays_brace hbrace hcheck ?_
    show Settled ⟨Rules.columnOf r.column (punctuate (Rules.columnOf r.column t.children) run),
      none⟩ true (punctuate (Rules.columnOf r.column t.children) run)
    rw [hcolumn]
    exact settled_punctuate hplaced.2 hends hstays
  · have hcolumn := columnOf_punctuate htokens hrun (hbegins rfl) r.column
      (r.enterIndented t rest).rules.column
    refine stays_do hindented hproper ?_
    show Settled
      ⟨max (Rules.columnOf r.column (punctuate (r.enterIndented t rest).rules.column run)) r.column,
        some r.column⟩ true (punctuate (r.enterIndented t rest).rules.column run)
    rw [hcolumn]
    exact settled_punctuate hplaced.2 hends hstays
  · have hbrace : t.blockKind? ≠ some (.bracketed .brace) := by
      intro hbrace
      rw [hbrace] at hholds
      cases hholds
    refine stays_brackets hkind hbrace hindented ?_ (settled_tokens hplaced.2 hends hstays)
    obtain ⟨hregion, hcloser⟩ := Rules.checkBrackets_iff.1 hcheck
    exact Rules.checkBrackets_iff.2 ⟨arrange_splitRegion htokens hrun hregion, hcloser⟩

/-- Laid-out tokens stay as they are, if no run of statements among them begins with a semicolon. -/
theorem arrange_stays {r : Rules} {ts : List Token} {a b : Cursor} {run : List Placed}
    (hts : InOrder a b ts) (h : arrange r ts = .ok run)
    (hbegins : ∀ run ∈ runsInside r.column ts, run.Begins) : ∀ p ∈ run, Stays r p.token := by
  induction h using arrange_induction generalizing a b with
  | nil => exact fun p hp => absurd hp List.not_mem_nil
  | leaf _ hkind _ ih =>
    obtain ⟨-, ht, hrest⟩ := inOrder_cons.1 hts
    rw [runsInside_leaf hkind] at hbegins
    exact List.forall_mem_cons.2 ⟨stays_leaf hkind, ih hrest hbegins⟩
  | block _ hkind henter hinner _ ihinner ihothers =>
    obtain ⟨-, ht, hrest⟩ := inOrder_cons.1 hts
    obtain ⟨-, -, htokens, hafter⟩ := Rules.enter_inOrder henter ht hrest
    rw [runsInside_enter hkind henter] at hbegins
    simp only [List.forall_mem_append] at hbegins
    obtain ⟨hhere, hinside, hlater⟩ := hbegins
    refine List.forall_mem_cons.2 ⟨stays_close hkind ht hrest henter hinner ?_
      (ihinner htokens hinside), ihothers hafter hlater⟩
    intro hholds
    exact hhere _ (by rw [if_pos hholds]; exact List.mem_singleton_self _)

/-- Layout leaves as it is what it has made of tokens in order, if no run of statements among these
begins with a semicolon. -/
theorem layout_layout {ts laid : List Token} {a b : Cursor} (hts : InOrder a b ts)
    (h : layout ts = .ok laid) (hbegins : ∀ run ∈ statementRuns ts, run.Begins) :
    layout laid = .ok laid := by
  obtain ⟨run, hrun, rfl⟩ := layout_ok h
  obtain ⟨hhere, hinside⟩ := List.forall_mem_cons.1 hbegins
  have hcolumn := columnOf_punctuate hts hrun hhere 1 (Rules.columnOf 1 ts)
  have hsettled := settled_punctuate (arrange_inOrder hts hrun).2 (arrange_regionEnds hts hrun)
    (arrange_stays hts hrun hinside)
  rw [layout, hcolumn, hsettled.arrange]
  exact congrArg _ (hsettled.punctuate rfl)

end Layout

/-- Layout is idempotent: it leaves a laid-out source text as it is, if no run of statements of the
text begins with a semicolon. -/
theorem layout_idempotent {source : String} {ts laid : List Token}
    (hts : Token.ofSource source = .ok ts) (h : Layout.layout ts = .ok laid)
    (hbegins : ∀ run ∈ Layout.statementRuns ts, run.Begins) : Layout.layout laid = .ok laid :=
  Layout.layout_layout (Token.ofSource_inOrder hts) h hbegins

/-- The `do` holds its region already, and the semicolon is there. -/
theorem layout_idempotent_region : ∃ ts laid,
    Token.ofSource "a do\n b\n c" = .ok ts ∧ Layout.layout ts = .ok laid ∧
    (∀ run ∈ Layout.statementRuns ts, run.Begins) ∧ Layout.layout laid = .ok laid := by
  have hts : Token.ofSource "a do\n b\n c" = .ok [.leaf .identifier "a" (.one ⟨1, 1⟩),
      .block .indented (.ofText ⟨1, 3⟩ "do".toList) [], .leaf .identifier "b" (.one ⟨2, 2⟩),
      .leaf .identifier "c" (.one ⟨3, 2⟩)] := by
    rw [Token.ofSource_eq_trees]
    cbv
  generalize htokens : [_, _, _, _] = ts at hts
  have hbegins : ∀ run ∈ Layout.statementRuns ts, run.Begins := by
    have hruns : Layout.statementRuns ts = [⟨⟨1, none⟩, ts⟩, ⟨⟨2, some 1⟩,
        [.leaf .identifier "b" (.one ⟨2, 2⟩), .leaf .identifier "c" (.one ⟨3, 2⟩)]⟩] := by
      subst htokens
      cbv
    rw [hruns, ← htokens]
    refine List.forall_mem_cons.2 ⟨?_, List.forall_mem_singleton.2 ?_⟩ <;>
    · intro t ht
      cases ht
      decide
  have hlayout : (Layout.layout ts).toOption.isSome = true := by
    subst htokens
    cbv
  cases h : Layout.layout ts with
  | error e =>
    rw [h] at hlayout
    cases hlayout
  | ok laid => exact ⟨ts, laid, hts, h, hbegins, layout_idempotent hts h hbegins⟩

end Offside
