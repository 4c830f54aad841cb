import Offside.Proofs.Layout.Regions
import Offside.Proofs.Layout.Separators
import Offside.Proofs.Token.Typesetting

/-!
# The margin of a run of statements

What belongs to a statement stands to the right of the column of its run: the lines in its groups
and in its indented blocks, at any depth, and the closers of its groups. An indented block ends only
where a line begins that is not to the right of the column.

* `Token.Contains`: what is in a token but in no braces in it. `Token.SiblingsIn`: the tokens of a
  run and the interiors of its groups. `Token.LeadsLine`: where a line of the source begins.
* `Layout.Lies`: how the tokens of a source text lie, with what is known of the beginnings of lines.
* `Layout.arrange_closers`: the brackets that go over several rows end to the right of the column.
* `Layout.splitRegion_margin`: so do lines begin that end no region.
* `Layout.Hangs`: what layout sees to of a token in a run with some column.
  `Layout.arrange_hangs`: it does so by looking at one block after another.
* `layout_margin`: so it does in every run of a source text.
-/

namespace Offside

namespace Token

/-! ## Where tokens stand -/

/-- Brackets other than braces, whose interior belongs to the run that they are in. -/
def Transparent (t : Token) : Prop := ∃ bracket, t.blockKind? = some (.bracketed bracket) ∧
  bracket ≠ .brace

/-- Braces are not transparent. -/
theorem not_transparent_of_brace {t : Token} (h : t.blockKind? = some (.bracketed .brace)) :
    ¬ t.Transparent := by
  rintro ⟨bracket, hbracket, hne⟩
  cases h.symm.trans hbracket
  exact hne rfl

/-- The second token is in the first, at any depth but in no braces in it. -/
inductive Contains : Token → Token → Prop
  | child {t u : Token} (hu : u ∈ t.children) : Contains t u
  | deeper {t u v : Token} (hu : u ∈ t.children)
    (hbrace : u.blockKind? ≠ some (.bracketed .brace)) (h : Contains u v) : Contains t v

/-- Some tokens next to one another that belong to a run: all its tokens, or the interior of a group
among such tokens. -/
inductive SiblingsIn (run : List Token) : List Token → Prop
  | run : SiblingsIn run run
  | group {ts : List Token} {t : Token} (h : SiblingsIn run ts) (ht : t ∈ ts)
    (hgroup : t.Transparent) : SiblingsIn run t.children

/-- No token begins on the row of the cursor and to the left of it. -/
def LeadsLine (ts : List Token) (c : Cursor) : Prop :=
  ∀ t ∈ ts, t.Every fun u => u.loc.start.row = c.row → c.col ≤ u.loc.start.col

end Token

namespace Layout

open Token

/-- How a token of a source text lies, where lines begin only at cursors with a property. -/
structure Lies (leads : Cursor → Prop) (t : Token) : Prop where
  typeset : t.Typeset
  wide : t.Wide
  beside : ∀ c, leads c → t.loc.start.row = c.row → c.col ≤ t.loc.start.col

/-! ## Closers -/

/-- Braces may be entered only if they close on the row of their opener or not to the left of the
column. -/
theorem Rules.checkBrace_ok {r : Rules} {t : Token} (h : r.checkBrace t = .ok ()) :
    ∃ close, t.loc.lastChar? = some close ∧
      (t.loc.start.row < close.start.row → r.column ≤ close.start.col) := by
  unfold checkBrace at h
  split at h
  · cases h
  · rename_i close hclose
    refine ⟨close, hclose, fun hrow => ?_⟩
    rw [if_neg (Nat.not_le.2 hrow)] at h
    split at h
    · cases h
    · split at h
      · cases h
      · exact Nat.not_lt.1 ‹_›

/-- A block that is entered and goes over several rows ends to the right of the column. -/
theorem Rules.enter_closer {leads : Cursor → Prop} {r : Rules} {t : Token} {rest : List Token}
    {interior : Interior} (h : r.enter t rest = .ok interior) (ht : Lies leads t)
    (hrows : t.loc.start.row < t.loc.stop.row) : r.column < t.loc.stop.col := by
  have hwide : 2 ≤ t.loc.stop.col := ht.wide
  rcases enter_cases h with ⟨-, hcheck, -⟩ | ⟨hindented, -⟩ | ⟨-, hcheck, -⟩
  · obtain ⟨close, hclose, hcol⟩ := checkBrace_ok hcheck
    rw [Location.lastChar?_eq hwide] at hclose
    cases hclose
    have hle : r.column ≤ t.loc.stop.col - 1 := hcol hrows
    omega
  · refine absurd (ht.typeset.row fun bracket hbracket => ?_) (Nat.ne_of_lt hrows)
    cases hindented.symm.trans hbracket
  · obtain ⟨-, close, hclose, hcol⟩ := checkBrackets_iff.1 hcheck
    rw [Location.lastChar?_eq hwide] at hclose
    cases hclose
    have hlt : r.column < t.loc.stop.col - 1 := hcol hrows
    omega

/-- A token of a source text that is not in brackets stands on one row. -/
theorem Lies.row {leads : Cursor → Prop} {t : Token} (h : Lies leads t) (ht : t.kind ≠ .block) :
    t.loc.start.row = t.loc.stop.row :=
  h.typeset.row fun _ hbracket => ht (kind_of_blockKind? hbracket)

/-- The tokens of an arrangement that go over several rows end to the right of the column, also
those that are taken by a `do`. -/
theorem arrange_closers {leads : Cursor → Prop} {r : Rules} {ts : List Token} {run : List Placed}
    (hts : ∀ t ∈ ts, t.Every (Lies leads)) (h : arrange r ts = .ok run) :
    ∀ t ∈ ts, t.loc.start.row < t.loc.stop.row → r.column < t.loc.stop.col := by
  induction h using arrange_induction with
  | nil => exact fun t ht => absurd ht List.not_mem_nil
  | leaf _ hkind _ ih =>
    obtain ⟨ht, hrest⟩ := List.forall_mem_cons.1 hts
    refine List.forall_mem_cons.2 ⟨fun hrows => ?_, ih hrest⟩
    exact absurd (ht.here.row hkind) (Nat.ne_of_lt hrows)
  | @block r t rest _ _ _ _ _ henter _ _ ihinner ihothers =>
    obtain ⟨ht, hrest⟩ := List.forall_mem_cons.1 hts
    obtain ⟨htokens, hafter⟩ := Rules.enter_every henter ht hrest
    have hinside := ihinner htokens
    have hlater := ihothers hafter
    refine List.forall_mem_cons.2 ⟨Rules.enter_closer henter ht.here, fun u hu hrows => ?_⟩
    rcases Rules.enter_cases henter with ⟨-, -, rfl⟩ | ⟨-, rfl⟩ | ⟨-, -, rfl⟩
    · exact hlater u hu hrows
    · rw [← splitRegion_append r.column t.loc.stop.row rest] at hu
      rcases List.mem_append.1 hu with hu | hu
      · exact Nat.lt_of_le_of_lt (Nat.le_max_right _ _)
          (hinside u (List.mem_append_right _ hu) hrows)
      · exact hlater u hu hrows
    · exact hlater u hu hrows

/-! ## Lines -/

/-- No line begins right after a token, unless it begins on a later row or the token ends to the
right of the column. -/
theorem Lies.margin {leads : Cursor → Prop} {column : Nat} {t : Token} {c : Cursor}
    (ht : Lies leads t) (hcloser : t.loc.start.row < t.loc.stop.row → column < t.loc.stop.col)
    (hc : t.loc.stop ≤ c) (hrow : c.row ≤ t.loc.stop.row) (hleads : leads c) : column < c.col := by
  rw [Cursor.le_def] at hc
  have hsame : t.loc.stop.row = c.row := by omega
  have hle := t.loc.start_le_stop
  rw [Cursor.le_def] at hle
  by_cases hrows : t.loc.start.row < t.loc.stop.row
  · have := hcloser hrows
    omega
  · -- the token is on the same row and further to the left
    have hstart : t.loc.start.row = t.loc.stop.row := by omega
    have hnonempty := ht.typeset.nonempty hstart
    have hbeside := ht.beside c hleads (hstart.trans hsame)
    omega

/-- Tokens in order begin where they are in order from, or later. -/
theorem inOrder_head {a b : Cursor} {ts : List Token} (h : InOrder a b ts) {t : Token}
    (ht : t ∈ ts.head?) : a ≤ t.loc.start := by
  cases ts with
  | nil => cases ht
  | cons u rest =>
    cases ht
    exact (inOrder_cons.1 h).1

/-- Where no region ends among some tokens, and what goes over several rows ends to the right of the
column, lines begin to the right of the column as well, if the first token does so. -/
theorem splitRegion_margin {leads : Cursor → Prop} {column row : Nat} {a b : Cursor}
    {ts : List Token} (hts : InOrder a b ts) (hlies : ∀ t ∈ ts, Lies leads t)
    (hclosers : ∀ t ∈ ts, t.loc.start.row < t.loc.stop.row → column < t.loc.stop.col)
    (hfirst : ∀ t ∈ ts.head?, t.loc.start.row ≤ row → leads t.loc.start →
      column < t.loc.start.col)
    (hregion : (splitRegion column row ts).2 = []) :
    ∀ t ∈ ts, leads t.loc.start → column < t.loc.start.col := by
  induction ts generalizing a row with
  | nil => exact fun t ht => absurd ht List.not_mem_nil
  | cons t rest ih =>
    obtain ⟨-, -, hrest⟩ := inOrder_cons.1 hts
    obtain ⟨ht, hlies⟩ := List.forall_mem_cons.1 hlies
    obtain ⟨hcloser, hclosers⟩ := List.forall_mem_cons.1 hclosers
    obtain ⟨hstays, hlater⟩ := splitRegion_cons_eq_nil.1 hregion
    refine List.forall_mem_cons.2 ⟨fun hleads => ?_, ih hrest hlies hclosers ?_ hlater⟩
    · rw [dedents_iff] at hstays
      by_cases hrow : row < t.loc.start.row
      · omega
      · exact hfirst t rfl (Nat.not_lt.1 hrow) hleads
    · exact fun u hu hrow hleads => ht.margin hcloser (inOrder_head hrest hu) hrow hleads

/-- A region has no token that ends it. -/
theorem splitRegion_region (column row : Nat) (ts : List Token) :
    (splitRegion column row (splitRegion column row ts).1).2 = [] := by
  induction ts generalizing row with
  | nil => rfl
  | cons t rest ih =>
    rw [splitRegion]
    split
    · rfl
    · rename_i hstays
      exact splitRegion_cons_eq_nil.2 ⟨hstays, ih t.loc.stop.row⟩

/-! ## Blocks -/

/-- What layout sees to of a token in a run with the column. -/
inductive Hangs (leads : Cursor → Prop) (column : Nat) : Token → Prop
  /-- Braces begin runs of their own. -/
  | brace {t : Token} (ht : t.blockKind? = some (.bracketed .brace)) : Hangs leads column t
  /-- Lines begin to the right of the column in any other token. In a group the closer stands there
  as well, every region ends where the next token begins, and the same holds of each token. -/
  | other {t : Token}
    (inside : ∀ u, t.Contains u → leads u.loc.start → column < u.loc.start.col)
    (closer : t.Transparent → ∃ close, t.loc.lastChar? = some close ∧
      (t.loc.start.row < close.start.row → column < close.start.col))
    (regions : t.Transparent → t.children.IsChain fun u v => RegionEnds column u v.loc.start)
    (children : t.Transparent → ∀ u ∈ t.children, Hangs leads column u) : Hangs leads column t

/-- A token without interior. -/
theorem Hangs.bare {leads : Cursor → Prop} {column : Nat} {t : Token} (hchildren : t.children = [])
    (hgroup : ¬ t.Transparent) : Hangs leads column t := by
  refine .other (fun u hu => ?_) (fun h => absurd h hgroup) (fun h => absurd h hgroup)
    fun h => absurd h hgroup
  cases hu with
  | child hu =>
    rw [hchildren] at hu
    exact absurd hu List.not_mem_nil
  | deeper hu =>
    rw [hchildren] at hu
    exact absurd hu List.not_mem_nil

/-- A laid-out token begins where some token of the input does. -/
theorem exists_from {ts : List Token} {run : List Placed}
    (h : List.SublistForall₂ Placed.From run ts) {p : Placed} (hp : p ∈ run) :
    ∃ t ∈ ts, p.start = t.loc.start := by
  induction h with
  | nil => exact absurd hp List.not_mem_nil
  | cons hfrom _ ih =>
    rcases List.mem_cons.1 hp with rfl | hp
    · exact ⟨_, List.mem_cons_self, hfrom.start⟩
    · obtain ⟨t, ht, hstart⟩ := ih hp
      exact ⟨t, List.mem_cons_of_mem _ ht, hstart⟩
  | cons_right _ ih =>
    obtain ⟨t, ht, hstart⟩ := ih hp
    exact ⟨t, List.mem_cons_of_mem _ ht, hstart⟩

section Inside

variable {leads : Cursor → Prop} {r : Rules} {ts : List Token} {a b : Cursor}
  {run : List Placed} {column : Nat}

/-- In a block with such an interior lines begin to the right of the column, if they do so among the
tokens that it is laid out from. -/
theorem inside_margin (hts : InOrder a b ts) (hrun : arrange r ts = .ok run)
    (hcolumn : column ≤ r.column)
    (hlines : ∀ t ∈ ts, leads t.loc.start → column < t.loc.start.col)
    (hhangs : ∀ p ∈ run, Hangs leads r.column p.token) {t : Token}
    (hchildren : ∀ u ∈ t.children,
      ∃ p ∈ run, u = Token.semicolon (Location.point p.start) ∨ u = p.token) :
    ∀ u, t.Contains u → leads u.loc.start → column < u.loc.start.col := by
  intro u hu hleads
  cases hu with
  | child hu =>
    obtain ⟨p, hp, hsame⟩ := hchildren u hu
    have hstart : u.loc.start = p.start := by
      rcases hsame with rfl | rfl
      · rfl
      · exact ((arrange_inOrder hts hrun).2 p hp).symm
    obtain ⟨v, hv, hfrom⟩ := exists_from (arrange_from hrun) hp
    rw [hstart, hfrom] at hleads ⊢
    exact hlines v hv hleads
  | deeper hw hbrace hu =>
    obtain ⟨p, hp, rfl | rfl⟩ := hchildren _ hw
    · -- a semicolon has no interior
      cases hu with
      | child hu => exact absurd hu List.not_mem_nil
      | deeper hu => exact absurd hu List.not_mem_nil
    · cases hhangs p hp with
      | brace hkind => exact absurd hkind hbrace
      | other inside => exact Nat.lt_of_le_of_lt hcolumn (inside u hu hleads)

end Inside

section Blocks

variable {leads : Cursor → Prop} {r : Rules} {t : Token} {rest : List Token} {b : Cursor}
  {run : List Placed}

/-- A laid-out `do` hangs, if the tokens in it do. -/
theorem hangs_do (hindented : t.blockKind? = some .indented)
    (hrest : InOrder t.loc.stop b rest) (hlies : t.Every (Lies leads))
    (hafter : ∀ u ∈ rest, u.Every (Lies leads))
    (hrun : arrange (r.enterIndented t rest).rules (r.enterIndented t rest).tokens = .ok run)
    (hhangs : ∀ p ∈ run, Hangs leads (r.enterIndented t rest).rules.column p.token) :
    Hangs leads r.column ((r.enterIndented t rest).close t run) := by
  have hbrackets (bracket : Bracket) : t.blockKind? ≠ some (.bracketed bracket) := by
    rw [hindented]
    nofun
  have hgroup : ¬ ((r.enterIndented t rest).close t run).Transparent :=
    fun ⟨bracket, hbracket, _⟩ => hbrackets bracket hbracket
  have htokens : (r.enterIndented t rest).tokens
      = (splitRegion r.column t.loc.stop.row rest).1 := by
    show t.children ++ _ = _
    rw [hlies.here.typeset.bare hbrackets, List.nil_append]
  have hcolumn : r.column ≤ (r.enterIndented t rest).rules.column := Nat.le_max_right _ _
  obtain ⟨m, horder, -⟩ := splitRegion_inOrder r.column t.loc.stop.row hrest
  have hregion : ∀ u ∈ (splitRegion r.column t.loc.stop.row rest).1, u.Every (Lies leads) :=
    fun u hu => hafter u (mem_of_mem_splitRegion (Or.inl hu))
  have hclosers := arrange_closers (htokens ▸ hregion) hrun
  rw [← htokens] at horder hregion
  refine .other (inside_margin horder hrun hcolumn ?_ hhangs fun u hu => mem_punctuate hu)
    (fun h => absurd h hgroup) (fun h => absurd h hgroup) fun h => absurd h hgroup
  refine splitRegion_margin horder (fun u hu => (hregion u hu).here)
    (fun u hu hrows => Nat.lt_of_le_of_lt hcolumn (hclosers u hu hrows)) (fun u hu hrow => ?_)
    (htokens ▸ splitRegion_region r.column t.loc.stop.row rest)
  -- the first token of the region may be on the row of the word, and then it begins no line
  refine hlies.here.margin (fun hrows => ?_) (inOrder_head horder hu) hrow
  exact absurd (hlies.here.typeset.row hbrackets) (Nat.ne_of_lt hrows)

/-- Laid-out brackets hang, if the tokens in them do. -/
theorem hangs_brackets (ht : t.Proper) (hlies : t.Every (Lies leads))
    (hcheck : r.checkBrackets t = .ok ()) (hrun : arrange r t.children = .ok run)
    (hhangs : ∀ p ∈ run, Hangs leads r.column p.token) :
    Hangs leads r.column ((⟨r, t.children, rest, t.loc, false⟩ : Interior).close t run) := by
  have horder := ht.interior
  obtain ⟨hregion, hcloser⟩ := Rules.checkBrackets_iff.1 hcheck
  have hclosers := arrange_closers (fun u hu => hlies.inside hu) hrun
  refine .other (inside_margin horder hrun (Nat.le_refl _) ?_ hhangs fun u hu => ?_)
    (fun _ => hcloser) (fun _ => ?_) fun _ => List.forall_mem_map.2 hhangs
  · refine splitRegion_margin horder (fun u hu => (hlies.inside hu).here) hclosers
      (fun u hu hrow hleads => ?_) hregion
    -- the first token in the brackets may be on the row of the opener, and then it begins no line
    have hstart := inOrder_head horder hu
    rw [Cursor.le_def] at hstart
    have hsame : t.loc.start.row = u.loc.start.row := by omega
    have hinside := hlies.here.typeset.inside u (List.mem_of_mem_head? hu) hsame
    have hbeside := hlies.here.beside _ hleads hsame
    omega
  · obtain ⟨p, hp, rfl⟩ := List.mem_map.1 hu
    exact ⟨p, hp, Or.inr rfl⟩
  · show (run.map Placed.token).IsChain _
    rw [List.isChain_map]
    exact (arrange_regionEnds horder hrun).imp_of_mem_imp fun p q _ hq h =>
      (arrange_inOrder horder hrun).2 q hq ▸ h

end Blocks

/-- Laid-out tokens hang from the column. -/
theorem arrange_hangs {leads : Cursor → Prop} {r : Rules} {ts : List Token} {a b : Cursor}
    {run : List Placed} (hts : InOrder a b ts) (hlies : ∀ t ∈ ts, t.Every (Lies leads))
    (h : arrange r ts = .ok run) : ∀ p ∈ run, Hangs leads r.column p.token := by
  induction h using arrange_induction generalizing a b with
  | nil => exact fun p hp => absurd hp List.not_mem_nil
  | leaf _ hkind _ ih =>
    obtain ⟨-, ht, hrest⟩ := inOrder_cons.1 hts
    obtain ⟨htlies, hrestlies⟩ := List.forall_mem_cons.1 hlies
    have hbrackets (bracket : Bracket) : Token.blockKind? _ ≠ some (.bracketed bracket) :=
      fun hbracket => hkind (kind_of_blockKind? hbracket)
    refine List.forall_mem_cons.2
      ⟨.bare (htlies.here.typeset.bare hbrackets) ?_, ih hrest hrestlies⟩
    exact fun ⟨bracket, hbracket, _⟩ => hbrackets bracket hbracket
  | block _ hkind henter hinner _ ihinner ihothers =>
    obtain ⟨-, ht, hrest⟩ := inOrder_cons.1 hts
    obtain ⟨htlies, hrestlies⟩ := List.forall_mem_cons.1 hlies
    obtain ⟨htokens, hafter⟩ := Rules.enter_every henter htlies hrestlies
    obtain ⟨-, -, htokenso, haftero⟩ := Rules.enter_inOrder henter ht hrest
    have hinside := ihinner htokenso htokens
    refine List.forall_mem_cons.2 ⟨?_, ihothers haftero hafter⟩
    rcases Rules.enter_cases henter with ⟨hbrace, -, -⟩ | ⟨hindented, rfl⟩ | ⟨-, hcheck, rfl⟩
    · exact .brace hbrace
    · exact hangs_do hindented hrest htlies hrestlies hinner hinside
    · exact hangs_brackets ht htlies hcheck hinner hinside

/-! ## Runs -/

/-- What belongs to the statements of a run stands to the right of its column, where `ts` are the
tokens of the source and `out` are those that become of the run. -/
structure StatementRun.Margin (ts : List Token) (run : StatementRun) (out : List Token) : Prop where
  /-- In a `do` and in a group lines begin to the right of the column. -/
  inside : ∀ us, SiblingsIn out us → ∀ t ∈ us, t.blockKind? = some .indented ∨ t.Transparent →
    ∀ u, t.Contains u → LeadsLine ts u.loc.start → run.rules.column < u.loc.start.col
  /-- The closer of a group stands there, too, unless it is on the row of the opener. -/
  closer : ∀ us, SiblingsIn out us → ∀ t ∈ us, t.Transparent →
    ∃ close, t.loc.lastChar? = some close ∧
      (t.loc.start.row < close.start.row → run.rules.column < close.start.col)
  /-- What follows a `do` begins a line, and not to the right of the column. -/
  regions : ∀ us, SiblingsIn out us →
    us.IsChain fun t u => RegionEnds run.rules.column t u.loc.start

/-- What hangs and is in no braces hangs with the interiors of its groups. -/
theorem siblings_hang {leads : Cursor → Prop} {column : Nat} {out us : List Token}
    (hhangs : ∀ t ∈ out, Hangs leads column t)
    (hregions : out.IsChain fun t u => RegionEnds column t u.loc.start) (h : SiblingsIn out us) :
    (∀ t ∈ us, Hangs leads column t) ∧ us.IsChain fun t u => RegionEnds column t u.loc.start := by
  induction h with
  | run => exact ⟨hhangs, hregions⟩
  | group _ ht hgroup ih =>
    cases ih.1 _ ht with
    | brace hbrace => exact absurd hgroup (not_transparent_of_brace hbrace)
    | other _ _ regions children => exact ⟨children hgroup, regions hgroup⟩

/-- A run becomes tokens that keep the margin. -/
theorem StatementRun.Becomes.margin {ts : List Token} {run : StatementRun} {out : List Token}
    (h : run.Becomes out) (horder : Ordered run.tokens)
    (hlies : ∀ t ∈ run.tokens, t.Every (Lies (LeadsLine ts))) : run.Margin ts out := by
  obtain ⟨placed, hplaced, rfl⟩ := h
  obtain ⟨a, b, horder⟩ := horder
  have hregions := punctuate_regionEnds (arrange_inOrder horder hplaced).2
    (arrange_regionEnds horder hplaced)
  have hhangs : ∀ t ∈ punctuate run.rules.column placed,
      Hangs (LeadsLine ts) run.rules.column t := by
    intro t ht
    obtain ⟨p, hp, rfl | rfl⟩ := mem_punctuate ht
    · exact .bare rfl nofun
    · exact arrange_hangs horder hlies hplaced p hp
  refine ⟨fun us hus t ht hblock => ?_, fun us hus t ht hgroup => ?_, fun us hus => ?_⟩
  · cases (siblings_hang hhangs hregions hus).1 t ht with
    | brace hbrace =>
      rcases hblock with hindented | hgroup
      · cases hbrace.symm.trans hindented
      · exact absurd hgroup (not_transparent_of_brace hbrace)
    | other inside => exact inside
  · cases (siblings_hang hhangs hregions hus).1 t ht with
    | brace hbrace => exact absurd hgroup (not_transparent_of_brace hbrace)
    | other _ closer => exact closer hgroup
  · exact (siblings_hang hhangs hregions hus).2

end Layout

/-- In every run of a laid-out source text, what belongs to a statement stands to the right of the
column of the run. -/
theorem layout_margin {source : String} {ts laid : List Token}
    (hts : Token.ofSource source = .ok ts) (h : Layout.layout ts = .ok laid) :
    List.Forall₂ (Layout.StatementRun.Margin ts) (Layout.statementRuns ts)
      (laid :: Token.statementRunsAll laid) := by
  have hlies : ∀ t ∈ ts, t.Every (Layout.Lies (Token.LeadsLine ts)) := by
    intro t ht
    have hbeside : t.Every fun u => ∀ c, Token.LeadsLine ts c → u.loc.start.row = c.row →
        c.col ≤ u.loc.start.col := .forall fun c hc => hc t ht
    exact (((Token.ofSource_typeset hts t ht).and (Token.ofSource_wide hts t ht)).and hbeside).mono
      fun u hu => ⟨hu.1.1, hu.1.2, hu.2⟩
  have hruns : ∀ run ∈ Layout.statementRuns ts, Token.Ordered run.tokens ∧
      ∀ t ∈ run.tokens, t.Every (Layout.Lies (Token.LeadsLine ts)) := by
    have horder : Token.Ordered ts := ⟨_, _, Token.ofSource_inOrder hts⟩
    refine List.forall_mem_cons.2 ⟨⟨horder, hlies⟩, Layout.runsInside_hereditary
      (Q := fun us => Token.Ordered us ∧ ∀ t ∈ us, t.Every (Layout.Lies (Token.LeadsLine ts)))
      (fun {us vs} hall => ?_) (fun {t rest} hall => ?_) ⟨horder, hlies⟩⟩
    · obtain ⟨hus, hvs⟩ := hall.1.of_append
      obtain ⟨huslies, hvslies⟩ := List.forall_mem_append.1 hall.2
      exact ⟨⟨hus, huslies⟩, hvs, hvslies⟩
    · obtain ⟨⟨a, b, hab⟩, hevery⟩ := hall
      obtain ⟨-, ht, hrest⟩ := Token.inOrder_cons.1 hab
      obtain ⟨htlies, hrestlies⟩ := List.forall_mem_cons.1 hevery
      exact ⟨⟨_, _, Token.inOrder_append.2 ⟨_, ht.interior, hrest⟩⟩,
        List.forall_mem_append.2 ⟨fun c hc => htlies.inside hc, hrestlies⟩⟩
  exact ((List.forall₂_and_left _ _).2 ⟨hruns, Layout.layout_runs h⟩).imp
    fun run out hrun => hrun.2.margin hrun.1.1 hrun.1.2

/-- The lines of the `do` in the group, and the closer of the group, stand to the right of the first
column. -/
theorem layout_margin_group : ∃ ts laid,
    Token.ofSource "a (do\n  b\n  c\n )\nd" = .ok ts ∧ Layout.layout ts = .ok laid ∧
    List.Forall₂ (Layout.StatementRun.Margin ts) (Layout.statementRuns ts)
      (laid :: Token.statementRunsAll laid) := by
  have hlaid : ((Token.ofSource "a (do\n  b\n  c\n )\nd").toOption.bind fun ts =>
      (Layout.layout ts).toOption).isSome = true := by decide +kernel
  cases hts : Token.ofSource "a (do\n  b\n  c\n )\nd" with
  | error e =>
    rw [hts] at hlaid
    cases hlaid
  | ok ts =>
    cases h : Layout.layout ts with
    | error e =>
      rw [hts] at hlaid
      simp [Except.toOption, h] at hlaid
    | ok laid => exact ⟨ts, laid, rfl, h, layout_margin hts h⟩

end Offside
