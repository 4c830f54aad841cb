import Offside.Proofs.Layout.Concatenation
import Offside.Proofs.Printing.Passages

/-!
# Indented blocks in print

A block of statements can be printed without braces: its lines follow a `do`, four columns further
to the right, and layout finds where they end.

* `doText`: a body after a `do`. `shiftBy_doText`: what becomes of it when it is moved to the right.
* `Stretch`: a text that is read as some tokens, of which none begins a line to the left of a column.
* `Outline`: moreover layout puts the tokens into a sequence with semicolons. `Fragment.outline`,
  `Outline.append`, `Header.outline`: fragments of a line, outlines on lines of their own, and a `do`
  with its lines.
* `lines_outlined`, `do_outlined`: printed items on lines of their own, and such items after a `do`.
  `laidOut_of_outlined`: a whole text of them.
-/

namespace Offside

open Token Layout Scanner Printing Parse

/-! ## The text -/

/-- A body after a `do`, each of its lines on a line of its own and four columns further to the
right. -/
def Printing.doText (body : String) : String :=
  blockWord ++ String.join ((Text.lines body).map ("\n    " ++ ·))

/-- An empty body leaves nothing but the `do`. -/
theorem toList_doText_nil : (doText "").toList = blockWord.toList := by
  rw [doText, Text.lines, String.toList_append]
  simp [Text.splitLines]

/-- A line feed before all lines and after each is one before each and after all of them. -/
theorem feed_flatMap (lines : List (List Char)) :
    '\n' :: lines.flatMap (fun line => spaces 4 ++ line ++ ['\n'])
      = lines.flatMap (fun line => lineBreak 4 ++ line) ++ ['\n'] := by
  induction lines with
  | nil => rfl
  | cons line lines ih =>
    rw [List.flatMap_cons, List.flatMap_cons, List.append_assoc (lineBreak 4 ++ line), ← ih, lineBreak]
    simp

/-- A body that can be indented is a shifted one. -/
theorem toList_doText {body : String} (h : Indentable body.toList) :
    (doText body).toList = blockWord.toList ++ lineBreak 4 ++ shiftBy 4 body.toList := by
  have hlines : (Text.splitLines body.toList).flatMap (fun line => lineBreak 4 ++ line)
      = lineBreak 4 ++ shiftBy 4 body.toList := by
    have hfeeds := feed_flatMap (Text.splitLines body.toList)
    rw [flatMap_splitLines h] at hfeeds
    exact (List.append_cancel_right hfeeds).symm
  rw [doText, String.toList_append, String.toList_join, Text.lines, List.map_map, List.flatMap_map,
    List.append_assoc, ← hlines]
  congr 2
  funext line
  simp [lineBreak, spaces]

/-- A body after a `do`, moved to the right. -/
theorem shiftBy_doText (n : Nat) {body : String} (h : Indentable body.toList) :
    shiftBy n (doText body).toList
      = blockWord.toList ++ lineBreak (n + 4) ++ shiftBy (n + 4) body.toList := by
  rw [toList_doText h, shiftBy_append, shiftBy_append, shiftBy_lineBreak, shiftBy_shiftBy,
    shiftBy_oneLine n (by decide)]

/-! ## Stretches -/

/-- A region goes on to the end of tokens, if it does so in both parts. -/
theorem Layout.splitRegion_append_nil {c row : Nat} {ts us : List Token}
    (hts : (splitRegion c row ts).2 = []) (hus : ∀ row, (splitRegion c row us).2 = []) :
    (splitRegion c row (ts ++ us)).2 = [] := by
  induction ts generalizing row with
  | nil => exact hus row
  | cons t ts ih =>
    rw [List.cons_append, splitRegion]
    rw [splitRegion] at hts
    split at hts
    · cases hts
    · rw [if_neg ‹_›]
      exact ih hts

/-- A text that is read as some tokens, of which none begins a line to the left of a column. -/
structure Stretch (column : Nat) (s : Scanner) (text : List Char) (raw : List Token) : Prop where
  /-- The text is read as the tokens, unless a word goes on after it. -/
  lexes : s.Lexes EndsWord text raw false
  /-- The tokens span the text. -/
  spans : (s.locate text).Spans raw
  /-- They stand on the rows of the text. -/
  rows : ∀ t ∈ raw, s.cursor.row ≤ t.loc.start.row ∧ t.loc.stop.row ≤ (s.cursor.after text).row
  /-- They are part of every region that ends to the left of the column. -/
  region : ∀ c row, c < column → (splitRegion c row raw).2 = []
  /-- The text can be indented. -/
  indentable : Indentable text

/-- Tokens on one row stand on it. -/
theorem Token.FlatAll.rows {row : Nat} {ts : List Token} (h : FlatAll row ts) :
    ∀ t ∈ ts, t.loc.start.row = row ∧ t.loc.stop.row = row := by
  induction ts with
  | nil => exact List.forall_mem_nil _
  | cons t ts ih =>
    obtain ⟨ht, hts⟩ := flatAll_cons.1 h
    obtain ⟨hstart, hstop, -⟩ := flat_iff.1 ht
    exact List.forall_mem_cons.2 ⟨⟨hstart, hstop⟩, ih hts⟩

section Stretches

variable {column n m : Nat} {s : Scanner} {text a b : List Char} {raw raw' ts : List Token}

/-- A text on one row. -/
theorem stretch_of_line (hlexes : s.Lexes EndsWord text ts false)
    (hspans : (s.locate text).Spans ts)
    (hrows : ∀ t ∈ ts, t.loc.start.row = s.cursor.row ∧ t.loc.stop.row = s.cursor.row)
    (hchained : Chained s.cursor.row ts s.cursor.row) (hline : OneLine text) (hne : text ≠ [])
    (hcol : s.cursor.col = column) : Stretch column s text ts where
  lexes := hlexes
  spans := hspans
  rows := by
    intro t ht
    obtain ⟨hstart, hstop⟩ := hrows t ht
    rw [Cursor.after_line hline, hstart, hstop]
    exact ⟨Nat.le_refl _, Nat.le_refl _⟩
  region := by
    intro c row hc
    obtain ⟨t, us, rfl, hstart⟩ := hspans.exists_head
    have hdedents : dedents c row t = false := by
      have : c < t.loc.start.col := by
        rw [hstart]
        exact hcol ▸ hc
      simp [dedents, this]
    rw [splitRegion, hdedents]
    exact splitRegion_chained c hchained.2.2
  indentable := hline.indentable hne

/-- A stretch begins in the column where its text begins. -/
theorem Stretch.columnOf (h : Stretch column s text raw) (default : Nat) :
    Rules.columnOf default raw = s.cursor.col := by
  obtain ⟨t, us, rfl, hstart⟩ := h.spans.exists_head
  exact congrArg Cursor.col hstart

/-- A stretch and, on the next line and no further to the left, another. -/
theorem Stretch.append (ha : Stretch (n + 1) s a raw)
    (hb : Stretch (m + 1) (s.past (a ++ lineBreak m) true) b raw') (hle : n ≤ m) :
    Stretch (n + 1) s (a ++ lineBreak m ++ b) (raw ++ raw') where
  lexes := by
    have hfirst := ha.lexes.append (lexes_lineBreak (s.past a false) m) fun _ _ =>
      endsWord_cons (by decide) _
    rw [List.append_nil] at hfirst
    exact hfirst.append hb.lexes fun _ _ => trivial
  spans := by
    have hspans := spans_append ha.spans [] hb.spans
    rwa [List.append_nil] at hspans
  rows := by
    intro t ht
    rw [Cursor.after_row, List.count_append, List.count_append]
    rcases List.mem_append.1 ht with ht | ht
    · obtain ⟨hstart, hstop⟩ := ha.rows t ht
      rw [Cursor.after_row] at hstop
      omega
    · obtain ⟨hstart, hstop⟩ := hb.rows t ht
      rw [past_cursor] at hstart hstop
      simp only [Cursor.after_row, List.count_append] at hstart hstop
      omega
  region := fun c row hc => splitRegion_append_nil (ha.region c row hc) fun row' =>
    hb.region c row' (by omega)
  indentable := by
    refine hb.indentable.prepend fun h => ?_
    exact (List.mem_append.1 h).elim ha.indentable.no_return (no_return_lineBreak m)

end Stretches

/-! ## Outlines -/

/-- A stretch whose tokens are laid out between statements in a column, wherever an indented block
around them ends, and put into a sequence with semicolons between the statements. -/
structure Outline (column : Nat) (s : Scanner) (text : List Char) (raw laid tokens : List Token) :
    Prop extends Stretch column s text raw where
  /-- The raw tokens are laid out. -/
  lays : ∀ limit?, arrange ⟨column, limit?⟩ raw = .ok (placeAll laid)
  /-- The sequence begins with a semicolon if a statement is under way on an earlier row. -/
  separated : ∀ row inStatement rest, row < s.cursor.row →
    separate column row inStatement (placeAll laid ++ rest)
      = (if inStatement then [Token.semicolon (Location.point s.cursor)] else [])
        ++ (tokens ++ separate column (s.cursor.after text).row true rest)
  /-- The last token is no semicolon. -/
  ends : ∃ t, tokens.getLast? = some t ∧ t.kind ≠ .semicolon

section Outlines

variable {column n : Nat} {s : Scanner} {text a b : List Char}
  {raw raw' laid laid' tokens tokens' ts : List Token}

/-- Laid-out tokens that are chained are one statement. -/
theorem Stretch.outline (h : Stretch column s text raw)
    (hlays : ∀ limit?, arrange ⟨column, limit?⟩ raw = .ok (placeAll laid))
    (hspans : (s.locate text).Spans laid)
    (hchained : Chained s.cursor.row laid (s.cursor.after text).row) (hcol : s.cursor.col = column) :
    Outline column s text raw laid laid := by
  obtain ⟨t, us, rfl, hstart⟩ := hspans.exists_head
  refine ⟨h, hlays, ?_, hchained.getLast?⟩
  intro row inStatement rest hrow
  have hcolumn : t.loc.start.col = column := by
    rw [hstart]
    exact hcol
  rw [separate_statement hchained hcolumn hrow, hstart]
  rfl

/-- A fragment of a line is a statement. -/
theorem Fragment.outline (h : Fragment s text ts) (hcol : s.cursor.col = column) :
    Outline column s text ts ts ts := by
  have hstretch := stretch_of_line h.piece.lexes h.spans h.piece.flat.rows h.piece.flat.chained
    h.piece.line h.text_ne_nil hcol
  refine hstretch.outline (fun limit? => (flatAll_lays ts h.piece.flat _).arrange) h.spans ?_ hcol
  rw [Cursor.after_line h.piece.line]
  exact h.piece.flat.chained

/-- The sequence of a whole run. -/
theorem Outline.punctuate (h : Outline column s text raw laid tokens) (hrow : 0 < s.cursor.row) :
    punctuate column (placeAll laid) = tokens := by
  have hseparate := h.separated 0 false [] hrow
  rw [List.append_nil, separate, List.append_nil] at hseparate
  obtain ⟨t, hlast, hkind⟩ := h.ends
  rw [Layout.punctuate, hseparate, if_neg Bool.false_ne_true, List.nil_append, dropFinalSemicolon,
    hlast]
  simp [hkind]

/-- An outline and, on the next line and in the same column, another. -/
theorem Outline.append (ha : Outline (n + 1) s a raw laid tokens)
    (hb : Outline (n + 1) (s.past (a ++ lineBreak n) true) b raw' laid' tokens') :
    ∃ l, Outline (n + 1) s (a ++ lineBreak n ++ b) (raw ++ raw') (laid ++ laid')
      (tokens ++ Token.semicolon l :: tokens') := by
  have hcursor : s.cursor.after (a ++ lineBreak n) = ⟨(s.cursor.after a).row + 1, n + 1⟩ := by
    rw [Cursor.after_append, Cursor.after_lineBreak]
  have hends : EndsBefore (n + 1) raw raw' := by
    intro u hu
    obtain ⟨v, vs, rfl, hstart⟩ := hb.spans.exists_head
    cases hu
    have hstart' : u.loc.start = ⟨(s.cursor.after a).row + 1, n + 1⟩ := hstart.trans hcursor
    rw [hstart']
    exact ⟨Nat.le_refl _, fun t ht => Nat.lt_succ_of_le (ha.rows t ht).2⟩
  refine ⟨Location.point (s.past (a ++ lineBreak n) true).cursor,
    ha.toStretch.append hb.toStretch (Nat.le_refl n), ?_, ?_, ?_⟩
  · intro limit?
    rw [arrange_append hends (ha.lays limit?), hb.lays limit?, placeAll_append]
    rfl
  · intro row inStatement rest hrow
    have hrow' : (s.cursor.after a).row < (s.past (a ++ lineBreak n) true).cursor.row := by
      rw [past_cursor, hcursor]
      exact Nat.lt_succ_self _
    rw [placeAll_append, List.append_assoc, ha.separated _ _ _ hrow, hb.separated _ _ _ hrow',
      if_pos rfl, past_cursor, ← Cursor.after_append, List.append_assoc tokens]
    rfl
  · obtain ⟨t, hlast, hkind⟩ := hb.ends
    refine ⟨t, ?_, hkind⟩
    rw [List.getLast?_append, List.getLast?_cons, hlast]
    rfl

/-! ## Indented blocks -/

/-- The token of a `do` before what it takes. -/
def Scanner.doToken (s : Scanner) : Token := Token.block .indented (s.locate blockWord.toList) []

theorem Scanner.lexes_do (s : Scanner) :
    s.Lexes EndsWord blockWord.toList [s.doToken] false :=
  lexes_word s (by decide) (List.forall_mem_singleton.2 (by decide))

theorem Scanner.doToken_blockKind? (s : Scanner) : s.doToken.blockKind? = some .indented :=
  block_blockKind? _ _ _

theorem Scanner.doToken_row (s : Scanner) : s.doToken.loc.stop.row = s.cursor.row := by
  show (s.cursor.after blockWord.toList).row = _
  rw [Cursor.after_line (by decide)]

/-- The token of a `do` that has taken a region and has some interior. -/
def Scanner.doBlock (s : Scanner) (region interior : List Token) : Token :=
  { s.doToken with
    loc := region.getLast?.elim s.doToken.loc fun last => s.doToken.loc.join last.loc
    children := interior }

theorem Scanner.doBlock_isBodyOf (s : Scanner) (region interior : List Token) :
    (s.doBlock region interior).IsBodyOf interior :=
  isBodyOf_indented (t := s.doBlock region interior) s.doToken_blockKind?

/-- A token with others on later rows begins where it began and ends with the last of them. -/
theorem joined_region {t : Token} {region : List Token} {stop : Cursor}
    (hlater : ∀ u ∈ region, t.loc.stop.row < u.loc.start.row)
    (hlast : (t :: region).getLast?.map (·.loc.stop) = some stop) :
    (region.getLast?.elim t.loc fun last => t.loc.join last.loc).start = t.loc.start ∧
      (region.getLast?.elim t.loc fun last => t.loc.join last.loc).stop = stop := by
  rw [List.getLast?_cons] at hlast
  cases hregion : region.getLast? with
  | none =>
    rw [hregion] at hlast
    exact ⟨rfl, Option.some.inj hlast⟩
  | some last =>
    rw [hregion] at hlast
    have hrow := hlater last (List.mem_of_getLast? hregion)
    have ht := t.loc.start_le_stop
    have hlast' := last.loc.start_le_stop
    rw [Option.elim_some, ← Option.some.inj hlast]
    rw [Cursor.le_def] at ht hlast'
    exact ⟨Location.join_start (Cursor.le_def.2 (by omega)),
      Location.join_stop (Cursor.le_def.2 (by omega))⟩

/-- What stands before a `do` on its line. -/
structure Header (s : Scanner) (text : List Char) (ts : List Token) : Prop where
  /-- The text is read as the tokens, whatever follows, and separates the `do` from them. -/
  piece : Piece Anything s text ts true
  /-- The first token, or else the `do`, is where the text begins. -/
  begins : (ts ++ [(s.past text true).doToken]).head?.map (·.loc.start) = some s.cursor

/-- A `do` that begins its line. -/
theorem header_nil (hs : s.separated = true) : Header s [] [] where
  piece := hs ▸ Piece.empty s
  begins := rfl

theorem Fragment.header (h : Fragment s a ts) : Header s (a ++ [' ']) ts where
  piece := by
    have hpiece := h.piece.append (Piece.blank _) fun _ _ => endsWord_cons (by decide) _
    rwa [List.append_nil] at hpiece
  begins := by
    obtain ⟨t, us, rfl, hstart⟩ := h.spans.exists_head
    exact congrArg some hstart

/-- A line that ends with a `do`. -/
theorem Header.stretch (h : Header s a ts) (hcol : s.cursor.col = column) :
    Stretch column s (a ++ blockWord.toList) (ts ++ [(s.past a true).doToken]) := by
  have hrow : (s.past a true).cursor.row = s.cursor.row := h.piece.row true
  have hstop : (s.past a true).doToken.loc.stop.row = s.cursor.row := (doToken_row _).trans hrow
  refine stretch_of_line (h.piece.lexes.append (lexes_do _) fun _ _ => trivial) ⟨h.begins, ?_⟩ ?_
    (h.piece.flat.chained.append ⟨hrow, TokenKind.noConfusion, hstop⟩)
    (oneLine_append.2 ⟨h.piece.line, by decide⟩) (fun h => absurd (List.append_eq_nil_iff.1 h).2
      (by decide)) hcol
  · rw [List.getLast?_concat]
    show some ((s.cursor.after a).after blockWord.toList) = some (s.cursor.after _)
    rw [Cursor.after_append]
  · intro t ht
    rcases List.mem_append.1 ht with ht | ht
    · exact h.piece.flat.rows t ht
    · cases List.mem_singleton.1 ht
      exact ⟨hrow, hstop⟩

/-- A `do` that takes the tokens after it, up to the end of the text. -/
theorem Header.outline {region : List Token} {run : List Placed} (h : Header s a ts)
    (hstretch : Stretch (n + 1) s text (ts ++ (s.past a true).doToken :: region))
    (hregion : ∀ row, (splitRegion (n + 1) row region).2 = [])
    (hrun : arrange ⟨max (Rules.columnOf (n + 1) region) (n + 1), some (n + 1)⟩ region = .ok run)
    (hlater : ∀ t ∈ region, s.cursor.row < t.loc.start.row) (hcol : s.cursor.col = n + 1)
    {block : Token} (hblock : block = (s.past a true).doBlock region
      (Layout.punctuate (max (Rules.columnOf (n + 1) region) (n + 1)) run)) :
    Outline (n + 1) s text (ts ++ (s.past a true).doToken :: region) (ts ++ [block])
      (ts ++ [block]) := by
  have hrow : (s.past a true).cursor.row = s.cursor.row := h.piece.row true
  have hlast : ((s.past a true).doToken :: region).getLast?.map (·.loc.stop)
      = some (s.cursor.after text) := by
    have hspans := hstretch.spans.2
    rw [List.getLast?_append, List.getLast?_cons, Option.some_or] at hspans
    rw [List.getLast?_cons]
    exact hspans
  -- the block begins with the `do` and ends with the text
  obtain ⟨hstart, hstop⟩ := joined_region (fun t ht => (doToken_row _).trans hrow ▸ hlater t ht) hlast
  have hlays : ∀ limit?, arrange ⟨n + 1, limit?⟩ (ts ++ (s.past a true).doToken :: region)
      = .ok (placeAll (ts ++ [block])) := by
    intro limit?
    have hdo := arrange_do (r := ⟨n + 1, limit?⟩) (doToken_blockKind? (s.past a true)) rfl
      (hregion _) hrun
    rw [flatAll_lays ts h.piece.flat, hdo, hblock, placeAll_append, placeAll_cons, doBlock, hstart]
    rfl
  have hspans : (s.locate text).Spans (ts ++ [block]) := by
    subst hblock
    constructor
    · have hbegins := h.begins
      cases ts with
      | nil => exact (congrArg some hstart).trans hbegins
      | cons t ts => exact hbegins
    · rw [List.getLast?_concat]
      exact congrArg some hstop
  have hchained : Chained s.cursor.row (ts ++ [block]) (s.cursor.after text).row := by
    subst hblock
    exact h.piece.flat.chained.append ⟨(congrArg Cursor.row hstart).trans hrow,
      TokenKind.noConfusion, congrArg Cursor.row hstop⟩
  exact hstretch.outline hlays hspans hchained hcol

end Outlines

/-! ## Printed blocks -/

section Printed

variable {α : Type} {text : α → String} {R : List Token → α → Prop} {as : List α}

/-- Wherever a line begins, however far to the right, an item is printed as an outline that is related
to it. -/
def OutlinedAnywhere (text : α → String) (R : List Token → α → Prop) (a : α) : Prop :=
  ∀ n s, s.separated = true → s.cursor.col = n + 1 →
    ∃ raw laid tokens, Outline (n + 1) s (shiftBy n (text a).toList) raw laid tokens ∧ R tokens a

/-- What is printed on one line is an outline wherever it stands. -/
theorem PrintsAs.outlined {a : α} (h : PrintsAs text R a) : OutlinedAnywhere text R a := by
  intro n s hs hcol
  obtain ⟨ts, hfragment, hR⟩ := h s hs
  rw [shiftBy_oneLine n hfragment.piece.line]
  exact ⟨ts, ts, ts, hfragment.outline hcol, hR⟩

/-- Items on lines of their own. -/
theorem lines_outlined {a : α} (h : ∀ b ∈ a :: as, OutlinedAnywhere text R b) (n : Nat)
    (s : Scanner) (hs : s.separated = true) (hcol : s.cursor.col = n + 1) :
    ∃ raw laid tokens b, Outline (n + 1) s
        (shiftBy n ("\n".intercalate ((a :: as).map text)).toList) raw laid tokens ∧
      Separated .semicolon R b tokens (a :: as) := by
  rw [shiftBy_intercalate]
  induction as generalizing a s with
  | nil =>
    obtain ⟨raw, laid, tokens, houtline, hR⟩ := List.forall_mem_singleton.1 h n s hs hcol
    rw [List.flatMap_nil, List.append_nil]
    exact ⟨raw, laid, tokens, false, houtline, .last hR⟩
  | cons b bs ih =>
    obtain ⟨ha, has⟩ := List.forall_mem_cons.1 h
    obtain ⟨raw, laid, tokens, houtline, hR⟩ := ha n s hs hcol
    have hcol' : (s.past (shiftBy n (text a).toList ++ lineBreak n) true).cursor.col = n + 1 := by
      rw [past_cursor, Cursor.after_append, Cursor.after_lineBreak]
    obtain ⟨raw', laid', tokens', b', hothers, hitems⟩ := ih has
      (s.past (shiftBy n (text a).toList ++ lineBreak n) true) rfl hcol'
    obtain ⟨l, hall⟩ := houtline.append hothers
    rw [List.flatMap_cons, List.append_assoc (lineBreak n), ← List.append_assoc (shiftBy n _)]
    exact ⟨_, _, _, true, hall, .more hR rfl hitems⟩

/-- Items on lines of their own after a `do`. -/
theorem do_outlined (h : ∀ a ∈ as, OutlinedAnywhere text R a) {n : Nat} {s : Scanner}
    {header : List Char} {ts : List Token} (hheader : Header s header ts)
    (hcol : s.cursor.col = n + 1) :
    ∃ raw block inner b, Outline (n + 1) s
        (header ++ shiftBy n (doText ("\n".intercalate (as.map text))).toList) raw (ts ++ [block])
        (ts ++ [block]) ∧
      block.IsBodyOf inner ∧ Separated .semicolon R b inner as := by
  cases as with
  | nil =>
    have houtline := hheader.outline (hheader.stretch hcol) (fun _ => rfl) (arrange_nil _)
      (List.forall_mem_nil _) hcol rfl
    have htext : shiftBy n (doText ("\n".intercalate (([] : List α).map text))).toList
        = blockWord.toList := by
      rw [List.map_nil, String.intercalate_nil, toList_doText_nil]
      exact shiftBy_oneLine n (by decide)
    rw [htext]
    exact ⟨_, _, [], false, houtline, doBlock_isBodyOf _ _ _, .nil⟩
  | cons a as =>
    -- the body is a text that can be indented, wherever it stands
    obtain ⟨_, _, _, _, hfirst, -⟩ := lines_outlined h 0 Scanner.initial rfl rfl
    have hbody := hfirst.indentable
    rw [shiftBy_zero] at hbody
    have hcol' : (s.past (header ++ blockWord.toList ++ lineBreak (n + 4)) true).cursor.col
        = n + 5 := by
      rw [past_cursor, Cursor.after_append, Cursor.after_lineBreak]
    obtain ⟨raw, laid, tokens, b, hlines, hitems⟩ := lines_outlined h (n + 4)
      (s.past (header ++ blockWord.toList ++ lineBreak (n + 4)) true) rfl hcol'
    have hcolumn : max (Rules.columnOf (n + 1) raw) (n + 1) = n + 5 := by
      rw [hlines.columnOf, hcol']
      omega
    have hrow : s.cursor.row
        < (s.past (header ++ blockWord.toList ++ lineBreak (n + 4)) true).cursor.row := by
      rw [past_cursor, Cursor.after_append, Cursor.after_lineBreak, Cursor.after_row]
      exact Nat.lt_succ_of_le (Nat.le_add_right _ _)
    have hstretch := (hheader.stretch hcol).append hlines.toStretch (Nat.le_add_right n 4)
    rw [List.append_assoc ts, List.singleton_append] at hstretch
    have houtline := hheader.outline hstretch (fun row => hlines.region _ row (by omega))
      (by rw [hcolumn]; exact hlines.lays _)
      (fun t ht => Nat.lt_of_lt_of_le hrow (hlines.rows t ht).1) hcol rfl
    rw [hcolumn, hlines.punctuate (Nat.lt_of_le_of_lt (Nat.zero_le _) hrow)] at houtline
    rw [shiftBy_doText n hbody, ← List.append_assoc, ← List.append_assoc]
    exact ⟨_, _, tokens, b, houtline, doBlock_isBodyOf _ _ _, hitems⟩

/-- The tokens of a whole text of such items have semicolons between the items. -/
theorem laidOut_of_outlined (h : ∀ a ∈ as, OutlinedAnywhere text R a) :
    ∃ raw tokens b, Token.ofSource ("\n".intercalate (as.map text)) = .ok raw ∧
      Layout.layout raw = .ok tokens ∧ Separated .semicolon R b tokens as := by
  cases as with
  | nil =>
    rw [List.map_nil, String.intercalate_nil]
    exact ⟨[], [], false, ofSource_empty, Layout.layout_flat (flatAll_nil 1), .nil⟩
  | cons a as =>
    obtain ⟨raw, laid, tokens, b, houtline, hitems⟩ := lines_outlined h 0 initial rfl rfl
    rw [shiftBy_zero] at houtline
    refine ⟨raw, tokens, b, houtline.lexes.ofSource endsWord_nil, ?_, hitems⟩
    rw [Layout.layout, houtline.columnOf]
    simp only [initial, Cursor.origin, houtline.lays, Except.map, houtline.punctuate Nat.one_pos]

end Printed

end Offside
