import Offside.Proofs.Printing.Lists

/-!
# Passages over several lines

Printed statements go over several lines, and the tokens of their blocks change when they are laid
out.

* `lineBreak`, `shiftBy`: a line end with the indentation of the next line; a text with all its lines
  but the first moved to the right. `toList_indented`: an indented text is a shifted one.
* `Passage`: a text that is read as some tokens, which are laid out as others. `Passage.spaced`,
  `block_passage`: passages with a space between them, and a block.
* `Lines`, `lines_of_printsLines`: statements on lines of their own, between which layout puts
  semicolons. `laidOut_of_printsLines`: a whole text of them; `block_printed`: a block of them.
-/

namespace Offside

open Token Layout Scanner Printing Parse

/-! ## Line ends -/

/-- Spaces. -/
def spaces (n : Nat) : List Char := List.replicate n ' '

/-- The end of a line and the indentation of the next. -/
def lineBreak (n : Nat) : List Char := '\n' :: spaces n

theorem Scanner.lexes_spaces (s : Scanner) (n : Nat) (hs : s.separated = true) :
    Lexes Anything s (spaces n) [] true := by
  induction n generalizing s with
  | zero =>
    intro rest _ inBackticks groups before
    show s.trees inBackticks groups before rest
      = (s.past [] true).trees inBackticks groups before rest
    rw [← hs]
    rfl
  | succ n ih => exact (lexes_blank s).append (ih (s.past [' '] true) rfl) fun _ _ => trivial

/-- A line break separates. -/
theorem Scanner.lexes_lineBreak (s : Scanner) (n : Nat) : Lexes Anything s (lineBreak n) [] true :=
  (lexes_lineFeed s).append (lexes_spaces (s.past ['\n'] true) n rfl) fun _ _ => trivial

theorem Cursor.after_spaces (a : Cursor) (n : Nat) : a.after (spaces n) = ⟨a.row, a.col + n⟩ := by
  have hline : OneLine (spaces n) := by
    intro c hc
    rw [List.eq_of_mem_replicate hc]
    decide
  rw [after_line hline, spaces, List.length_replicate]

/-- A line break moves to the next row. -/
@[simp] theorem Cursor.after_lineBreak (a : Cursor) (n : Nat) :
    a.after (lineBreak n) = ⟨a.row + 1, n + 1⟩ := by
  rw [lineBreak, after_cons, after_spaces]
  show (⟨a.row + 1, 1 + n⟩ : Cursor) = _
  rw [Nat.add_comm 1 n]

/-! ## Shifted texts -/

/-- A text with all its lines but the first moved to the right. -/
def shiftBy (n : Nat) (text : List Char) : List Char :=
  text.flatMap fun c => if c = '\n' then lineBreak n else [c]

theorem shiftBy_append (n : Nat) (a b : List Char) :
    shiftBy n (a ++ b) = shiftBy n a ++ shiftBy n b := List.flatMap_append

theorem shiftBy_cons (n : Nat) (c : Char) (a : List Char) :
    shiftBy n (c :: a) = (if c = '\n' then lineBreak n else [c]) ++ shiftBy n a := rfl

/-- A single line is not moved. -/
theorem shiftBy_oneLine (n : Nat) {text : List Char} (h : OneLine text) : shiftBy n text = text := by
  induction text with
  | nil => rfl
  | cons c text ih =>
    have hc : c ≠ '\n' := fun hc => h.lineFeed (hc ▸ List.mem_cons_self)
    rw [shiftBy_cons, if_neg hc, ih (oneLine_cons.1 h).2]
    rfl

theorem shiftBy_lineBreak (m n : Nat) : shiftBy m (lineBreak n) = lineBreak (m + n) := by
  have hspaces : OneLine (spaces n) := by
    intro c hc
    rw [List.eq_of_mem_replicate hc]
    decide
  rw [lineBreak, shiftBy_cons, if_pos rfl, shiftBy_oneLine m hspaces, lineBreak, lineBreak, spaces,
    spaces, spaces, List.cons_append, List.replicate_append_replicate]

/-- Shifts add up. -/
theorem shiftBy_shiftBy (m n : Nat) (text : List Char) :
    shiftBy m (shiftBy n text) = shiftBy (m + n) text := by
  induction text with
  | nil => rfl
  | cons c text ih =>
    rw [shiftBy_cons, shiftBy_append, ih, shiftBy_cons]
    by_cases hc : c = '\n'
    · rw [if_pos hc, if_pos hc, shiftBy_lineBreak]
    · rw [if_neg hc, if_neg hc, shiftBy_cons, if_neg hc]
      rfl

theorem shiftBy_zero (text : List Char) : shiftBy 0 text = text := by
  induction text with
  | nil => rfl
  | cons c text ih =>
    rw [shiftBy_cons, ih]
    by_cases hc : c = '\n'
    · rw [if_pos hc, hc]
      rfl
    · rw [if_neg hc]
      rfl

/-- A text whose lines can be indented: it has no line end but line feeds, and does not end in one. -/
structure Indentable (text : List Char) : Prop where
  nonempty : text ≠ []
  no_return : '\r' ∉ text
  last : text.getLast? ≠ some '\n'

theorem Indentable.tail {c : Char} {text : List Char} (h : Indentable (c :: text))
    (hne : text ≠ []) : Indentable text where
  nonempty := hne
  no_return := fun hmem => h.no_return (List.mem_cons_of_mem c hmem)
  last := by
    have hlast := h.last
    obtain ⟨d, ds, rfl⟩ := List.exists_cons_of_ne_nil hne
    rwa [List.getLast?_cons_cons] at hlast

/-- A text before an indentable one. -/
theorem Indentable.prepend {a b : List Char} (hb : Indentable b) (ha : '\r' ∉ a) :
    Indentable (a ++ b) where
  nonempty := fun h => hb.nonempty (List.append_eq_nil_iff.1 h).2
  no_return := fun h => (List.mem_append.1 h).elim ha hb.no_return
  last := by
    obtain ⟨c, hc⟩ := Option.isSome_iff_exists.1 (List.getLast?_isSome.2 hb.nonempty)
    have hlast := hb.last
    rw [hc] at hlast
    rw [List.getLast?_append, hc]
    exact hlast

theorem OneLine.no_return {text : List Char} (h : OneLine text) : '\r' ∉ text :=
  fun hmem => absurd (h _ hmem) (by decide)

theorem OneLine.indentable {text : List Char} (h : OneLine text) (hne : text ≠ []) :
    Indentable text where
  nonempty := hne
  no_return := h.no_return
  last := fun hlast => h.lineFeed (List.mem_of_getLast? hlast)

theorem no_return_lineBreak (n : Nat) : '\r' ∉ lineBreak n := by
  intro h
  rcases List.mem_cons.1 h with h | h
  · cases h
  · cases List.eq_of_mem_replicate h

/-- Every line of a text, indented and ended by a line feed. -/
theorem flatMap_splitLines {text : List Char} (h : Indentable text) :
    ((Text.splitLines text).flatMap fun line => spaces 4 ++ line ++ ['\n'])
      = spaces 4 ++ shiftBy 4 text ++ ['\n'] := by
  induction text with
  | nil => exact absurd rfl h.nonempty
  | cons c rest ih =>
    by_cases hc : c = '\n'
    · subst hc
      have hne : rest ≠ [] := by
        rintro rfl
        exact h.last rfl
      rw [Text.splitLines, List.flatMap_cons, ih (h.tail hne), shiftBy_cons, if_pos rfl, lineBreak]
      simp
    · have hreturn : c ≠ '\r' := fun hr => h.no_return (hr ▸ List.mem_cons_self)
      rw [Text.splitLines.eq_4 c rest hc fun _ hr _ => hreturn hr, shiftBy_cons, if_neg hc]
      by_cases hne : rest = []
      · subst hne
        rfl
      · have hrest := ih (h.tail hne)
        cases hsplit : Text.splitLines rest with
        | nil =>
          rw [hsplit] at hrest
          simp at hrest
        | cons line others =>
          rw [hsplit, List.flatMap_cons, List.append_assoc, List.append_assoc, List.append_assoc,
            List.append_right_inj] at hrest
          rw [List.flatMap_cons]
          simp only [List.append_assoc, List.cons_append, List.nil_append] at hrest ⊢
          rw [hrest]

/-- An indented text is a shifted one. -/
theorem toList_indented {text : String} (h : Indentable text.toList) :
    (Text.indented text).toList = spaces 4 ++ shiftBy 4 text.toList ++ ['\n'] := by
  rw [← flatMap_splitLines h, Text.indented, String.toList_join, Text.lines, List.map_map,
    List.flatMap_map]
  congr 1
  funext line
  simp [spaces]

/-! ## Passages -/

/-- A text that is read as the tokens `raw`, which are laid out as `laid` between statements in a
column. -/
structure Passage (column : Nat) (s : Scanner) (text : List Char) (raw laid : List Token) : Prop where
  /-- The text is read as the raw tokens, unless a word goes on after it. -/
  lexes : s.Lexes EndsWord text raw false
  /-- The raw tokens are laid out. -/
  lays : Lays ⟨column, none⟩ raw laid
  /-- The laid-out tokens begin where the raw ones begin. -/
  begins : raw.head?.map Token.loc = laid.head?.map Token.loc
  /-- The laid-out tokens span the text. -/
  spans : (s.locate text).Spans laid
  /-- Each of them begins on the row where the one before it ends. -/
  chained : Chained s.cursor.row laid (s.cursor.after text).row
  /-- The text can be indented. -/
  indentable : Indentable text

/-- The text of a fragment is not empty. -/
theorem Fragment.text_ne_nil {s : Scanner} {text : List Char} {ts : List Token}
    (h : Fragment s text ts) : text ≠ [] := by
  rintro rfl
  have htrees := h.piece.lexes [] endsWord_nil false [] []
  rw [List.append_nil, trees_nil, trees_nil, List.append_nil, List.reverse_reverse] at htrees
  cases htrees
  exact h.spans.ne_nil rfl

/-- A fragment of a line stays as it is. -/
theorem Fragment.passage {s : Scanner} {text : List Char} {ts : List Token} (h : Fragment s text ts)
    (column : Nat) : Passage column s text ts ts where
  lexes := h.piece.lexes
  lays := flatAll_lays ts h.piece.flat _
  begins := rfl
  spans := h.spans
  chained := by
    rw [Cursor.after_line h.piece.line]
    exact h.piece.flat.chained
  indentable := h.piece.line.indentable h.text_ne_nil

/-- Two passages with a space between them. -/
theorem Passage.spaced {column : Nat} {s : Scanner} {a b : List Char} {raw laid raw' laid' : List Token}
    (ha : Passage column s a raw laid) (hb : Passage column (s.past (a ++ [' ']) true) b raw' laid') :
    Passage column s (a ++ [' '] ++ b) (raw ++ raw') (laid ++ laid') where
  lexes := by
    have hblank := (ha.lexes.append (lexes_blank (s.past a false)) fun _ _ =>
      endsWord_cons (by decide) _)
    rw [List.append_nil] at hblank
    exact hblank.append hb.lexes fun _ _ => trivial
  lays := ha.lays.append hb.lays
  begins := by
    obtain ⟨t, us, rfl, -⟩ := ha.spans.exists_head
    cases raw with
    | nil => cases ha.begins
    | cons r rs => exact ha.begins
  spans := by
    have hspans := spans_append ha.spans [] hb.spans
    rwa [List.append_nil] at hspans
  chained := by
    have hrow : (s.past (a ++ [' ']) true).cursor.row = (s.cursor.after a).row := by
      rw [past_cursor, Cursor.after_append]
      rfl
    have hchained := hb.chained
    rw [hrow, past_cursor, ← Cursor.after_append] at hchained
    exact ha.chained.append hchained
  indentable := by
    refine hb.indentable.prepend fun h => ?_
    rcases List.mem_append.1 h with h | h
    · exact ha.indentable.no_return h
    · cases List.mem_singleton.1 h

/-- A fragment and a passage that is moved to the right, with a space between them. -/
theorem Fragment.spaced_passage {n : Nat} {s : Scanner} {a b : List Char} {ts raw laid : List Token}
    (ha : Fragment s a ts)
    (hb : Passage (n + 1) (s.past (a ++ [' ']) true) (shiftBy n b) raw laid) :
    Passage (n + 1) s (shiftBy n (a ++ [' '] ++ b)) (ts ++ raw) (ts ++ laid) := by
  rw [shiftBy_append, shiftBy_append, shiftBy_oneLine n ha.piece.line, shiftBy_oneLine n (by decide)]
  exact (ha.passage _).spaced hb

/-! ## Blocks -/

/-- A brace in the column of the statements around it may close there. -/
theorem checkBrace_eq {n : Nat} {t : Token} (h : t.loc.stop.col = n + 2) :
    (⟨n + 1, none⟩ : Rules).checkBrace t = .ok () := by
  obtain ⟨close, hclose, hstart⟩ := Location.lastChar?_start (l := t.loc) (by omega)
  have hcol : ¬ close.start.col < n + 1 := by
    rw [hstart, h]
    exact Nat.not_lt.2 (Nat.le_max_left _ _)
  rw [Rules.checkBrace]
  simp only [hclose, Option.any_none, Bool.false_eq_true, if_false, hcol, ite_self]

/-- Statements in braces, on lines of their own. -/
theorem block_passage {n : Nat} {s : Scanner} {body : List Char} {raw laid : List Token}
    (hlexes : (s.past ('\x7b' :: lineBreak (n + 4)) true).Lexes EndsWord body raw false)
    (hlays : Lays ⟨n + 5, none⟩ raw laid) (hcol : Rules.columnOf (n + 1) raw = n + 5)
    (hreturn : '\r' ∉ body) :
    ∃ t t', Passage (n + 1) s
        ('\x7b' :: (lineBreak (n + 4) ++ body ++ lineBreak n ++ ['\x7d'])) [t] [t'] ∧
      t'.IsGroup .brace (punctuate (n + 5) (placeAll laid)) := by
  have hinner : (s.past ['\x7b'] true).Lexes EndsWord (lineBreak (n + 4) ++ body ++ lineBreak n) raw
      true := by
    have hfirst := (lexes_lineBreak (s.past ['\x7b'] true) (n + 4)).append
      (show ((s.past ['\x7b'] true).past (lineBreak (n + 4)) true).Lexes EndsWord body raw false by
        rw [past_past]
        exact hlexes) fun _ _ => trivial
    have hlast := hfirst.append (lexes_lineBreak _ n) fun _ _ => endsWord_cons (by decide) _
    rw [List.nil_append, List.append_nil] at hlast
    exact hlast.of_anything
  have hgroup := lexes_group s (show Bracket.brace ≠ .backtick by decide) hinner
  simp only [Bracket.opener, Bracket.closer] at hgroup
  have hstop : (s.cursor.after ('\x7b' :: (lineBreak (n + 4) ++ body ++ lineBreak n
      ++ ['\x7d']))).col = n + 2 := by
    rw [Cursor.after_cons, Cursor.after_append, Cursor.after_append, Cursor.after_lineBreak]
    rfl
  have hindentable : Indentable ('\x7b' :: (lineBreak (n + 4) ++ body ++ lineBreak n
      ++ ['\x7d'])) := by
    rw [← List.cons_append]
    refine OneLine.indentable (by decide) (by decide) |>.prepend fun h => ?_
    simp only [List.mem_cons, List.mem_append] at h
    rcases h with h | (h | h) | h
    · cases h
    · exact no_return_lineBreak _ h
    · exact hreturn h
    · exact no_return_lineBreak _ h
  generalize '\x7b' :: (lineBreak (n + 4) ++ body ++ lineBreak n ++ ['\x7d']) = text at *
  let t : Token := Token.block (.bracketed .brace) (s.locate text) raw
  have hkind : t.blockKind? = some (.bracketed .brace) := block_blockKind? _ _ _
  have hlaid : Lays ⟨n + 1, none⟩ [t] [{ t with children := punctuate (n + 5) (placeAll laid) }] := by
    have hcolumn : Rules.columnOf (n + 1) t.children = n + 5 := hcol
    rw [← hcolumn]
    refine lays_brace hkind (checkBrace_eq hstop) ?_
    show Lays ⟨Rules.columnOf (n + 1) t.children, none⟩ t.children laid
    rw [hcolumn]
    exact hlays
  have hcol' : t.loc.stop.col ≠ 0 := by
    show (s.cursor.after text).col ≠ 0
    omega
  refine ⟨t, { t with children := punctuate (n + 5) (placeAll laid) }, ?_, hkind, hcol', rfl⟩
  exact ⟨hgroup.of_anything, hlaid, rfl, ⟨rfl, rfl⟩, ⟨rfl, TokenKind.noConfusion, rfl⟩, hindentable⟩

/-! ## Lines -/

/-- A text between two statements that moves to a later row and to a column. -/
structure Breaks (column : Nat) (text : List Char) : Prop where
  lexes : ∀ s : Scanner, s.Lexes Anything text [] true
  ends : ∀ rest, EndsWord (text ++ rest)
  row : ∀ a : Cursor, a.row < (a.after text).row
  col : ∀ a : Cursor, (a.after text).col = column
  no_return : '\r' ∉ text

theorem breaks_lineBreak (n : Nat) : Breaks (n + 1) (lineBreak n) where
  lexes := fun s => lexes_lineBreak s n
  ends := fun _ => endsWord_cons (by decide) _
  row := fun a => by rw [Cursor.after_lineBreak]; exact Nat.lt_succ_self _
  col := fun a => by rw [Cursor.after_lineBreak]
  no_return := no_return_lineBreak n

/-- An empty line between two statements. -/
theorem breaks_emptyLine : Breaks 1 ['\n', '\n'] where
  lexes := fun s => (lexes_lineFeed s).append (lexes_lineFeed _) fun _ _ => trivial
  ends := fun _ => endsWord_cons (by decide) _
  row := fun a => Nat.lt_succ_of_lt (Nat.lt_succ_self _)
  col := fun _ => rfl
  no_return := by decide

/-- Statements on lines of their own are read, laid out, and put into a sequence with semicolons
between them. -/
structure Lines (column : Nat) (s : Scanner) (text : List Char) {α : Type}
    (R : List Token → α → Prop) (as : List α) (raw laid tokens : List Token) : Prop where
  /-- The text is read as the raw tokens, unless a word goes on after it. -/
  lexes : s.Lexes EndsWord text raw false
  /-- The raw tokens are laid out. -/
  lays : Lays ⟨column, none⟩ raw laid
  /-- The first raw token is where the text begins. -/
  begins : raw.head?.map (·.loc.start) = some s.cursor
  /-- The sequence has semicolons between the statements, and one before them if a statement is under
  way on an earlier row. -/
  separated : ∀ row inStatement, row < s.cursor.row → ∃ mark,
    separate column row inStatement (placeAll laid) = mark ++ tokens ∧
      if inStatement then ∃ l, mark = [Token.semicolon l] else mark = []
  /-- The last token is no semicolon. -/
  ends : ∃ t, tokens.getLast? = some t ∧ t.kind ≠ .semicolon
  /-- The statements of the sequence are related to their tokens. -/
  items : ∃ b, Separated .semicolon R b tokens as
  /-- The text can be indented. -/
  indentable : Indentable text

theorem Lines.punctuate {column : Nat} {s : Scanner} {text : List Char} {α : Type}
    {R : List Token → α → Prop} {as : List α} {raw laid tokens : List Token}
    (h : Lines column s text R as raw laid tokens) (hrow : 0 < s.cursor.row) :
    punctuate column (placeAll laid) = tokens := by
  obtain ⟨mark, hseparate, rfl⟩ := h.separated 0 false hrow
  obtain ⟨t, hlast, hkind⟩ := h.ends
  rw [Layout.punctuate, hseparate, List.nil_append, dropFinalSemicolon, hlast]
  simp [hkind]

/-- A last token of a chain is no semicolon. -/
theorem Token.Chained.getLast? {a b : Nat} {t : Token} {ts : List Token} (h : Chained a (t :: ts) b) :
    ∃ u, (t :: ts).getLast? = some u ∧ u.kind ≠ .semicolon := by
  induction ts generalizing a t with
  | nil => exact ⟨t, rfl, h.2.1⟩
  | cons u us ih =>
    rw [List.getLast?_cons_cons]
    exact ih h.2.2

section Lines

variable {α : Type} {text : α → List Char} {R : List Token → α → Prop} {column : Nat}

/-- Wherever a line begins in a column, an item is printed as a passage that is related to it. -/
def PrintsLines (column : Nat) (text : α → List Char) (R : List Token → α → Prop) (a : α) : Prop :=
  ∀ s : Scanner, s.separated = true → s.cursor.col = column →
    ∃ raw laid, Passage column s (text a) raw laid ∧ R laid a

/-- One statement. -/
theorem Passage.lines {s : Scanner} {a : α} {raw laid : List Token}
    (h : Passage column s (text a) raw laid) (hcol : s.cursor.col = column) (hR : R laid a) :
    Lines column s (text a) R [a] raw laid laid := by
  obtain ⟨t, us, rfl, hstart⟩ := h.spans.exists_head
  refine ⟨h.lexes, h.lays, ?_, ?_, h.chained.getLast?, ⟨false, .last hR⟩, h.indentable⟩
  · have hbegins := congrArg (Option.map Location.start) h.begins
    rw [Option.map_map, Option.map_map] at hbegins
    exact hbegins.trans (congrArg some hstart)
  · intro row inStatement hrow
    have hcolumn : t.loc.start.col = column := by
      rw [hstart]
      exact hcol
    have hseparate := separate_statement h.chained hcolumn hrow inStatement []
    rw [List.append_nil, separate, List.append_nil] at hseparate
    refine ⟨_, hseparate, ?_⟩
    cases inStatement
    · rfl
    · exact ⟨_, rfl⟩

/-- One statement and others after it. -/
theorem Passage.lines_cons {s : Scanner} {a : α} {as : List α} {between rest : List Char}
    {raw laid raw' laid' tokens : List Token} (h : Passage column s (text a) raw laid)
    (hcol : s.cursor.col = column) (hR : R laid a) (hbetween : Breaks column between)
    (hothers : Lines column (s.past (text a ++ between) true) rest R as raw' laid' tokens) :
    ∃ tokens', Lines column s (text a ++ between ++ rest) R (a :: as) (raw ++ raw') (laid ++ laid')
      tokens' := by
  obtain ⟨t, us, rfl, hstart⟩ := h.spans.exists_head
  have hcolumn : t.loc.start.col = column := by
    rw [hstart]
    exact hcol
  have hrow : (s.cursor.after (text a)).row < (s.past (text a ++ between) true).cursor.row := by
    rw [past_cursor, Cursor.after_append]
    exact hbetween.row _
  obtain ⟨mark, hseparate, l, rfl⟩ := hothers.separated _ true hrow
  obtain ⟨last, hlast, hkind⟩ := hothers.ends
  obtain ⟨b, hitems⟩ := hothers.items
  refine ⟨t :: us ++ Token.semicolon l :: tokens, ?_, h.lays.append hothers.lays, ?_, ?_,
    ⟨last, ?_, hkind⟩, ⟨true, .more hR rfl hitems⟩, hothers.indentable.prepend ?_⟩
  · have hfirst := h.lexes.append (hbetween.lexes _) fun rest _ => hbetween.ends rest
    rw [List.append_nil] at hfirst
    exact hfirst.append hothers.lexes fun _ _ => trivial
  · cases raw with
    | nil => cases h.begins
    | cons r rs =>
      have hbegins := congrArg (Option.map Location.start) h.begins
      rw [Option.map_map, Option.map_map] at hbegins
      exact hbegins.trans (congrArg some hstart)
  · intro row inStatement hrow'
    have hfirst := separate_statement h.chained hcolumn hrow' inStatement (placeAll laid')
    rw [hseparate, ← placeAll_append] at hfirst
    refine ⟨_, hfirst, ?_⟩
    cases inStatement
    · rfl
    · exact ⟨_, rfl⟩
  · rw [List.getLast?_append, List.getLast?_cons, hlast]
    rfl
  · exact fun h' => (List.mem_append.1 h').elim h.indentable.no_return hbetween.no_return

/-- Statements that are each printed as a passage, on lines of their own. -/
theorem lines_of_printsLines {a : α} {as : List α} {between : List Char}
    (h : ∀ b ∈ a :: as, PrintsLines column text R b) (hbetween : Breaks column between) (s : Scanner)
    (hs : s.separated = true) (hcol : s.cursor.col = column) :
    ∃ raw laid tokens,
      Lines column s (text a ++ as.flatMap fun b => between ++ text b) R (a :: as) raw laid tokens := by
  induction as generalizing a s with
  | nil =>
    obtain ⟨raw, laid, hpassage, hR⟩ := List.forall_mem_singleton.1 h s hs hcol
    rw [List.flatMap_nil, List.append_nil]
    exact ⟨raw, laid, laid, hpassage.lines hcol hR⟩
  | cons b bs ih =>
    obtain ⟨ha, has⟩ := List.forall_mem_cons.1 h
    obtain ⟨raw, laid, hpassage, hR⟩ := ha s hs hcol
    have hcol' : (s.past (text a ++ between) true).cursor.col = column := by
      rw [past_cursor, Cursor.after_append]
      exact hbetween.col _
    obtain ⟨raw', laid', tokens, hothers⟩ := ih has (s.past (text a ++ between) true) rfl hcol'
    obtain ⟨tokens', hall⟩ := hpassage.lines_cons hcol hR hbetween hothers
    rw [List.flatMap_cons, List.append_assoc between, ← List.append_assoc (text a)]
    exact ⟨_, _, tokens', hall⟩

end Lines

/-- An empty text has no tokens. -/
theorem ofSource_empty : Token.ofSource "" = .ok [] := (Piece.empty initial).lexes.ofSource trivial

/-- The tokens of a whole text of items on lines of their own have semicolons between the items. -/
theorem laidOut_of_printsLines {α : Type} {text : α → String} {R : List Token → α → Prop}
    {as : List α} {separator : String}
    (h : ∀ a ∈ as, PrintsLines 1 (fun b => (text b).toList) R a)
    (hseparator : Breaks 1 separator.toList) :
    ∃ raw tokens b, Token.ofSource (separator.intercalate (as.map text)) = .ok raw ∧
      Layout.layout raw = .ok tokens ∧ Separated .semicolon R b tokens as := by
  cases as with
  | nil =>
    rw [List.map_nil, String.intercalate_nil]
    exact ⟨[], [], false, ofSource_empty, Layout.layout_flat (flatAll_nil 1), .nil⟩
  | cons a as =>
    obtain ⟨raw, laid, tokens, hall⟩ := lines_of_printsLines h hseparator initial rfl rfl
    obtain ⟨b, hitems⟩ := hall.items
    have htext : (separator.intercalate ((a :: as).map text)).toList
        = (text a).toList ++ as.flatMap fun b => separator.toList ++ (text b).toList := by
      rw [List.map_cons, toList_intercalate_cons, List.flatMap_map]
    have hcolumn : Rules.columnOf 1 raw = 1 := by
      have hbegins := hall.begins
      cases raw with
      | nil => rfl
      | cons t ts => exact congrArg Cursor.col (Option.some.inj hbegins)
    have hlexes := hall.lexes
    rw [← htext] at hlexes
    refine ⟨raw, tokens, b, hlexes.ofSource endsWord_nil, ?_, hitems⟩
    rw [Layout.layout, hcolumn]
    simp only [hall.lays.arrange, Except.map, hall.punctuate Nat.one_pos]

/-! ## Blocks of statements -/

section Statements

variable {α : Type} {text : α → String} {R : List Token → α → Prop} {as : List α}

/-- However far to the right the lines of a printed item are moved, it is a passage that is related
to it. -/
def PrintsAnywhere (text : α → String) (R : List Token → α → Prop) (a : α) : Prop :=
  ∀ n, PrintsLines (n + 1) (fun b => shiftBy n (text b).toList) R a

/-- In the first column nothing is moved. -/
theorem PrintsAnywhere.lines {a : α} (h : PrintsAnywhere text R a) :
    PrintsLines 1 (fun b => (text b).toList) R a := by
  intro s hs hcol
  obtain ⟨raw, laid, hpassage, hR⟩ := h 0 s hs hcol
  dsimp only at hpassage
  rw [shiftBy_zero] at hpassage
  exact ⟨raw, laid, hpassage, hR⟩

/-- What is printed on one line is a passage wherever it stands. -/
theorem PrintsAs.anywhere {a : α} (h : PrintsAs text R a) : PrintsAnywhere text R a := by
  intro n s hs _
  obtain ⟨ts, hfragment, hR⟩ := h s hs
  dsimp only
  rw [shiftBy_oneLine n hfragment.piece.line]
  exact ⟨ts, ts, hfragment.passage _, hR⟩

/-- Items on lines of their own, all moved to the right. -/
theorem shiftBy_intercalate (n : Nat) (a : α) (as : List α) :
    shiftBy n ("\n".intercalate ((a :: as).map text)).toList = shiftBy n (text a).toList
      ++ as.flatMap fun b => lineBreak n ++ shiftBy n (text b).toList := by
  rw [List.map_cons, toList_intercalate_cons, List.flatMap_map, shiftBy_append]
  have hfeed : shiftBy n "\n".toList = lineBreak n := by simp [shiftBy]
  congr 1
  induction as with
  | nil => rfl
  | cons b bs ih =>
    rw [List.flatMap_cons, List.flatMap_cons, shiftBy_append, shiftBy_append, ih, hfeed]

theorem lines_printed {a : α} (h : ∀ b ∈ a :: as, PrintsAnywhere text R b) (n : Nat) (s : Scanner)
    (hs : s.separated = true) (hcol : s.cursor.col = n + 1) :
    ∃ raw laid tokens, Lines (n + 1) s (shiftBy n ("\n".intercalate ((a :: as).map text)).toList) R
      (a :: as) raw laid tokens := by
  obtain ⟨raw, laid, tokens, hlines⟩ :=
    lines_of_printsLines (fun b hb => h b hb n) (breaks_lineBreak n) s hs hcol
  rw [shiftBy_intercalate]
  exact ⟨raw, laid, tokens, hlines⟩

/-- The body of a printed block, moved to the right. -/
theorem shiftBy_blockText (n : Nat) {body : String} (h : Indentable body.toList) :
    shiftBy n (blockText body).toList
      = '\x7b' :: (lineBreak (n + 4) ++ shiftBy (n + 4) body.toList ++ lineBreak n ++ ['\x7d']) := by
  have hne : body.isEmpty = false := by
    rw [← Bool.not_eq_true, String.isEmpty_iff]
    rintro rfl
    exact h.nonempty rfl
  have hspaces : lineBreak n ++ spaces 4 = lineBreak (n + 4) := by
    rw [lineBreak, spaces, spaces, List.cons_append, List.replicate_append_replicate]
    rfl
  have hline : shiftBy n (spaces 4) = spaces 4 := shiftBy_oneLine n (by decide)
  have htext : (blockText body).toList
      = '\x7b' :: '\n' :: (spaces 4 ++ shiftBy 4 body.toList ++ ['\n'] ++ ['\x7d']) := by
    rw [blockText, hne, ← toList_indented h]
    simp
  rw [htext, shiftBy_cons, shiftBy_cons, shiftBy_append, shiftBy_append, shiftBy_append, hline,
    shiftBy_shiftBy, ← hspaces]
  simp [shiftBy]

/-- A printed block of statements. -/
theorem block_printed (h : ∀ a ∈ as, PrintsAnywhere text R a) (n : Nat) (s : Scanner) :
    ∃ t t' inner b, Passage (n + 1) s
        (shiftBy n (blockText ("\n".intercalate (as.map text))).toList) [t] [t'] ∧
      t'.IsGroup .brace inner ∧ Separated .semicolon R b inner as := by
  cases as with
  | nil =>
    have htext : (blockText ("\n".intercalate (([] : List α).map text))).toList
        = ['\x7b', '\x7d'] := by
      simp [blockText]
    obtain ⟨t, hgroup, ht⟩ := Fragment.group s .brace (by decide)
      (Piece.empty (s.past ['\x7b'] true)).of_anything
    rw [htext, shiftBy_oneLine n (by decide)]
    exact ⟨t, t, [], false, hgroup.passage _, ht, .nil⟩
  | cons a as =>
    -- the body is a text that can be indented, wherever it stands
    obtain ⟨_, _, _, hfirst⟩ := lines_printed h 0 Scanner.initial rfl rfl
    have hbody := hfirst.indentable
    rw [shiftBy_zero] at hbody
    obtain ⟨raw, laid, tokens, hlines⟩ := lines_printed h (n + 4)
      (s.past ('\x7b' :: lineBreak (n + 4)) true) rfl (by rw [past_cursor]; simp)
    have hcolumn : Rules.columnOf (n + 1) raw = n + 5 := by
      have hbegins := hlines.begins
      cases raw with
      | nil => cases hbegins
      | cons t ts =>
        have hstart := congrArg Cursor.col (Option.some.inj hbegins)
        rw [past_cursor] at hstart
        rw [Rules.columnOf, hstart]
        simp
    obtain ⟨t, t', hpassage, ht'⟩ :=
      block_passage hlines.lexes hlines.lays hcolumn hlines.indentable.no_return
    obtain ⟨b, hitems⟩ := hlines.items
    have hrow : 0 < (s.past ('\x7b' :: lineBreak (n + 4)) true).cursor.row := by
      rw [past_cursor]
      simp
    rw [hlines.punctuate hrow] at ht'
    rw [shiftBy_blockText n hbody]
    exact ⟨t, t', tokens, b, hpassage, ht', hitems⟩

end Statements

end Offside
