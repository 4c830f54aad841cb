import Offside.Proofs.Lexeme.Runs

/-!
# Texts with more space at the start of lines

Space that is put at the start of lines moves the tokens of a text and changes nothing else.

* `Scanner.Skips`: a text that is skipped where a lexeme may begin. `Scanner.Skips.spaces`,
  `Scanner.Skips.commentLine`: spaces, and a line of spaces and a comment.
* `Respacing`: a text to skip at the start of each row, and the shift that it amounts to.
  `Respacing.text`: the text with these texts in it.
* `Scanner.Scans.respaced`, `nest_move`: the lexemes of that text, and the trees made of them, are
  those of the original, shifted. `Respacing.ofSource`: so are the token trees of the whole text.
-/

namespace Offside

open Token

/-! ## Moving lexemes -/

section Move

variable (m : Relocation)

/-- A lexeme that is moved. -/
def Lexeme.move : Lexeme → Lexeme
  | .leaf t => .leaf (t.move m)
  | .opens bracket loc => .opens bracket (loc.move m)
  | .closes bracket loc => .closes bracket (loc.move m)

/-- A scan with its lexemes and its end moved. -/
def Scan.move (scan : Scan) : Scan :=
  ⟨scan.lexemes.map (Lexeme.move m), scan.stop?.map (Located.move m)⟩

/-- An open group with its tokens moved. -/
def OpenGroup.move (group : OpenGroup) : OpenGroup :=
  ⟨group.bracket, group.opener.move m, group.before.map (Token.move m)⟩

/-- The place of a scanner that is moved. -/
def Scanner.move (s : Scanner) : Scanner := { s with cursor := m.move s.cursor }

theorem Scan.move_cons (lexeme : Lexeme) (scan : Scan) :
    (Scan.cons lexeme scan).move m = .cons (lexeme.move m) (scan.move m) := rfl

theorem OpenGroup.close_move (group : OpenGroup) (closer : Location) (interior : List Token) :
    (group.move m).close (closer.move m) (interior.map (Token.move m))
      = (group.close closer interior).move m := by
  rw [move_eq]
  simp only [OpenGroup.close, OpenGroup.move, Token.block, Location.move_join]

theorem wordToken_move (word : String) (loc : Location) :
    wordToken word (loc.move m) = (wordToken word loc).move m := by
  unfold wordToken
  split
  · rw [move_eq]
    rfl
  · split <;> rw [move_leaf]

theorem operatorToken_move (operator : String) (separated attached : Bool) (loc : Location) :
    operatorToken operator separated attached (loc.move m)
      = (operatorToken operator separated attached loc).move m := by
  unfold operatorToken
  split
  · rw [move_leaf]
  · split <;> rw [move_leaf]

theorem separatorToken_move (c : Char) (loc : Location) :
    separatorToken c (loc.move m) = (separatorToken c loc).move m := by
  rw [separatorToken, separatorToken, move_leaf]

/-- Brackets match among moved lexemes as they do among the lexemes. -/
theorem nest_move (stop? : Option (Located LexicalError)) (groups : List OpenGroup)
    (before : List Token) (lexemes : List Lexeme) :
    nest (stop?.map (Located.move m)) (groups.map (OpenGroup.move m)) (before.map (Token.move m))
        (lexemes.map (Lexeme.move m))
      = ((nest stop? groups before lexemes).mapError (Located.move m)).map
        (List.map (Token.move m)) := by
  induction lexemes generalizing groups before with
  | nil =>
    rw [List.map_nil, nest.eq_def, nest.eq_def stop?]
    cases stop? with
    | some error => rfl
    | none =>
      cases groups with
      | cons group outer => rfl
      | nil => simp [mapError_ok, Except.map]
  | cons lexeme rest ih =>
    cases lexeme with
    | leaf t =>
      rw [List.map_cons, Lexeme.move, nest, nest, ← ih, List.map_cons]
    | opens bracket loc =>
      rw [List.map_cons, Lexeme.move, nest, nest, ← ih, List.map_cons]
      rfl
    | closes bracket loc =>
      rw [List.map_cons, Lexeme.move, nest.eq_def, nest.eq_def stop?]
      cases groups with
      | nil => rfl
      | cons group outer =>
        rw [List.map_cons]
        dsimp only
        have hbracket : (group.move m).bracket = group.bracket := rfl
        rw [hbracket]
        by_cases h : group.bracket = bracket
        · rw [if_pos h, if_pos h, ← ih, List.map_cons, ← OpenGroup.close_move, List.map_reverse]
          rfl
        · rw [if_neg h, if_neg h]
          rfl

end Move

namespace Scanner

/-! ## Texts to skip -/

/-- Where a lexeme may begin, a text is skipped, whatever follows it. -/
def Skips (text : List Char) : Prop :=
  ∀ (inBackticks : Bool) (s : Scanner) (rest : List Char), s.separated = true →
    s.scan inBackticks (text ++ rest) = (s.past text true).scan inBackticks rest

theorem Skips.nil : Skips [] := by
  intro inBackticks s rest hs
  cases s
  cases hs
  rfl

theorem Skips.append {a b : List Char} (ha : Skips a) (hb : Skips b) : Skips (a ++ b) := by
  intro inBackticks s rest hs
  rw [List.append_assoc, ha inBackticks s _ hs, hb inBackticks _ rest rfl]
  simp only [past, Cursor.after_append]

theorem Skips.blank {c : Char} (hc : CharClass.of? c = some .blank) : Skips [c] :=
  fun _ _ _ _ => scan_blank hc

theorem Skips.spaces (k : Nat) : Skips (List.replicate k ' ') := by
  induction k with
  | zero => exact .nil
  | succ k ih => exact (Skips.blank (by decide)).append ih

/-- A comment is skipped with the line feed that ends it. -/
theorem Skips.comment {body : List Char} (hbody : ∀ c ∈ body, c ≠ '\n' ∧ c ≠ '\t') :
    Skips ('#' :: body ++ ['\n']) := by
  intro inBackticks s rest _
  have hall : ∀ c ∈ body, continuesComment c = true := by
    intro c hc
    simpa [continuesComment] using hbody c hc
  have htake : (body ++ '\n' :: rest).takeWhile continuesComment = body := by
    rw [List.takeWhile_append_of_pos hall]
    simp [continuesComment]
  have hdrop : (body ++ '\n' :: rest).dropWhile continuesComment = '\n' :: rest := by
    rw [List.dropWhile_append_of_pos hall]
    simp [continuesComment]
  rw [show '#' :: body ++ ['\n'] ++ rest = '#' :: (body ++ '\n' :: rest) by simp, scan_comment,
    htake, hdrop, scan_blank (by decide)]
  simp only [past, ← Cursor.after_append, List.cons_append]

end Scanner

/-! ## Respaced texts -/

/-- A text to skip at the start of each row, and the shift of rows and columns that all of them
amount to. -/
structure Respacing where
  /-- Where rows and columns move. -/
  shift : Shift
  /-- What is put at the start of a row. -/
  gap : Nat → List Char
  /-- That is skipped. -/
  skips : ∀ row, Scanner.Skips (gap row)
  /-- After a line feed it leads to where the first column of the next row moves. -/
  lands : ∀ row, Cursor.after ⟨shift.row row + 1, 1⟩ (gap (row + 1))
    = shift.relocation.move ⟨row + 1, 1⟩

namespace Respacing

variable (g : Respacing)

/-- A text from a place on a row on, with something put at the start of each later row. -/
def later : (row : Nat) → List Char → List Char
  | _, [] => []
  | row, c :: rest =>
    if c = '\n' then '\n' :: (g.gap (row + 1) ++ later (row + 1) rest) else c :: later row rest

/-- The text of a source with something put at the start of each row. -/
def text (source : String) : String := String.ofList (g.gap 1 ++ g.later 1 source.toList)

theorem later_cons {c : Char} (hc : c ≠ '\n') (row : Nat) (rest : List Char) :
    g.later row (c :: rest) = c :: g.later row rest := if_neg hc

theorem later_lineFeed (row : Nat) (rest : List Char) :
    g.later row ('\n' :: rest) = '\n' :: (g.gap (row + 1) ++ g.later (row + 1) rest) := if_pos rfl

/-- Nothing is put into a text whose later rows have nothing put at their start. -/
theorem later_eq_self {row : Nat} (h : ∀ r, row < r → g.gap r = []) (rest : List Char) :
    g.later row rest = rest := by
  induction rest generalizing row with
  | nil => rfl
  | cons c rest ih =>
    by_cases hc : c = '\n'
    · rw [hc, later_lineFeed, h _ (Nat.lt_succ_self row), List.nil_append,
        ih fun r hr => h r (Nat.lt_of_succ_lt hr)]
    · rw [later_cons g hc, ih h]

/-- The text is rewritten at its line feeds only. -/
theorem rewrites (row : Nat) : RewritesAt ['\n'] (g.later row) where
  keeps hc := g.later_cons (List.ne_of_not_mem_cons hc) row
  stops {rest} hrest := by
    cases rest with
    | nil => exact stopsAt_nil
    | cons c rest =>
      obtain rfl := List.mem_singleton.1 (hrest c rfl)
      rw [g.later_lineFeed]
      exact stopsAt_cons List.mem_cons_self _

end Respacing

/-! ## Scanning -/

namespace Shift

variable (s : Shift)

/-- Text on one row moves along. -/
theorem after_move {text : List Char} (h : '\n' ∉ text) (a : Cursor) :
    (s.relocation.move a).after text = s.relocation.move (a.after text) := by
  rw [Cursor.after_of_notMem h, Cursor.after_of_notMem h]
  simp only [relocation_move, Cursor.mk.injEq, true_and]
  omega

/-- So does its location. -/
theorem locate_move {text : List Char} (h : '\n' ∉ text) (scanner : Scanner) :
    (scanner.move s.relocation).locate text = (scanner.locate text).move s.relocation :=
  Location.eq_of_ends rfl (s.after_move h _)

/-- A scanner that has read text on one row moves along. -/
theorem past_move {text : List Char} (h : '\n' ∉ text) (scanner : Scanner) (separated : Bool) :
    (scanner.move s.relocation).past text separated
      = (scanner.past text separated).move s.relocation := by
  simp only [Scanner.past, Scanner.move, s.after_move h]

theorem stop_move (scanner : Scanner) (cause : LexicalError) :
    (scanner.move s.relocation).stop cause = (scanner.stop cause).move s.relocation := by
  have hone : Location.one (s.relocation.move scanner.cursor)
      = (Location.one scanner.cursor).move s.relocation := by
    refine Location.eq_of_ends rfl ?_
    simp only [Location.one, Location.move_stop, relocation_move, Cursor.mk.injEq, true_and]
    omega
  simp only [Scanner.stop, Scanner.move, hone]
  rfl

end Shift

namespace Scanner

/-- Text on one row stays on its row. -/
theorem past_row {text : List Char} (h : '\n' ∉ text) (s : Scanner) (separated : Bool) :
    (s.past text separated).cursor.row = s.cursor.row := by
  rw [past, Cursor.after_of_notMem h]

/-- The same token, moved, is read from where a place moves. -/
theorem LeafOf.move {s : Scanner} {c : Char} {rest : List Char} {leaf : Leaf (c :: rest)}
    (h : s.LeafOf c rest leaf) (m : Shift) :
    ∃ leaf' : Leaf (c :: rest), (s.move m.relocation).LeafOf c rest leaf' ∧
      leaf'.token = leaf.token.move m.relocation ∧ leaf'.used = leaf.used ∧
      leaf'.separates = leaf.separates ∧ leaf'.rest = leaf.rest := by
  have hloc := m.locate_move h.lineFeed_notMem s
  cases h with
  | word hc =>
    refine ⟨_, .word hc, ?_, rfl, rfl, rfl⟩
    exact (congrArg (wordToken _) hloc).trans (wordToken_move _ _ _)
  | number hc =>
    refine ⟨_, .number hc, ?_, rfl, rfl, rfl⟩
    exact (congrArg (Token.leaf .number _) hloc).trans (move_leaf _ _ _ _).symm
  | operator hc hnum =>
    refine ⟨_, .operator hc hnum, ?_, rfl, rfl, rfl⟩
    exact (congrArg (operatorToken _ _ _) hloc).trans (operatorToken_move _ _ _ _ _)
  | separator hc =>
    refine ⟨_, .separator hc, ?_, rfl, rfl, rfl⟩
    exact (congrArg (separatorToken c) hloc).trans (separatorToken_move _ _ _)

/-- Scanning a respaced text from where a place moves yields the lexemes from that place, moved. -/
theorem Scans.respaced (g : Respacing) {inBackticks : Bool} {s : Scanner} {text : List Char}
    {scan : Scan} (h : s.Scans inBackticks text scan) :
    (s.move g.shift.relocation).scan inBackticks (g.later s.cursor.row text)
      = scan.move g.shift.relocation := by
  induction h with
  | nil =>
    rw [Respacing.later, scan_nil]
    rfl
  | @stops _ s c rest cause hstops =>
    rw [g.later_cons hstops.ne_lineFeed, scan_stops hstops]
    exact g.shift.stop_move s _
  | @blank _ s c rest _ hc _ ih =>
    by_cases hbreak : c = '\n'
    · -- the gap at the start of the next row is skipped
      subst hbreak
      have hlands : (s.move g.shift.relocation).cursor.after ('\n' :: g.gap (s.cursor.row + 1))
          = g.shift.relocation.move (s.cursor.after ['\n']) := g.lands s.cursor.row
      have hpast : ((s.move g.shift.relocation).past ['\n'] true).past
          (g.gap (s.cursor.row + 1)) true = (s.past ['\n'] true).move g.shift.relocation := by
        simp only [past, move, ← Cursor.after_append, List.singleton_append]
        rw [← hlands]
        rfl
      rw [g.later_lineFeed, scan_blank hc, g.skips _ _ _ _ rfl, hpast]
      exact ih
    · have hline := lineFeed_notMem hbreak
      rw [past_row hline, ← g.shift.past_move hline] at ih
      rw [g.later_cons hbreak, scan_blank hc]
      exact ih
  | @comment _ s rest _ _ ih =>
    have hline := comment_lineFeed_notMem rest
    have hbreak : ['\n'].any continuesComment = false := rfl
    rw [past_row hline, ← g.shift.past_move hline] at ih
    rw [g.later_cons (by decide), scan_comment, (g.rewrites _).takeWhile hbreak,
      (g.rewrites _).dropWhile hbreak]
    exact ih
  | @leaf _ s c rest leaf _ hleaf _ ih =>
    have hline := hleaf.lineFeed_notMem
    rw [past_row hline, ← g.shift.past_move hline] at ih
    obtain ⟨moved, hmoved, htoken, hused, hseparates, hrest⟩ := hleaf.move g.shift
    obtain ⟨leaf', hleaf', htoken', hused', hseparates', hrest'⟩ :=
      hmoved.rewritten (g.rewrites s.cursor.row) (by simp)
    rw [g.later_cons hleaf.ne_lineFeed, scan_leaf hleaf', htoken', htoken, hused', hused,
      hseparates', hseparates, hrest', hrest, ih]
    rfl
  | @opens _ s bracket rest _ hb _ ih =>
    have hline := lineFeed_notMem bracket.opener_ne_lineFeed
    rw [past_row hline, ← g.shift.past_move hline] at ih
    rw [g.later_cons bracket.opener_ne_lineFeed, scan_opens hb, Scan.move_cons, ih, Lexeme.move,
      g.shift.locate_move hline]
  | @closes _ s bracket rest _ hb _ ih =>
    have hline := lineFeed_notMem bracket.closer_ne_lineFeed
    rw [past_row hline, ← g.shift.past_move hline] at ih
    rw [g.later_cons bracket.closer_ne_lineFeed, scan_closes hb, Scan.move_cons, ih, Lexeme.move,
      g.shift.locate_move hline]

end Scanner

namespace Respacing

variable (g : Respacing)

/-- A respaced text has the token trees of the original, shifted, or fails alike, if the gap of the
first row leads to where the origin moves. -/
theorem ofSource (hstart : Cursor.origin.after (g.gap 1) = g.shift.relocation.move Cursor.origin)
    (source : String) :
    Token.ofSource (g.text source)
      = ((Token.ofSource source).mapError (Located.move g.shift.relocation)).map
        (List.map (Token.move g.shift.relocation)) := by
  have hpast : Scanner.initial.past (g.gap 1) true
      = Scanner.initial.move g.shift.relocation := by
    rw [Scanner.past, Scanner.move]
    congr 1
  have hscan : Scanner.initial.scan false (g.text source).toList
      = (Scanner.initial.scan false source.toList).move g.shift.relocation := by
    rw [text, String.toList_ofList, g.skips 1 _ _ _ rfl, hpast]
    exact (Scanner.scans false .initial source.toList).respaced g
  rw [Token.ofSource_eq_trees, Token.ofSource_eq_trees, Scanner.trees, hscan]
  exact nest_move _ _ [] [] _

/-- The end of a text moves to the end of the respaced text. -/
theorem after_later (a : Cursor) (rest : List Char) :
    (g.shift.relocation.move a).after (g.later a.row rest)
      = g.shift.relocation.move (a.after rest) := by
  induction rest generalizing a with
  | nil => rfl
  | cons c rest ih =>
    by_cases hc : c = '\n'
    · subst hc
      have hlands : ((g.shift.relocation.move a).step '\n').after (g.gap (a.row + 1))
          = g.shift.relocation.move (a.step '\n') := g.lands a.row
      rw [later_lineFeed, Cursor.after_cons, Cursor.after_append, hlands]
      exact ih (a.step '\n')
    · have hline : '\n' ∉ [c] := by simpa using Ne.symm hc
      have hstep : (g.shift.relocation.move a).step c = g.shift.relocation.move (a.step c) :=
        g.shift.after_move hline a
      have hrow : (a.step c).row = a.row := by rw [Cursor.step, if_neg hc]
      rw [later_cons g hc, Cursor.after_cons, hstep, ← hrow]
      exact ih (a.step c)

/-- The end of the respaced text is where the end of the text moves. -/
theorem sourceSpan_stop
    (hstart : Cursor.origin.after (g.gap 1) = g.shift.relocation.move Cursor.origin)
    (source : String) :
    (sourceSpan (g.text source)).stop = g.shift.relocation.move (sourceSpan source).stop := by
  show Cursor.origin.after (g.text source).toList = _
  rw [text, String.toList_ofList, Cursor.after_append, hstart]
  exact g.after_later Cursor.origin source.toList

end Respacing

end Offside
