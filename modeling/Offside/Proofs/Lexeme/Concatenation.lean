import Offside.Proofs.Lexeme.Pieces
import Offside.Proofs.Lexeme.Respacing

/-!
# One text after another

A line feed ends every token, so a text and another on the rows below it have the tokens of the
first and then those of the second.

* `Scanner.rewrites_lineFeed`: a run of characters ends at a line feed, whatever follows it.
* `Scanner.Scans.ends`: what comes after a text and a line feed is read after the tokens of the text
  and where no group is open.
* `OpenGroup.after`, `nest_after`: tokens before the first lexeme stay before its trees.
* `Shift.down`: all rows move down. `Token.ofSource_append`: the token trees of two texts.
-/

namespace Offside

open Token

namespace Scanner

/-- No run of characters sees what is put after a line feed. -/
theorem rewrites_lineFeed (more : List Char) : RewritesAt ['\n'] (· ++ '\n' :: more) where
  keeps _ _ := rfl
  stops {rest} hrest := by
    cases rest with
    | nil => exact stopsAt_cons List.mem_cons_self _
    | cons c rest => exact stopsAt_cons (hrest c rfl) _

/-- A text with a line feed after it leads to the start of the next row. -/
def below (s : Scanner) (text : List Char) : Scanner := ⟨(s.cursor.after text).step '\n', true⟩

theorem below_past {used rest text : List Char} (h : used ++ rest = text) (s : Scanner)
    (separated : Bool) : (s.past used separated).below rest = s.below text := by
  simp only [← h, below, past, Cursor.after_append]

/-- What comes after a text and a line feed is read as after the tokens of the text, if these are
complete. -/
theorem Scans.ends {inBackticks : Bool} {s : Scanner} {text : List Char} {scan : Scan}
    (h : s.Scans inBackticks text scan) (more : List Char) {groups : List OpenGroup}
    {before ts : List Token} (hknows : Knows inBackticks groups)
    (hok : s.trees inBackticks groups before text = .ok ts) :
    s.trees inBackticks groups before (text ++ '\n' :: more)
      = (s.below text).trees false [] ts.reverse more := by
  induction h generalizing groups before with
  | nil =>
    cases groups with
    | cons group outer =>
      rw [trees_unclosed] at hok
      cases hok
    | nil =>
      rw [trees_nil] at hok
      cases hok
      -- no group is open at the end, so none of backticks
      obtain rfl := Bool.toNat_eq_zero.1 hknows.symm
      rw [List.nil_append, trees_blank (by decide), List.reverse_reverse]
      rfl
  | stops hstops =>
    rw [trees_stops hstops] at hok
    cases hok
  | @blank _ s _ _ _ hc _ ih =>
    rw [trees_blank hc] at hok
    rw [List.cons_append, trees_blank hc, ← below_past List.singleton_append s true]
    exact ih hknows hok
  | @comment _ s rest _ _ ih =>
    have hbreak : ['\n'].any continuesComment = false := rfl
    have htake := (rewrites_lineFeed more).takeWhile hbreak rest
    have hdrop := (rewrites_lineFeed more).dropWhile hbreak rest
    have htext : ('#' :: rest.takeWhile continuesComment) ++ rest.dropWhile continuesComment
        = '#' :: rest := by
      rw [List.cons_append, List.takeWhile_append_dropWhile]
    rw [trees_comment] at hok
    rw [List.cons_append, trees_comment, htake, hdrop, ← below_past htext s true]
    exact ih hknows hok
  | @leaf _ s c rest leaf _ hleaf _ ih =>
    obtain ⟨leaf', hleaf', htoken, hused, hseparates, hrest⟩ :=
      hleaf.rewritten (rewrites_lineFeed more) (by simp)
    rw [trees_leaf hleaf] at hok
    rw [List.cons_append, trees_leaf hleaf', htoken, hused, hseparates, hrest,
      ← below_past leaf.used_append s leaf.separates]
    exact ih hknows hok
  | @opens _ s bracket _ _ hb _ ih =>
    rw [trees_opens hb] at hok
    rw [List.cons_append, trees_opens hb, ← below_past List.singleton_append s true]
    exact ih (hknows.opens hb) hok
  | @closes _ s bracket _ _ hb _ ih =>
    by_cases hinner : ∃ group outer, groups = group :: outer ∧ group.bracket = bracket
    · obtain ⟨group, outer, rfl, rfl⟩ := hinner
      rw [trees_closes group hb] at hok
      rw [List.cons_append, trees_closes group hb, ← below_past List.singleton_append s false]
      exact ih (hknows.closes hb) hok
    · rw [trees_unmatched hb fun group outer hgroups hbracket =>
        hinner ⟨group, outer, hgroups, hbracket⟩] at hok
      cases hok

end Scanner

/-! ## Tokens before all others -/

/-- Open groups, and the tokens of the innermost, with further tokens before all of them. -/
def OpenGroup.after (first : List Token) :
    List OpenGroup → List Token → List OpenGroup × List Token
  | [], before => ([], before ++ first)
  | group :: outer, before =>
    let (outer', before') := after first outer group.before
    ({ group with before := before' } :: outer', before)

theorem OpenGroup.after_cons (first : List Token) (groups : List OpenGroup) (t : Token)
    (before : List Token) : OpenGroup.after first groups (t :: before)
      = ((OpenGroup.after first groups before).1, t :: (OpenGroup.after first groups before).2) := by
  cases groups <;> rfl

/-- Tokens before the first lexeme stay before its trees. -/
theorem nest_after (stop? : Option (Located LexicalError)) (first : List Token)
    (groups : List OpenGroup) (before : List Token) (lexemes : List Lexeme) :
    nest stop? (OpenGroup.after first groups before).1 (OpenGroup.after first groups before).2 lexemes
      = (nest stop? groups before lexemes).map (first.reverse ++ ·) := by
  induction lexemes generalizing groups before with
  | nil =>
    rw [nest.eq_def, nest.eq_def stop? groups]
    cases stop? with
    | some error => rfl
    | none =>
      cases groups with
      | cons group outer => rfl
      | nil => simp [OpenGroup.after, Except.map]
  | cons lexeme rest ih =>
    cases lexeme with
    | leaf t => rw [nest, nest, ← ih, OpenGroup.after_cons]
    | opens bracket loc =>
      rw [nest, nest, ← ih]
      rfl
    | closes bracket loc =>
      rw [nest.eq_def, nest.eq_def stop? groups]
      cases groups with
      | nil => rfl
      | cons group outer =>
        dsimp only [OpenGroup.after]
        by_cases h : group.bracket = bracket
        · rw [if_pos h, if_pos h, ← ih, OpenGroup.after_cons]
          rfl
        · rw [if_neg h, if_neg h]
          rfl

/-! ## Two texts -/

/-- All rows move down. -/
def Shift.down (rows : Nat) : Shift where
  row r := r + rows
  rises h := Nat.add_lt_add_right h rows
  columns := 0

/-- Nothing is put at the start of a row, and all rows move down. -/
def Respacing.down (rows : Nat) : Respacing where
  shift := .down rows
  gap _ := []
  skips _ := .nil
  lands row := by
    simp only [Cursor.after_nil, Shift.relocation_move, Shift.down, Cursor.mk.injEq, and_true]
    omega

/-- A text that begins further down has its lexemes further down. -/
theorem Scanner.scan_down (rows : Nat) (s : Scanner) (text : List Char) :
    (s.move (Shift.down rows).relocation).scan false text
      = (s.scan false text).move (Shift.down rows).relocation := by
  have hscan := (s.scans false text).respaced (.down rows)
  rwa [Respacing.later_eq_self _ fun _ _ => rfl] at hscan

/-- A text and another on the rows below it have the token trees of the first and then those of the
second, further down. -/
theorem Token.ofSource_append {a b : String} {ts us : List Token} (ha : Token.ofSource a = .ok ts)
    (hb : Token.ofSource b = .ok us) :
    Token.ofSource (a ++ "\n" ++ b)
      = .ok (ts ++ us.map (Token.move (Shift.down (a.toList.count '\n' + 1)).relocation)) := by
  have hbelow : Scanner.initial.below a.toList
      = Scanner.initial.move (Shift.down (a.toList.count '\n' + 1)).relocation := by
    simp only [Scanner.below, Scanner.move, Scanner.mk.injEq, Shift.relocation_move, Cursor.step,
      if_true, Cursor.after_row, Shift.down, Cursor.mk.injEq]
    exact ⟨⟨Nat.add_assoc _ _ _, rfl⟩, rfl⟩
  have htext : (a ++ "\n" ++ b).toList = a.toList ++ '\n' :: b.toList := by simp
  have hmoved := nest_move (Shift.down (a.toList.count '\n' + 1)).relocation
    (Scanner.initial.scan false b.toList).stop? [] [] (Scanner.initial.scan false b.toList).lexemes
  have hfirst := nest_after ((Scanner.initial.scan false b.toList).move
      (Shift.down (a.toList.count '\n' + 1)).relocation).stop? ts.reverse [] []
    ((Scanner.initial.scan false b.toList).move
      (Shift.down (a.toList.count '\n' + 1)).relocation).lexemes
  rw [ofSource_eq_trees] at ha hb ⊢
  have hends : Scanner.initial.trees false [] [] (a.toList ++ '\n' :: b.toList)
      = (Scanner.initial.below a.toList).trees false [] ts.reverse b.toList :=
    (Scanner.scans false .initial a.toList).ends b.toList rfl ha
  rw [htext]
  refine hends.trans ?_
  rw [hbelow, Scanner.trees, Scanner.scan_down]
  refine hfirst.trans ?_
  rw [List.reverse_reverse]
  show Except.map _ (nest _ [] [] _) = _
  rw [show nest _ [] [] _ = _ from hb] at hmoved
  exact congrArg (Except.map (ts ++ ·)) hmoved

end Offside
