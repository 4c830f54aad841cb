import Offside.Proofs.Frontend.Diagnostics
import Offside.Proofs.Layout.Relocation
import Offside.Proofs.Lexeme.Respacing
import Offside.Proofs.Token.Spelling

/-!
# Only relative position matters

* `Frontend.read`: a source text tokenized, laid out and parsed.
* `Frontend.read_respaced`: what is put at the start of lines moves the outcome and changes nothing
  else about it.
* `indentLines`, `IsBlankLine`: the same spaces at the start of every line; a line of spaces, and
  perhaps a comment.
* `Frontend.read_relative`: neither such spaces nor such a line change anything but locations.
-/

namespace Offside

open Token

namespace Frontend

/-- A source text tokenized, laid out and parsed. -/
def read {α : Type} (parse : Location → List Token → Except (Failure ParseError) α)
    (source : String) : Except (Failure Cause) α :=
  (tokenize source).bind fun tokens => (layOut tokens).bind fun laidOut =>
    (parse (sourceSpan source) laidOut).mapError (Failure.map .parse)

/-- A failure moves whatever its cause is called. -/
theorem mapError_moved {ε δ α β : Type} (m : Relocation) (f : ε → δ) (g : α → β)
    (x : Except (Failure ε) α) :
    (moveOutcome m g x).mapError (Failure.map f) = moveOutcome m g (x.mapError (Failure.map f)) := by
  cases x with
  | ok a => rfl
  | error e => cases e <;> rfl

/-- What is put at the start of lines moves the outcome of reading and changes nothing else. -/
theorem read_respaced {α : Type} {parse : Location → List Token → Except (Failure ParseError) α}
    {f : α → α} (g : Respacing)
    (hstart : Cursor.origin.after (g.gap 1) = g.shift.relocation.move Cursor.origin)
    (hstop : ∀ {span span' : Location} {ts : List Token}, span.stop = span'.stop →
      parse span ts = parse span' ts)
    (hparse : ∀ (span : Location) {ts : List Token}, (∀ t ∈ ts, t.Suits g.shift.relocation) →
      parse (span.move g.shift.relocation) (ts.map (Token.move g.shift.relocation))
        = moveOutcome g.shift.relocation f (parse span ts)) (source : String) :
    read parse (g.text source) = moveOutcome g.shift.relocation f (read parse source) := by
  have hlex : tokenize (g.text source)
      = moveOutcome g.shift.relocation (List.map (Token.move g.shift.relocation))
        (tokenize source) := by
    unfold tokenize
    rw [g.ofSource hstart source]
    cases Token.ofSource source <;> rfl
  unfold read
  rw [hlex]
  refine moveOutcome_bind _ fun tokens htokens => ?_
  have hsource : Token.ofSource source = .ok tokens := mapError_ok_iff.1 htokens
  have hlayout : layOut (tokens.map (Token.move g.shift.relocation))
      = moveOutcome g.shift.relocation (List.map (Token.move g.shift.relocation))
        (layOut tokens) := by
    unfold layOut
    rw [Layout.layout_move g.shift (Token.ofSource_wide hsource), mapError_moved]
  rw [hlayout]
  refine moveOutcome_bind _ fun laidOut hlaid => ?_
  have hsuits := suits_of_source (m := g.shift.relocation) hsource (mapError_ok_iff.1 hlaid)
    fun _ _ _ => trivial
  have hspan : (sourceSpan (g.text source)).stop
      = ((sourceSpan source).move g.shift.relocation).stop := g.sourceSpan_stop hstart source
  rw [hstop hspan, hparse _ hsuits, mapError_moved]

end Frontend

/-- Only the end of the span of an input matters to the parser. -/
theorem Parser.ofTokens_congr {span span' : Location} (h : span.stop = span'.stop)
    (ts : List Token) : ofTokens span ts = ofTokens span' ts := by
  rw [ofTokens, ofTokens, Location.endPoint, Location.endPoint, h]

/-- The declarations and the statements of a respaced text are those of the original, moved. -/
theorem Frontend.read_programs_respaced (g : Respacing)
    (hstart : Cursor.origin.after (g.gap 1) = g.shift.relocation.move Cursor.origin)
    (source : String) :
    Frontend.read parseDeclarations (g.text source) = moveOutcome g.shift.relocation
        (List.map (Declaration.move g.shift.relocation))
        (Frontend.read parseDeclarations source) ∧
      Frontend.read parseStatements (g.text source) = moveOutcome g.shift.relocation
        (List.map (Statement.move g.shift.relocation)) (Frontend.read parseStatements source) := by
  constructor
  · refine read_respaced g hstart (fun h => ?_) (fun span _ h => (parseDeclarations_move span h).1)
      source
    rw [parseDeclarations, Parser.ofTokens_congr h, parseDeclarations]
  · refine read_respaced g hstart (fun h => ?_) (fun span _ h => (parseStatements_move span h).1)
      source
    rw [parseStatements, Parser.ofTokens_congr h, parseStatements]

/-! ## Spaces at the start of every line -/

/-- A text with spaces at its start and after every line feed. -/
def indentLines (columns : Nat) (source : String) : String :=
  String.ofList (List.replicate columns ' ' ++ source.toList.flatMap fun c =>
    if c = '\n' then '\n' :: List.replicate columns ' ' else [c])

namespace Shift

/-- All columns move to the right. -/
def indent (columns : Nat) : Shift := ⟨id, id, columns⟩

/-- All rows from a first one on move down by one. -/
def insertRow (first : Nat) : Shift where
  row r := if r < first then r else r + 1
  rises := by
    intro a b h
    split <;> split <;> omega
  columns := 0

variable {first row : Nat}

theorem insertRow_before (h : row < first) : (insertRow first).row row = row := if_pos h

theorem insertRow_after (h : first ≤ row) : (insertRow first).row row = row + 1 :=
  if_neg (Nat.not_lt.2 h)

end Shift

namespace Respacing

/-- The same spaces at the start of every line. -/
def indent (columns : Nat) : Respacing where
  shift := .indent columns
  gap _ := List.replicate columns ' '
  skips _ := .spaces columns
  lands row := by
    have hspaces : '\n' ∉ List.replicate columns ' ' := by simp
    rw [Cursor.after_of_notMem hspaces, List.length_replicate]
    rfl

/-- Spaces at the start of every line, in both ways to put it. -/
theorem indent_text (columns : Nat) (source : String) :
    (indent columns).text source = indentLines columns source := by
  have hlater (row : Nat) (rest : List Char) : (indent columns).later row rest
      = rest.flatMap fun c => if c = '\n' then '\n' :: List.replicate columns ' ' else [c] := by
    induction rest generalizing row with
    | nil => rfl
    | cons c rest ih =>
      rw [later, ih, ih, List.flatMap_cons]
      split <;> rfl
  rw [text, hlater]
  rfl

end Respacing

/-! ## One more line -/

/-- A line of spaces and perhaps a comment. -/
def IsBlankLine (line : List Char) : Prop :=
  ∃ columns comment, line = List.replicate columns ' ' ++ comment ∧
    (comment = [] ∨ IsComment comment)

/-- Where a line begins: at the beginning of the text, or after a line feed. -/
def EndsLine (before : List Char) : Prop := before = [] ∨ before.getLast? = some '\n'

namespace IsBlankLine

variable {line : List Char}

/-- A blank line has no line feed. -/
theorem notMem (h : IsBlankLine line) : '\n' ∉ line := by
  obtain ⟨columns, comment, rfl, rfl | ⟨body, rfl, hbody⟩⟩ := h
  · simp
  · simp only [List.mem_append, List.mem_cons, not_or]
    exact ⟨by simp, by decide, fun hmem => (hbody _ hmem).1 rfl⟩

/-- A blank line with its line feed leads to the start of the next row. -/
theorem after (h : IsBlankLine line) (a : Cursor) : a.after (line ++ ['\n']) = ⟨a.row + 1, 1⟩ := by
  rw [Cursor.after_append, Cursor.after_of_notMem h.notMem]
  rfl

/-- A blank line is skipped with the line feed after it. -/
theorem skips (h : IsBlankLine line) : Scanner.Skips (line ++ ['\n']) := by
  obtain ⟨columns, comment, rfl, hcomment⟩ := h
  rw [List.append_assoc]
  refine (Scanner.Skips.spaces columns).append ?_
  rcases hcomment with rfl | ⟨body, rfl, hbody⟩
  · exact .blank (by decide)
  · exact .comment hbody

end IsBlankLine

namespace Respacing

/-- A blank line at the start of one row. -/
def insertLine (row : Nat) {line : List Char} (h : IsBlankLine line) : Respacing where
  shift := .insertRow row
  gap r := if r = row then line ++ ['\n'] else []
  skips r := by
    split
    · exact h.skips
    · exact .nil
  lands r := by
    simp only [Shift.relocation_move]
    by_cases hr : r + 1 = row
    · rw [if_pos hr, h.after, Shift.insertRow_before (by omega), Shift.insertRow_after (by omega)]
      rfl
    · rw [if_neg hr, Cursor.after_nil]
      by_cases hbefore : r < row
      · rw [Shift.insertRow_before hbefore, Shift.insertRow_before (by omega)]
        rfl
      · rw [Shift.insertRow_after (by omega), Shift.insertRow_after (by omega)]
        rfl

variable (g : Respacing)

/-- Something is put into a text where the only row begins that has something put at its start. -/
theorem later_append {row : Nat} {before : List Char} (hbefore : before.getLast? = some '\n')
    (h : ∀ r, r ≠ row + before.count '\n' → g.gap r = []) (rest : List Char) :
    g.later row (before ++ rest) = before ++ (g.gap (row + before.count '\n') ++ rest) := by
  induction before generalizing row with
  | nil => cases hbefore
  | cons c before ih =>
    have hrow : row + (c :: before).count '\n'
        = (if c = '\n' then row + 1 else row) + before.count '\n' := by
      rw [List.count_cons]
      by_cases hc : c = '\n'
      · simp only [hc, if_true, beq_self_eq_true]
        omega
      · simp [hc]
    rw [hrow] at h ⊢
    cases before with
    | nil =>
      obtain rfl : c = '\n' := by simpa using hbefore
      have hafter : ∀ r, row + 1 < r → g.gap r = [] := fun r hr => h r (by simp; omega)
      simp only [List.singleton_append, later_lineFeed, later_eq_self g hafter, if_true,
        List.count_nil, Nat.add_zero]
    | cons d before =>
      rw [List.getLast?_cons_cons] at hbefore
      have hpositive : 0 < (d :: before).count '\n' :=
        List.count_pos_iff.2 (List.mem_of_getLast? hbefore)
      by_cases hc : c = '\n'
      · subst hc
        simp only [if_true] at h ⊢
        rw [List.cons_append, later_lineFeed, h (row + 1) (by omega), List.nil_append,
          ih hbefore h]
        rfl
      · simp only [hc, if_false] at h ⊢
        rw [List.cons_append, later_cons g hc, ih hbefore h]
        rfl

/-- A blank line in a text, in both ways to put it. -/
theorem insertLine_text {before line : List Char} (hbefore : EndsLine before)
    (hline : IsBlankLine line) (after : List Char) :
    (insertLine (Cursor.origin.after before).row hline).text (String.ofList (before ++ after))
      = String.ofList (before ++ line ++ '\n' :: after) := by
  have hrow : (Cursor.origin.after before).row = 1 + before.count '\n' := Cursor.after_row _ _
  have hgap (r : Nat) (hr : r ≠ 1 + before.count '\n') :
      (insertLine (Cursor.origin.after before).row hline).gap r = [] := by
    rw [hrow]
    exact if_neg hr
  have hthere : (insertLine (Cursor.origin.after before).row hline).gap (1 + before.count '\n')
      = line ++ ['\n'] := by
    rw [hrow]
    exact if_pos rfl
  rw [text, String.toList_ofList]
  congr 1
  rcases hbefore with rfl | hbefore
  · rw [List.nil_append, later_eq_self _ fun r hr => hgap r (by simp; omega)]
    rw [List.count_nil, Nat.add_zero] at hthere
    rw [hthere]
    simp
  · have hpositive : 0 < before.count '\n' :=
      List.count_pos_iff.2 (List.mem_of_getLast? hbefore)
    rw [hgap 1 (by omega), List.nil_append, later_append _ hbefore hgap, hthere]
    simp

/-- The first column of the first row moves to where the text goes on. -/
theorem insertLine_start (row : Nat) {line : List Char} (h : IsBlankLine line) (hrow : 1 ≤ row) :
    Cursor.origin.after ((insertLine row h).gap 1)
      = (insertLine row h).shift.relocation.move Cursor.origin := by
  show Cursor.origin.after (if 1 = row then line ++ ['\n'] else [])
    = (Shift.insertRow row).relocation.move Cursor.origin
  simp only [Shift.relocation_move, Cursor.origin]
  by_cases hfirst : 1 = row
  · rw [if_pos hfirst, h.after, Shift.insertRow_after (Nat.le_of_eq hfirst.symm)]
    rfl
  · rw [if_neg hfirst, Cursor.after_nil, Shift.insertRow_before (Nat.lt_of_le_of_ne hrow hfirst)]
    rfl

end Respacing

/-- Spaces at the start of every line move all columns, and one more line of spaces and perhaps a
comment moves all rows from there on. Nothing else changes: the declarations and the statements of
the text are the same or fail to be read for the same reason, at the places that these move to. -/
theorem Frontend.read_relative (source : String) :
    (∀ columns,
      Frontend.read parseDeclarations (indentLines columns source)
        = moveOutcome (Shift.indent columns).relocation
          (List.map (Declaration.move (Shift.indent columns).relocation))
          (Frontend.read parseDeclarations source) ∧
      Frontend.read parseStatements (indentLines columns source)
        = moveOutcome (Shift.indent columns).relocation
          (List.map (Statement.move (Shift.indent columns).relocation))
          (Frontend.read parseStatements source)) ∧
    ∀ before line after row, source.toList = before ++ after → EndsLine before →
      IsBlankLine line → row = (Cursor.origin.after before).row →
      Frontend.read parseDeclarations (String.ofList (before ++ line ++ '\n' :: after))
        = moveOutcome (Shift.insertRow row).relocation
          (List.map (Declaration.move (Shift.insertRow row).relocation))
          (Frontend.read parseDeclarations source) ∧
      Frontend.read parseStatements (String.ofList (before ++ line ++ '\n' :: after))
        = moveOutcome (Shift.insertRow row).relocation
          (List.map (Statement.move (Shift.insertRow row).relocation))
          (Frontend.read parseStatements source) := by
  constructor
  · intro columns
    have hspaces : '\n' ∉ List.replicate columns ' ' := by simp
    have hstart : Cursor.origin.after ((Respacing.indent columns).gap 1)
        = (Respacing.indent columns).shift.relocation.move Cursor.origin := by
      show Cursor.origin.after (List.replicate columns ' ') = _
      rw [Cursor.after_of_notMem hspaces, List.length_replicate]
      rfl
    rw [← Respacing.indent_text]
    exact read_programs_respaced (Respacing.indent columns) hstart source
  · rintro before line after row hsource hbefore hline rfl
    have hrow : 1 ≤ (Cursor.origin.after before).row := by
      rw [Cursor.after_row]
      exact Nat.le_add_right 1 _
    have hsplit : source = String.ofList (before ++ after) := by
      rw [← hsource, String.ofList_toList]
    rw [← Respacing.insertLine_text hbefore hline after, ← hsplit]
    exact read_programs_respaced (Respacing.insertLine _ hline)
      (Respacing.insertLine_start _ hline hrow) source

/-- A text that is read, as can be computed. -/
theorem Frontend.exists_read {α : Type}
    (parse : Location → List Token → Except (Failure ParseError) α) (source : String)
    (h : (Frontend.read parse source).toOption.isSome = true) :
    ∃ a, Frontend.read parse source = .ok a := by
  cases hread : Frontend.read parse source with
  | error e =>
    rw [hread] at h
    cases h
  | ok a => exact ⟨a, rfl⟩

/-- A comment before the body of a block, further to the left than the block. -/
theorem Frontend.read_relative_comment : ∃ statements,
    Frontend.read parseStatements "  if a do\n    f -1\n  else do g c" = .ok statements ∧
      Frontend.read parseStatements "  if a do\n # b\n    f -1\n  else do g c"
        = .ok (statements.map (Statement.move (Shift.insertRow 2).relocation)) := by
  obtain ⟨statements, hread⟩ := exists_read parseStatements
    "  if a do\n    f -1\n  else do g c" (by decide +kernel)
  have hcomment : IsBlankLine " # b".toList :=
    ⟨1, "# b".toList, by simp, .inr ⟨" b".toList, by simp, by simp⟩⟩
  have hmoved := ((read_relative "  if a do\n    f -1\n  else do g c").2 "  if a do\n".toList
    " # b".toList "    f -1\n  else do g c".toList 2 (by simp) (.inr (by simp)) hcomment
    (by decide)).2
  rw [hread] at hmoved
  exact ⟨statements, hread, hmoved⟩

end Offside
