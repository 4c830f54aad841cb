import Offside.Proofs.Diagnostic.Excerpts
import Offside.Proofs.Frontend.Diagnostics
import Offside.Proofs.Grammar.Reports
import Offside.Proofs.Layout.Extents

/-!
# Diagnostics of the front end are read back

Whatever the front end says about a source text is read back from both written forms.

* `Location.Bounded.of_within`: coordinates inside a text can be read, since no text has so many
  rows or columns.
* `parse_error_inColumns`, `parsed_declaration_inColumns`: moving all cursors to the right of the
  last column that the text can have moves no token, so it moves neither an error of the parser nor
  a declaration.
* `parse_error_legible`: an error of the parser quotes a token of the text, or none.
* `Located.Rereadable`: an error with a legible message at coordinates that can be read.
  `Frontend.compile_rereadable`: stage after stage, all errors are of this kind.
* `Frontend.diagnostics_reread`: so both forms of a diagnostic are read back.
-/

namespace Offside

open Token

/-! ## Sizes -/

/-- The whole text is in the columns that its length allows. -/
theorem sourceSpan_inColumns (source : String) :
    (sourceSpan source).InColumns (1 + source.toList.length) :=
  ⟨Nat.le_add_right _ _, Cursor.after_col_le _ _⟩

/-- A location inside a text, in the columns that its length allows, can be read. -/
theorem Location.Bounded.of_within {source : String} {l : Location}
    (hsize : source.utf8ByteSize < Text.sizeBound) (hrows : l.Within (sourceSpan source))
    (hcolumns : l.InColumns (1 + source.toList.length)) : l.Bounded := by
  have hlength : source.toList.length ≤ source.utf8ByteSize := by
    simpa only [String.ofList_toList] using Text.length_le_utf8ByteSize source.toList
  have hlast : (sourceSpan source).stop.row = 1 + source.toList.count '\n' := Cursor.after_row _ _
  have hcount : source.toList.count '\n' ≤ source.toList.length := List.count_le_length
  have hbound : Text.sizeBound + 1 < coordinateBound := by decide
  have hstop : l.stop.row ≤ (sourceSpan source).stop.row := by
    have hle := Cursor.le_def.1 hrows.2
    omega
  have hstart : l.start.row ≤ l.stop.row := by
    have hle := Cursor.le_def.1 l.start_le_stop
    omega
  obtain ⟨hstartCol, hstopCol⟩ := hcolumns
  exact ⟨by omega, by omega, by omega, by omega⟩

/-! ## Columns of parsed programs -/

section Narrow

variable {last : Nat} {l : Location}

/-- A location in the columns up to `last` stays where it is if all others move to this column. -/
theorem Location.InColumns.move_narrow (h : l.InColumns last) : l.move (.narrow last) = l :=
  Location.eq_of_ends (congrArg (Cursor.mk l.start.row) (Nat.min_eq_left h.start))
    (congrArg (Cursor.mk l.stop.row) (Nat.min_eq_left h.stop))

/-- What stays where it is then is in these columns. -/
theorem Location.InColumns.of_move_narrow (h : l.move (.narrow last) = l) : l.InColumns last := by
  refine ⟨?_, ?_⟩
  · rw [← h]
    exact Nat.min_le_right _ _
  · rw [← h]
    exact Nat.min_le_right _ _

end Narrow

section Source

variable {source : String} {tokens laidOut : List Token}

/-- Laid-out tokens have no spaces and are in the columns that the length of the text allows. -/
theorem laidOut_plain (hlex : Token.ofSource source = .ok tokens)
    (hlayout : Layout.layout tokens = .ok laidOut) :
    ∀ t ∈ laidOut, t.Every (Token.Plain (1 + source.toList.length)) :=
  Layout.layout_plain (Token.ofSource_plain (Nat.le_refl _) hlex) hlayout

/-- The outcome of the parser stays as it is if all cursors to the right of these columns move. -/
theorem parseDeclarations_narrow (hlex : Token.ofSource source = .ok tokens)
    (hlayout : Layout.layout tokens = .ok laidOut) :
    moveOutcome (.narrow (1 + source.toList.length))
        (List.map (Declaration.move (.narrow (1 + source.toList.length))))
        (parseDeclarations (sourceSpan source) laidOut)
      = parseDeclarations (sourceSpan source) laidOut := by
  have hplain := laidOut_plain hlex hlayout
  have hcloses := Layout.layout_closes (Token.ofSource_wide hlex) hlayout
  refine parseDeclarations_stays (fun t ht => ?_) (sourceSpan_inColumns source).move_narrow
    fun t ht => (hplain t ht).mono fun u hu => hu.loc.move_narrow
  refine ((hplain t ht).and (hcloses t ht)).mono fun u hu => ?_
  exact ⟨hu.1.loc.start, hu.1.loc.stop, hu.2⟩

/-- An error of the parser is in these columns. -/
theorem parse_error_inColumns (hlex : Token.ofSource source = .ok tokens)
    (hlayout : Layout.layout tokens = .ok laidOut) {e : Located ParseError}
    (h : parseDeclarations (sourceSpan source) laidOut = .error (.reported e)) :
    e.loc.InColumns (1 + source.toList.length) := by
  have hnarrow := parseDeclarations_narrow hlex hlayout
  rw [h] at hnarrow
  exact .of_move_narrow (move_error_of_stays hnarrow)

/-- A declaration is in these columns. -/
theorem parsed_declaration_inColumns (hlex : Token.ofSource source = .ok tokens)
    (hlayout : Layout.layout tokens = .ok laidOut) {ds : List Declaration}
    (h : parseDeclarations (sourceSpan source) laidOut = .ok ds) :
    ∀ d ∈ ds, d.loc.InColumns (1 + source.toList.length) := by
  have hnarrow := parseDeclarations_narrow hlex hlayout
  rw [h] at hnarrow
  exact fun d hd => .of_move_narrow (move_declaration_of_stays hnarrow d hd)

/-- An error of the parser is legible. -/
theorem parse_error_legible (hlex : Token.ofSource source = .ok tokens)
    (hlayout : Layout.layout tokens = .ok laidOut) {e : Located ParseError}
    (h : parseDeclarations (sourceSpan source) laidOut = .error (.reported e)) :
    Text.Legible e.cause.message := by
  have hnames : e.cause.Names (Token.Plain (1 + source.toList.length)) :=
    parseDeclarations_names (laidOut_plain hlex hlayout) h
  exact ParseError.message_legible (hnames.sayable fun _ ht => ht.text)

end Source

/-! ## All stages -/

/-- An error with a legible message at coordinates that can be read. -/
structure Located.Rereadable (e : Located Cause) : Prop where
  loc : e.loc.Bounded
  message : Text.Legible e.cause.message

namespace Frontend

variable {requireMain : Bool} {source : String} {failure : Failure Cause}

/-- Every failure of the front end is an error of this kind. -/
theorem compile_rereadable (hsize : source.utf8ByteSize < Text.sizeBound)
    (h : compile requireMain source = .error failure) :
    ∃ e : Located Cause, failure = .reported e ∧ e.Rereadable := by
  rcases compile_error_cases h with ⟨e, hlex, rfl⟩ | ⟨tokens, hlex, h⟩
  · have hplain := Token.ofSource_error_plain (Nat.le_refl _) hlex
    exact ⟨_, rfl, .of_within hsize (Token.ofSource_error hlex) hplain.loc,
      LexicalError.message_legible hplain.cause⟩
  rcases h with ⟨failure, hlayout, rfl⟩ | ⟨laidOut, hlayout, h⟩
  · obtain ⟨e, rfl, hwithin⟩ := Layout.layout_error (Token.ofSource_inOrder hlex)
      (Token.ofSource_wide hlex) hlayout
    have hplain := Layout.layout_error_plain (Nat.le_add_right 1 _)
      (Token.ofSource_plain (Nat.le_refl _) hlex) hlayout
    exact ⟨_, rfl, .of_within hsize hwithin hplain.loc, LexicalError.message_legible hplain.cause⟩
  rcases h with ⟨failure, hparse, rfl⟩ | ⟨ds, e, hparse, hcheck, rfl⟩
  · obtain ⟨e, rfl, hwithin⟩ := parse_error_located hlex hlayout hparse
    exact ⟨_, rfl, .of_within hsize hwithin (parse_error_inColumns hlex hlayout hparse),
      parse_error_legible hlex hlayout hparse⟩
  · have hcolumns : e.loc.InColumns (1 + source.toList.length) := by
      rcases check_error_at hcheck with ⟨d, hd, hloc⟩ | hloc
      · exact hloc ▸ parsed_declaration_inColumns hlex hlayout hparse d hd
      · exact hloc ▸ sourceSpan_inColumns source
    have hwithin := check_error_located (parsed_declaration_located hlex hlayout hparse) hcheck
    exact ⟨_, rfl, .of_within hsize hwithin hcolumns, Violation.message_legible e.cause⟩

/-- A source text that is not compiled has a diagnostic, and it is read back from both its forms:
from the form for people, and from the form for programs if the phase is supplied. -/
theorem diagnostics_reread (hsize : source.utf8ByteSize < Text.sizeBound)
    (h : compile requireMain source = .error failure) :
    ∃ e : Located Cause, failure = .reported e ∧
      Diagnostic.ofHuman e.diagnostic.human = .ok e.diagnostic ∧
      Diagnostic.ofMachine e.diagnostic.phase e.diagnostic.machine = .ok e.diagnostic := by
  obtain ⟨e, he, hreread⟩ := compile_rereadable hsize h
  exact ⟨e, he, Diagnostic.reread hreread.loc hreread.message⟩

/-- A diagnostic that quotes the source text. -/
theorem diagnostics_reread_identifier :
    ∃ e : Located Cause, compile true "x" = .error (.reported e) ∧
      e.diagnostic.human = "Parse error at (1,1)-(1,2).  " ++
        "The parser expected a declaration but found the identifier \"x\"." ∧
      Diagnostic.ofHuman e.diagnostic.human = .ok e.diagnostic ∧
      Diagnostic.ofMachine .parse e.diagnostic.machine = .ok e.diagnostic := by
  have hcompile : compile true "x" = .error (.reported
      ⟨.parse ⟨"a declaration", .token .identifier "x"⟩, .one .origin⟩) := by
    rw [Frontend.compile, Frontend.tokenize, Token.ofSource_eq_trees]
    cbv
  obtain ⟨e, he, hhuman, hmachine⟩ := diagnostics_reread (by decide) hcompile
  cases he
  exact ⟨_, hcompile, by decide +kernel, hhuman, hmachine⟩

end Frontend

end Offside
