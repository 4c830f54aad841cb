import Offside.Proofs.Diagnostic.Excerpts
import Offside.Proofs.Frontend.Diagnostics

/-!
# Diagnostics of the front end beside the source text

A diagnostic of the front end points into the source text, so the rows it starts and ends on are
there, and its form with an excerpt shows them.

* `Frontend.full_excerpt`: the shown lines are these rows, and the marks underline the columns of the
  diagnostic. On several rows the first marks are as long as the first row exactly if the row is
  ASCII text: their length is taken from its bytes, its columns from its characters.
* `Frontend.full_excerpt_overlong`: a letter with an accent on the first row of a function, and the
  marks under it are one character too long.
-/

namespace Offside.Frontend

variable {requireMain : Bool} {source : String} {failure : Failure Cause}

/-- A source text that is not compiled has a diagnostic. Beside the source text it shows the rows it
starts and ends on, with marks under them. On one row these are tildes under its columns, or one
caret. On several rows, from a character of the first one on, the first marks are as long as the row
exactly if all characters of the row are ASCII characters; the last marks go up to its last
column. -/
theorem full_excerpt (h : compile requireMain source = .error failure) :
    ∃ e : Located Cause, failure = .reported e ∧ ∃ row rest row' rest' : List Char,
      Text.IsRow source.toList e.loc.start.row row rest ∧
      Text.IsRow source.toList e.loc.stop.row row' rest' ∧
      (e.loc.start.row = e.loc.stop.row →
        e.diagnostic.full source = "\n".intercalate [e.diagnostic.human, "",
          String.ofList (Text.shown row rest),
          Text.copies (e.loc.start.col - 1) ' ' ++
            if e.loc.stop.col - e.loc.start.col ≤ 1 then "^"
            else Text.copies (e.loc.stop.col - e.loc.start.col) '~']) ∧
      (e.loc.start.row ≠ e.loc.stop.row → ∃ marks marks' : String,
        e.diagnostic.full source = "\n".intercalate [e.diagnostic.human, "",
          String.ofList (Text.shown row rest), marks,
          String.ofList (Text.shown row' rest'), marks'] ∧
        (1 ≤ e.loc.start.col → e.loc.start.col ≤ (Text.shown row rest).length →
          (marks.length = (Text.shown row rest).length ↔
            ∀ c ∈ Text.shown row rest, c.toNat < 128)) ∧
        (2 ≤ e.loc.stop.col → marks'.length = e.loc.stop.col - 1)) := by
  obtain ⟨e, rfl, hstart, hstop⟩ := compile_error_within h
  have hfirst := Cursor.le_def.1 hstart
  have hmiddle := Cursor.le_def.1 e.loc.start_le_stop
  have hlast := Cursor.le_def.1 hstop
  have horigin : (sourceSpan source).start.row = 1 := rfl
  have hend : (sourceSpan source).stop = Cursor.origin.after source.toList := rfl
  rw [hend] at hlast
  obtain ⟨row, rest, hrow⟩ : ∃ row rest, Text.IsRow source.toList e.loc.start.row row rest :=
    Text.exists_isRow (by omega) (by omega)
  obtain ⟨row', rest', hrow'⟩ : ∃ row rest, Text.IsRow source.toList e.loc.stop.row row rest :=
    Text.exists_isRow (by omega) (by omega)
  refine ⟨e, rfl, row, rest, row', rest', hrow, hrow', e.diagnostic.full_row hrow, fun hrows => ?_⟩
  obtain ⟨marks, marks', hfull, hbytes, hcolumns⟩ := e.diagnostic.full_rows hrow hrow' hrows
  refine ⟨marks, marks', hfull, fun hfrom hto => ?_, hcolumns⟩
  rw [hbytes hfrom hto, Text.utf8ByteSize_eq_length]

/-- A function whose end is reached, on two rows of ASCII text: both rows are marked in full. -/
theorem full_excerpt_function :
    ∃ (e : Located Cause) (row rest row' rest' : List Char) (marks marks' : String),
      compile false "def f() () \x7b\n\x7d" = .error (.reported e) ∧
      Text.IsRow "def f() () \x7b\n\x7d".toList e.loc.start.row row rest ∧
      e.diagnostic.full "def f() () \x7b\n\x7d" = "\n".intercalate [e.diagnostic.human, "",
        String.ofList (Text.shown row rest), marks, String.ofList (Text.shown row' rest'), marks'] ∧
      (marks.length = (Text.shown row rest).length ↔ ∀ c ∈ Text.shown row rest, c.toNat < 128) ∧
      marks'.length = 1 ∧
      e.diagnostic.full "def f() () \x7b\n\x7d" =
        "Well-formedness check error at (1,1)-(2,2).  " ++
        "The function may reach the end of control flow without returning a value.\n\n" ++
        "def f() () \x7b\n^~~~~~~~~~~~\n\x7d\n^" := by
  have hcompile : compile false "def f() () \x7b\n\x7d" = .error (.reported
      ⟨.check .mayFallThrough, ⟨1, 1⟩, ⟨2, 2⟩, by decide⟩) := by
    rw [Frontend.compile, Frontend.tokenize, Token.ofSource_eq_trees]
    cbv
  obtain ⟨e, he, row, rest, row', rest', hrow, hrow', -, hrows⟩ := full_excerpt hcompile
  cases he
  obtain ⟨marks, marks', hfull, hfirst, hlast⟩ := hrows (by decide)
  have hlength : 1 ≤ (Text.shown row rest).length := by
    rw [← String.length_ofList, ← sourceLine_eq hrow]
    decide +kernel
  exact ⟨_, row, rest, row', rest', marks, marks', hcompile, hrow, hfull,
    hfirst (Nat.le_refl 1) hlength, hlast (Nat.le_refl 2), by decide +kernel⟩

/-- The same function with a comment on its first row. The row has sixteen characters, one of them a
letter with an accent, and the marks from its first character on are seventeen. -/
theorem full_excerpt_overlong :
    ∃ (e : Located Cause) (marks : String),
      compile false "def f() () \x7b # \u00e9\n\x7d" = .error (.reported e) ∧
      e.loc.start = ⟨1, 1⟩ ∧ e.loc.stop = ⟨2, 2⟩ ∧
      Text.IsRow "def f() () \x7b # \u00e9\n\x7d".toList 1 "def f() () \x7b # \u00e9".toList
        "\n\x7d".toList ∧
      e.diagnostic.full "def f() () \x7b # \u00e9\n\x7d" =
        "\n".intercalate [e.diagnostic.human, "", "def f() () \x7b # \u00e9", marks, "\x7d", "^"] ∧
      "def f() () \x7b # \u00e9".length = 16 ∧ marks = "^~~~~~~~~~~~~~~~~" ∧ marks.length = 17 := by
  have hcompile : compile false "def f() () \x7b # \u00e9\n\x7d" = .error (.reported
      ⟨.check .mayFallThrough, ⟨1, 1⟩, ⟨2, 2⟩, by decide⟩) := by
    rw [Frontend.compile, Frontend.tokenize, Token.ofSource_eq_trees]
    cbv
  exact ⟨_, "^~~~~~~~~~~~~~~~~", hcompile, rfl, rfl,
    ⟨⟨[], by decide +kernel, rfl⟩, by decide +kernel, .inr ⟨['\x7d'], by decide +kernel⟩⟩,
    by decide +kernel, by decide +kernel, rfl, by decide +kernel⟩

end Offside.Frontend
