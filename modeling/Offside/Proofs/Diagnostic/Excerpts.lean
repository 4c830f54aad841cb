import Offside.Diagnostic.Basic
import Offside.Proofs.Source.Order

/-!
# Rows and excerpts

The scanner counts rows by line feeds and columns by characters; an excerpt is cut out by
`Text.lines`, which also takes a carriage return from the end of a line, and its first row of marks
is as long as the shown line has bytes. This module compares the two.

* `Text.rowInduction`: a text is a row, or a row, a line feed and a text.
* `Text.IsRow`: a row of a text and what comes after it, by the cursor at which the row begins;
  `exists_isRow`: every row number up to that of the last cursor has its row.
* `Text.shown`: a row without a carriage return before its line feed; `sourceLine_eq`: this is the
  line of an excerpt, also for the empty row after a last line feed, which is no line.
* `Text.utf8ByteSize_eq_length`: a text has as many bytes as characters exactly if it is ASCII text.
* `Diagnostic.full_row`, `Diagnostic.full_rows`: the form of a diagnostic beside its source text, on
  one row and on several, with the lengths of the marks.
-/

namespace Offside

namespace Text

/-! ## Bytes -/

/-- The bytes of a text, character by character. -/
theorem utf8ByteSize_cons (c : Char) (text : List Char) :
    (String.ofList (c :: text)).utf8ByteSize
      = c.utf8Size + (String.ofList text).utf8ByteSize := by
  have hsplit : String.ofList (c :: text) = String.singleton c ++ String.ofList text := by
    rw [String.singleton_eq_ofList, ← String.ofList_append, List.singleton_append]
  rw [hsplit, String.utf8ByteSize_append, String.utf8ByteSize_singleton]

/-- A text has at most as many characters as bytes. -/
theorem length_le_utf8ByteSize (text : List Char) :
    text.length ≤ (String.ofList text).utf8ByteSize := by
  induction text with
  | nil => exact Nat.zero_le _
  | cons c text ih =>
    have hc : 0 < c.utf8Size := c.utf8Size_pos
    rw [utf8ByteSize_cons, List.length_cons]
    omega

/-- It has exactly as many if all characters are ASCII characters, and only then. -/
theorem utf8ByteSize_eq_length {text : List Char} :
    (String.ofList text).utf8ByteSize = text.length ↔ ∀ c ∈ text, c.toNat < 128 := by
  induction text with
  | nil => simp
  | cons c text ih =>
    have hc : 0 < c.utf8Size := c.utf8Size_pos
    have hone : c.utf8Size = 1 ↔ c.toNat < 128 := by
      rw [Char.utf8Size_eq_one_iff, UInt32.le_iff_toNat_le]
      exact Nat.lt_succ_iff.symm
    have htext := length_le_utf8ByteSize text
    rw [List.forall_mem_cons, ← ih, ← hone, utf8ByteSize_cons, List.length_cons]
    omega

@[simp] theorem length_copies (n : Nat) (c : Char) : (copies n c).length = n := by
  rw [copies, String.length_ofList, List.length_replicate]

/-! ## Rows -/

/-- A text is a row, or a row, a line feed and a text. -/
theorem rowInduction {motive : List Char → Prop} (last : ∀ row, '\n' ∉ row → motive row)
    (line : ∀ row later, '\n' ∉ row → motive later → motive (row ++ '\n' :: later))
    (text : List Char) : motive text := by
  by_cases h : '\n' ∈ text
  · obtain ⟨row, later, rfl, hrow⟩ := List.eq_append_cons_of_mem h
    exact line row later hrow (rowInduction last line later)
  · exact last text h
termination_by text.length
decreasing_by
  rename_i heq
  rw [heq, List.length_append, List.length_cons]
  omega

/-- A row and its line feed move a cursor to the beginning of the next row. -/
theorem after_line {row : List Char} (h : '\n' ∉ row) (number : Nat) (later : List Char) :
    (⟨number, 1⟩ : Cursor).after (row ++ '\n' :: later)
      = (⟨number + 1, 1⟩ : Cursor).after later := by
  rw [Cursor.after_append, Cursor.after_of_notMem h]
  rfl

/-- `row` is the row of this number of a text, and `rest` is the text after it. -/
structure IsRow (text : List Char) (number : Nat) (row rest : List Char) : Prop where
  /-- A cursor reaches the row at its first column. -/
  placed : ∃ before, text = before ++ (row ++ rest) ∧ Cursor.origin.after before = ⟨number, 1⟩
  /-- No line feed is in the row. -/
  no_feed : '\n' ∉ row
  /-- The row goes on to a line feed or to the end of the text. -/
  ends : rest = [] ∨ ∃ later, rest = '\n' :: later

/-- Rows that are counted from `first` on have each number up to that of the last one. -/
theorem exists_row_from {text : List Char} {first number : Nat} (hfirst : first ≤ number)
    (hlast : number ≤ ((⟨first, 1⟩ : Cursor).after text).row) :
    ∃ before row rest, text = before ++ (row ++ rest) ∧
      (⟨first, 1⟩ : Cursor).after before = ⟨number, 1⟩ ∧ '\n' ∉ row ∧
      (rest = [] ∨ ∃ later, rest = '\n' :: later) := by
  induction text using rowInduction generalizing first with
  | last row hrow =>
    rw [Cursor.after_of_notMem hrow] at hlast
    obtain rfl : first = number := Nat.le_antisymm hfirst hlast
    exact ⟨[], row, [], by simp, rfl, hrow, .inl rfl⟩
  | line row later hrow ih =>
    rcases Nat.eq_or_lt_of_le hfirst with rfl | hlt
    · exact ⟨[], row, '\n' :: later, rfl, rfl, hrow, .inr ⟨later, rfl⟩⟩
    · rw [after_line hrow] at hlast
      obtain ⟨before, row', rest, rfl, hbefore, hends⟩ := ih hlt hlast
      refine ⟨row ++ '\n' :: before, row', rest, by simp, ?_, hends⟩
      rw [after_line hrow, hbefore]

/-- Each number up to that of the last cursor of a text is the number of a row. -/
theorem exists_isRow {text : List Char} {number : Nat} (hfirst : 1 ≤ number)
    (hlast : number ≤ (Cursor.origin.after text).row) : ∃ row rest, IsRow text number row rest := by
  obtain ⟨before, row, rest, htext, hbefore, hrow, hends⟩ := exists_row_from hfirst hlast
  exact ⟨row, rest, ⟨before, htext, hbefore⟩, hrow, hends⟩

/-! ## Lines -/

/-- A text without a carriage return at its end. -/
def withoutReturn (row : List Char) : List Char :=
  if row.getLast? = some '\r' then row.dropLast else row

/-- What is shown of a row before `rest`: a carriage return right before the line feed is not. -/
def shown (row rest : List Char) : List Char := if rest = [] then row else withoutReturn row

/-- A text without a carriage return at its end begins with its first character, unless this is
the carriage return. -/
theorem withoutReturn_cons {c : Char} {row : List Char} (h : ¬ (c = '\r' ∧ row = [])) :
    withoutReturn (c :: row) = c :: withoutReturn row := by
  cases row with
  | nil => exact if_neg fun hc => h ⟨Option.some.inj hc, rfl⟩
  | cons d row =>
    rw [withoutReturn, withoutReturn, List.getLast?_cons_cons, List.dropLast_cons_cons]
    split <;> rfl

/-- The lines of a text that begins with a character of no line end. -/
theorem splitLines_cons {c : Char} {text : List Char} (hfeed : c ≠ '\n')
    (hreturn : ¬ (c = '\r' ∧ ∃ later, text = '\n' :: later)) :
    splitLines (c :: text) = match splitLines text with
      | [] => [[c]]
      | line :: others => (c :: line) :: others :=
  splitLines.eq_4 c text hfeed fun later hc htext => hreturn ⟨hc, later, htext⟩

/-- The first line of a text is its first row. -/
theorem splitLines_line {row : List Char} (h : '\n' ∉ row) (later : List Char) :
    splitLines (row ++ '\n' :: later) = withoutReturn row :: splitLines later := by
  induction row with
  | nil => rfl
  | cons c row ih =>
    rw [List.mem_cons, not_or] at h
    by_cases hc : c = '\r' ∧ row = []
    · obtain ⟨rfl, rfl⟩ := hc
      rfl
    · rw [List.cons_append, splitLines_cons (Ne.symm h.1), ih h.2, withoutReturn_cons hc]
      rintro ⟨rfl, later', hlater⟩
      cases row with
      | nil => exact hc ⟨rfl, rfl⟩
      | cons d row =>
        rw [List.cons_append, List.cons_eq_cons] at hlater
        exact h.2 (hlater.1 ▸ List.mem_cons_self)

/-- A text without line feeds is its only line. -/
theorem splitLines_last {row : List Char} (h : '\n' ∉ row) :
    (splitLines row)[0]?.getD [] = row := by
  induction row with
  | nil => rfl
  | cons c row ih =>
    rw [List.mem_cons, not_or] at h
    rw [splitLines_cons (Ne.symm h.1)]
    · have hrow := ih h.2
      cases hsplit : splitLines row with
      | nil =>
        rw [hsplit] at hrow
        exact congrArg (List.cons c) hrow
      | cons line others =>
        rw [hsplit] at hrow
        exact congrArg (List.cons c) hrow
    · rintro ⟨-, later, rfl⟩
      exact h.2 List.mem_cons_self

/-- As many lines come before a row as rows do. -/
theorem splitLines_after {before : List Char} {first number : Nat} (tail : List Char)
    (h : (⟨first, 1⟩ : Cursor).after before = ⟨number, 1⟩) :
    first ≤ number ∧ (splitLines (before ++ tail))[number - first]? = (splitLines tail)[0]? := by
  induction before using rowInduction generalizing first with
  | last row hrow =>
    rw [Cursor.after_of_notMem hrow] at h
    obtain ⟨rfl, hlength⟩ : first = number ∧ 1 + row.length = 1 := Cursor.mk.inj h
    obtain rfl : row = [] := List.eq_nil_of_length_eq_zero (by omega)
    exact ⟨Nat.le_refl _, by rw [Nat.sub_self, List.nil_append]⟩
  | line row later hrow ih =>
    rw [after_line hrow] at h
    obtain ⟨hle, hlines⟩ := ih h
    have hnumber : number - first = number - (first + 1) + 1 := by omega
    refine ⟨by omega, ?_⟩
    rw [List.append_assoc, List.cons_append, splitLines_line hrow, hnumber, List.getElem?_cons_succ,
      hlines]

/-- The first line of a text that begins with a row is what is shown of it. -/
theorem splitLines_row {row rest : List Char} (hrow : '\n' ∉ row)
    (hends : rest = [] ∨ ∃ later, rest = '\n' :: later) :
    (splitLines (row ++ rest))[0]?.getD [] = shown row rest := by
  rcases hends with rfl | ⟨later, rfl⟩
  · rw [List.append_nil, splitLines_last hrow]
    exact (if_pos rfl).symm
  · rw [splitLines_line hrow]
    exact (if_neg (List.cons_ne_nil _ _)).symm

end Text

/-- The line of an excerpt is what is shown of the row. -/
theorem sourceLine_eq {source : String} {number : Nat} {row rest : List Char}
    (h : Text.IsRow source.toList number row rest) :
    sourceLine source number = String.ofList (Text.shown row rest) := by
  obtain ⟨before, htext, hbefore⟩ := h.placed
  obtain ⟨-, hlines⟩ := Text.splitLines_after (row ++ rest) hbefore
  rw [sourceLine, Text.lines, htext, List.getElem?_map, hlines, ← Text.splitLines_row h.no_feed h.ends]
  cases (Text.splitLines (row ++ rest))[0]? <;> rfl

namespace Diagnostic

variable {source : String} {d : Diagnostic} {row rest row' rest' : List Char}

/-- A diagnostic on one row shows the row and underlines its columns. -/
theorem full_row (hrow : Text.IsRow source.toList d.loc.start.row row rest)
    (h : d.loc.start.row = d.loc.stop.row) :
    d.full source = "\n".intercalate [d.human, "", String.ofList (Text.shown row rest),
      Text.copies (d.loc.start.col - 1) ' ' ++
        if d.loc.stop.col - d.loc.start.col ≤ 1 then "^"
        else Text.copies (d.loc.stop.col - d.loc.start.col) '~'] := by
  rw [full, Location.excerpt, if_pos h, sourceLine_eq hrow]
  rfl

/-- A diagnostic on several rows shows the first and the last of them. From a character of the first
row on the marks under it are as long as the row has bytes. -/
theorem full_rows (hrow : Text.IsRow source.toList d.loc.start.row row rest)
    (hrow' : Text.IsRow source.toList d.loc.stop.row row' rest')
    (h : d.loc.start.row ≠ d.loc.stop.row) :
    ∃ marks marks' : String,
      d.full source = "\n".intercalate [d.human, "", String.ofList (Text.shown row rest), marks,
        String.ofList (Text.shown row' rest'), marks'] ∧
      (1 ≤ d.loc.start.col → d.loc.start.col ≤ (Text.shown row rest).length →
        marks.length = (String.ofList (Text.shown row rest)).utf8ByteSize) ∧
      (2 ≤ d.loc.stop.col → marks'.length = d.loc.stop.col - 1) := by
  refine ⟨_, _, by rw [full, Location.excerpt, if_neg h, sourceLine_eq hrow, sourceLine_eq hrow'],
    fun hfirst hlast => ?_, fun hstop => ?_⟩
  · have hbytes := Text.length_le_utf8ByteSize (Text.shown row rest)
    rw [String.length_append, String.length_append, Text.length_copies, Text.length_copies]
    have hcaret : "^".length = 1 := rfl
    omega
  · rw [String.length_append, Text.length_copies]
    have hcaret : "^".length = 1 := rfl
    omega

end Diagnostic

end Offside
