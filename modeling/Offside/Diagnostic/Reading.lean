import Offside.Diagnostic.Basic
import Offside.Text.Blank
import Offside.Text.DecimalDigit
import Offside.Text.Quoted

/-!
# Reading diagnostics back

The one-line forms of locations and diagnostics can be read back.

* `ReadError`: the text has not the form asked for, or it names a location that would end before it
  starts.
* `Location.ofMachine`: reads `@r,c,r,c`.
* `Diagnostic.ofMachine`: reads `@r,c,r,c message`; the phase is not part of this form.
* `Diagnostic.ofHuman`: reads `Phase error at (r,c)-(r,c).  message`. When the text holds several
  places that look like the middle part, the last one counts (`lastHeader?`).

A coordinate is looked for as a run of decimal digits of any script, but it is a number only if the
digits are ASCII and the value is below `coordinateBound`. Neither form has a line feed in it, and
blanks at the end of a diagnostic are dropped before it is read.
-/

namespace Offside

/-- Why a written form could not be read back. -/
inductive ReadError where
  /-- The text does not have the form asked for. -/
  | malformed (text : String)
  /-- The location in the text would end before it starts. -/
  | inverted

/-- What is said about a text that could not be read back. -/
def ReadError.message : ReadError → String
  | malformed text => "malformed diagnostic " ++ Text.quoted text
  | inverted => Fault.inverted.message

/-! ## Coordinates -/

/-- The number that a run of digits denotes, if it can be a row or a column. -/
def coordinate? (digits : List Char) : Option Nat :=
  if digits.all Char.isDigit && Text.decimalValue digits < coordinateBound then
    some (Text.decimalValue digits)
  else none

/-- Four runs of digits: start row, start column, end row, end column. -/
structure Corners where
  /-- The row of the start. -/
  startRow : List Char
  /-- The column of the start. -/
  startCol : List Char
  /-- The row of the end. -/
  stopRow : List Char
  /-- The column of the end. -/
  stopCol : List Char

/-- The two cursors that four runs of digits denote. -/
def Corners.cursors? (k : Corners) : Option (Cursor × Cursor) := do
  let r ← coordinate? k.startRow
  let c ← coordinate? k.startCol
  let r' ← coordinate? k.stopRow
  let c' ← coordinate? k.stopCol
  pure (⟨r, c⟩, ⟨r', c'⟩)

/-- The location that four runs of digits in `text` denote. -/
def Corners.location (text : String) (k : Corners) : Except ReadError Location :=
  match k.cursors? with
  | none => .error (.malformed text)
  | some (a, b) =>
    match Location.between? a b with
    | none => .error .inverted
    | some loc => .ok loc

/-! ## Pieces of the written forms -/

/-- What follows the literal text `lit`, if `input` begins with it. -/
def literal? : (lit input : List Char) → Option (List Char)
  | [], input => some input
  | _ :: _, [] => none
  | l :: lit, c :: input => if l = c then literal? lit input else none

/-- A run of at least one digit, as long as possible, and what follows it. -/
def digits? (input : List Char) : Option (List Char × List Char) :=
  match input.takeWhile Text.isDecimalDigit with
  | [] => none
  | run => some (run, input.dropWhile Text.isDecimalDigit)

/-- The form `@r,c,r,c` and what follows it. -/
def machineCorners? (input : List Char) : Option (Corners × List Char) := do
  let input ← literal? "@".toList input
  let (r, input) ← digits? input
  let input ← literal? ",".toList input
  let (c, input) ← digits? input
  let input ← literal? ",".toList input
  let (r', input) ← digits? input
  let input ← literal? ",".toList input
  let (c', input) ← digits? input
  pure (⟨r, c, r', c'⟩, input)

/-- The middle part ` error at (r,c)-(r,c).  ` of the form for people, and what follows it. -/
def header? (input : List Char) : Option (Corners × List Char) := do
  let input ← literal? " error at (".toList input
  let (r, input) ← digits? input
  let input ← literal? ",".toList input
  let (c, input) ← digits? input
  let input ← literal? ")-(".toList input
  let (r', input) ← digits? input
  let input ← literal? ",".toList input
  let (c', input) ← digits? input
  let input ← literal? ").  ".toList input
  pure (⟨r, c, r', c'⟩, input)

/-- The last place, not the very first, where the middle part stands: what is before it, the middle
part itself, and what follows it. -/
def lastHeader? : List Char → Option (List Char × Corners × List Char)
  | [] => none
  | c :: input =>
    match lastHeader? input with
    | some (before, found) => some (c :: before, found)
    | none => (header? input).map fun found => ([c], found)

/-! ## Whole forms -/

/-- Reads the form `@r,c,r,c`. -/
def Location.ofMachine (text : String) : Except ReadError Location :=
  match machineCorners? text.toList with
  | some (corners, []) => corners.location text
  | _ => .error (.malformed text)

namespace Diagnostic

/-- Reads the form `@r,c,r,c message`; the phase is supplied. -/
def ofMachine (phase : Phase) (text : String) : Except ReadError Diagnostic :=
  match machineCorners? (Text.dropBlankEnd text.toList) with
  | some (corners, ' ' :: message) =>
    if '\n' ∈ message then .error (.malformed text)
    else do
      let loc ← corners.location text
      pure ⟨phase, loc, String.ofList message⟩
  | _ => .error (.malformed text)

/-- Reads the form `Phase error at (r,c)-(r,c).  message`. -/
def ofHuman (text : String) : Except ReadError Diagnostic :=
  let input := Text.dropBlankEnd text.toList
  if '\n' ∈ input then .error (.malformed text)
  else
    match lastHeader? input with
    | none => .error (.malformed text)
    | some (before, corners, message) =>
      match Phase.ofName? (String.ofList before) with
      | none => .error (.malformed text)
      | some phase => do
        let loc ← corners.location text
        pure ⟨phase, loc, String.ofList message⟩

end Diagnostic

end Offside
