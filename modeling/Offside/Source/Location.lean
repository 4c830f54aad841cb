import Offside.Source.Cursor
import Offside.Text.Decimal

/-!
# Locations

A location is a half-open stretch of source text, from the cursor of its first character up to the
cursor one past its last. It never ends before it starts, and the type says so.

* `Location.between?`: the location between two cursors, if they are in order.
* `Location.one?`: the location of the one character at a cursor, if the next column still is one.
* `Location.ofText`: the stretch that a text read at a cursor covers.
* `Location.join`: the least location that covers two others.
* `Location.lastChar?`: the last character of a location, for a bracketed group its closer. Only a
  location that ends in column zero, which no source text gives rise to, has none
  (`Location.lastChar?_eq_none_iff`).
* `Location.machine`, `Location.human`: the two written forms.
-/

namespace Offside

/-- A half-open stretch of source text. -/
structure Location where
  /-- The cursor of the first character. -/
  start : Cursor
  /-- The cursor one past the last character. -/
  stop : Cursor
  /-- A location does not end before it starts. -/
  start_le_stop : start ≤ stop
deriving DecidableEq

namespace Location

/-- The location from `a` up to `b`, if `b` is not before `a`. -/
def between? (a b : Cursor) : Option Location :=
  if h : a ≤ b then some ⟨a, b, h⟩ else none

/-- The location of width zero at a cursor. -/
def point (a : Cursor) : Location := ⟨a, a, Cursor.le_refl a⟩

/-- The location of the one character at a cursor. -/
def one (a : Cursor) : Location :=
  ⟨a, ⟨a.row, a.col + 1⟩, Or.inr ⟨rfl, Nat.le_succ _⟩⟩

/-- The location of the one character at a cursor, unless it stands in the last column of all, which
has no column after it to end at. -/
def one? (a : Cursor) : Option Location :=
  if a.col + 1 < coordinateBound then some (one a) else none

/-- The location of `text` when its first character stands at `a`. -/
def ofText (a : Cursor) (text : List Char) : Location := ⟨a, a.after text, a.le_after text⟩

/-- The least location that covers both `a` and `b`, and so all text between them. -/
def join (a b : Location) : Location where
  start := min a.start b.start
  stop := max a.stop b.stop
  start_le_stop := Cursor.le_trans (Cursor.min_le_left _ _)
    (Cursor.le_trans a.start_le_stop (Cursor.le_max_left _ _))

/-- The location of width zero at the end of `a`. -/
def endPoint (a : Location) : Location := point a.stop

/-- The location of the last character of `a`, which in column one has width zero. -/
def lastChar? (a : Location) : Option Location :=
  between? ⟨a.stop.row, max (a.stop.col - 1) 1⟩ a.stop

/-- Only a location that ends in column zero has no last character. -/
theorem lastChar?_eq_none_iff (a : Location) : a.lastChar? = none ↔ a.stop.col = 0 := by
  rw [lastChar?, between?]
  split
  all_goals
    rename_i h
    simp only [Cursor.le_def, true_and] at h
    simp only [reduceCtorEq, true_iff, false_iff]
    omega

/-! ## Written forms -/

/-- The form `@r,c,r,c`. -/
def machine (a : Location) : String :=
  "@" ++ Text.decimal a.start.row ++ "," ++ Text.decimal a.start.col ++ ","
    ++ Text.decimal a.stop.row ++ "," ++ Text.decimal a.stop.col

/-- The form `(r,c)-(r,c)`. -/
def human (a : Location) : String :=
  "(" ++ Text.decimal a.start.row ++ "," ++ Text.decimal a.start.col ++ ")-("
    ++ Text.decimal a.stop.row ++ "," ++ Text.decimal a.stop.col ++ ")"

end Location

/-- The location of a whole source text, from its first character to its end. -/
def sourceSpan (source : String) : Location := Location.ofText Cursor.origin source.toList

end Offside
