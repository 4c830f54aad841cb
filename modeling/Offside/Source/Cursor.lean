/-!
# Cursors

A cursor names one character of a source text by its row and column, both counted from one.

* `Cursor.Le`: reading order, by row and then by column.
* `coordinateBound`: what rows and columns stay below.
* `Cursor.step`, `Cursor.after`: where the next character stands once some text has been read.
  A line feed opens the next row; every other character, carriage returns included, moves one
  column to the right.
* `Cursor.le_after`: reading never moves a cursor backwards.
-/

namespace Offside

/-- A position in a source text. -/
structure Cursor where
  /-- The row, counted from one. -/
  row : Nat
  /-- The column, counted from one in characters. -/
  col : Nat
deriving DecidableEq

/-- Rows, columns and positions in a sequence are numbers of sixty-four bits. -/
def coordinateBound : Nat := UInt64.size

namespace Cursor

/-! ## Reading order -/

/-- `a` stands at or before `b` in reading order. -/
protected def Le (a b : Cursor) : Prop :=
  a.row < b.row ∨ a.row = b.row ∧ a.col ≤ b.col

instance : LE Cursor := ⟨Cursor.Le⟩

/-- Reading order, spelled out. -/
theorem le_def {a b : Cursor} : a ≤ b ↔ a.row < b.row ∨ a.row = b.row ∧ a.col ≤ b.col :=
  Iff.rfl

instance (a b : Cursor) : Decidable (a ≤ b) :=
  inferInstanceAs (Decidable (a.row < b.row ∨ a.row = b.row ∧ a.col ≤ b.col))

/-- The earlier of two cursors. -/
instance : Min Cursor := minOfLe

/-- The later of two cursors. -/
instance : Max Cursor := maxOfLe

/-- Reading order is reflexive. -/
theorem le_refl (a : Cursor) : a ≤ a := Or.inr ⟨rfl, Nat.le_refl _⟩

/-- Reading order is transitive. -/
theorem le_trans {a b c : Cursor} (hab : a ≤ b) (hbc : b ≤ c) : a ≤ c := by
  rw [le_def] at *
  omega

/-- Any two cursors are in order one way or the other. -/
theorem le_total (a b : Cursor) : a ≤ b ∨ b ≤ a := by
  simp only [le_def]
  omega

/-- The earlier of two cursors is not after the first. -/
theorem min_le_left (a b : Cursor) : min a b ≤ a := by
  rw [show min a b = if a ≤ b then a else b from rfl]
  split
  · exact le_refl a
  · exact (le_total a b).resolve_left ‹_›

/-- The later of two cursors is not before the first. -/
theorem le_max_left (a b : Cursor) : a ≤ max a b := by
  rw [show max a b = if a ≤ b then b else a from rfl]
  split
  · assumption
  · exact le_refl a

/-! ## Reading text -/

/-- Where a text begins. -/
def origin : Cursor := ⟨1, 1⟩

/-- The position after reading one character. -/
def step (a : Cursor) (c : Char) : Cursor :=
  if c = '\n' then ⟨a.row + 1, 1⟩ else ⟨a.row, a.col + 1⟩

/-- The position after reading some characters. -/
def after (a : Cursor) (text : List Char) : Cursor := text.foldl step a

/-- Reading nothing stays in place. -/
@[simp] theorem after_nil (a : Cursor) : a.after [] = a := rfl

/-- Reading goes character by character. -/
@[simp] theorem after_cons (a : Cursor) (c : Char) (text : List Char) :
    a.after (c :: text) = (a.step c).after text := rfl

/-- Reading a text is reading its parts in turn. -/
theorem after_append (a : Cursor) (s t : List Char) : a.after (s ++ t) = (a.after s).after t :=
  List.foldl_append

/-- One character moves a cursor forward. -/
theorem le_step (a : Cursor) (c : Char) : a ≤ a.step c := by
  unfold step
  split <;> simp [le_def]

/-- Reading never moves a cursor backwards. -/
theorem le_after (a : Cursor) (text : List Char) : a ≤ a.after text := by
  induction text generalizing a with
  | nil => exact le_refl a
  | cons c text ih => exact le_trans (le_step a c) (ih (a.step c))

end Cursor

end Offside
