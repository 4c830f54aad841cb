import Offside.Source.Location

/-!
# Cursors and locations in reading order

* `Cursor.le_antisymm`, `Cursor.not_after_le`: reading order is antisymmetric, and reading some text
  moves a cursor strictly forward. `Cursor.after_of_notMem`, `Cursor.after_row`: it moves to a later
  row at each line feed and stays on its row at other characters.
* `Location.join_start`, `Location.join_stop`: of two locations in order the join runs from the
  start of the first to the end of the second.
* `Location.Within`: one location lies inside another.
-/

namespace Offside

namespace Cursor

/-- Two cursors that are in order both ways are the same. -/
theorem le_antisymm {a b : Cursor} (hab : a ≤ b) (hba : b ≤ a) : a = b := by
  obtain ⟨r, c⟩ := a
  obtain ⟨r', c'⟩ := b
  simp only [le_def] at hab hba
  simp only [mk.injEq]
  omega

/-- One character moves a cursor strictly forward. -/
theorem not_step_le (a : Cursor) (c : Char) : ¬ a.step c ≤ a := by
  unfold step
  split <;> simp [le_def]

/-- Reading some text moves a cursor strictly forward. -/
theorem not_after_le (a : Cursor) {text : List Char} (h : text ≠ []) : ¬ a.after text ≤ a := by
  cases text with
  | nil => exact absurd rfl h
  | cons c text =>
    intro hle
    rw [after_cons] at hle
    exact not_step_le a c (le_trans (le_after (a.step c) text) hle)

/-- Reading on one row moves a cursor by the length of the text. -/
theorem after_of_notMem {text : List Char} (h : '\n' ∉ text) (a : Cursor) :
    a.after text = ⟨a.row, a.col + text.length⟩ := by
  induction text generalizing a with
  | nil => rfl
  | cons c text ih =>
    rw [List.mem_cons, not_or] at h
    have hstep : a.step c = ⟨a.row, a.col + 1⟩ := if_neg (Ne.symm h.1)
    rw [after_cons, hstep, ih h.2, List.length_cons]
    simp only [Cursor.mk.injEq, true_and]
    omega

/-- Reading a text moves as many rows down as it has line feeds. -/
theorem after_row (a : Cursor) (text : List Char) :
    (a.after text).row = a.row + text.count '\n' := by
  induction text generalizing a with
  | nil => rfl
  | cons c text ih =>
    rw [after_cons, ih, List.count_cons, step]
    by_cases hc : c = '\n'
    · simp only [hc, if_true, beq_self_eq_true]
      omega
    · simp [hc]

/-- The earlier of two cursors in order is the first. -/
theorem min_eq_left {a b : Cursor} (h : a ≤ b) : min a b = a := if_pos h

/-- The later of two cursors in order is the second. -/
theorem max_eq_right {a b : Cursor} (h : a ≤ b) : max a b = b := if_pos h

/-- The later of two cursors in the other order is the first. -/
theorem max_eq_left {a b : Cursor} (h : b ≤ a) : max a b = a := by
  rw [show max a b = if a ≤ b then b else a from rfl]
  split
  · exact le_antisymm h ‹_›
  · rfl

end Cursor

namespace Location

/-- Locations with the same ends are the same. -/
theorem eq_of_ends {a b : Location} (hstart : a.start = b.start) (hstop : a.stop = b.stop) :
    a = b := by
  obtain ⟨start, stop, h⟩ := a
  cases hstart
  cases hstop
  rfl

/-- A join begins where its first part does, if that one begins first. -/
theorem join_start {a b : Location} (h : a.start ≤ b.start) : (a.join b).start = a.start :=
  Cursor.min_eq_left h

/-- A join ends where its second part does, if that one ends last. -/
theorem join_stop {a b : Location} (h : a.stop ≤ b.stop) : (a.join b).stop = b.stop :=
  Cursor.max_eq_right h

/-- A join ends where its first part does, if that one ends last. -/
theorem join_stop_left {a b : Location} (h : b.stop ≤ a.stop) : (a.join b).stop = a.stop :=
  Cursor.max_eq_left h

/-- A location joined with itself stays as it is. -/
theorem join_self (a : Location) : a.join a = a :=
  eq_of_ends (join_start (Cursor.le_refl _)) (join_stop (Cursor.le_refl _))

/-- `a` lies inside `b`. -/
def Within (a b : Location) : Prop := b.start ≤ a.start ∧ a.stop ≤ b.stop

theorem Within.refl (a : Location) : a.Within a := ⟨Cursor.le_refl _, Cursor.le_refl _⟩

/-- A location lies inside its join with another. -/
theorem within_join_left (a b : Location) : a.Within (a.join b) :=
  ⟨Cursor.min_le_left _ _, Cursor.le_max_left _ _⟩

end Location

end Offside
