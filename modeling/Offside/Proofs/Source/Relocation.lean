import Offside.Proofs.Diagnostic.Outcomes
import Offside.Proofs.Source.Order

/-!
# Relocations

A relocation moves the cursors of a text, and with them everything that is located in it.

* `Relocation`: a map of cursors that keeps reading order and, where tokens may begin and end, keeps
  cursors apart and the last column before an end next to it.
* `Location.move`, `Failure.move`, `moveOutcome`: locations, failures and outcomes that are moved.
  `Location.move_join`, `Location.move_lastChar?`: joins and closers move along.
* `Relocation.stay`: nothing moves. `Relocation.clamp`: cursors outside a text move to its ends.
  `Relocation.narrow`: cursors to the right of a column move to it.
* `Shift`: rows move on their own, no two into one, and all columns move to the right alike.
-/

namespace Offside

/-- A map of cursors under which what parsers see of locations stays the same. -/
structure Relocation where
  /-- Where a cursor moves. -/
  move : Cursor → Cursor
  /-- Reading order is kept. -/
  mono : ∀ {a b}, a ≤ b → move a ≤ move b
  /-- The cursors that tokens may begin and end at. -/
  Covers : Cursor → Prop
  /-- Cursors of tokens stay apart. -/
  injective : ∀ {a b}, Covers a → Covers b → move a = move b → a = b
  /-- The last column before the end of a token moves with that end. -/
  before : ∀ {c}, Covers c → 2 ≤ c.col →
    2 ≤ (move c).col ∧ move ⟨c.row, c.col - 1⟩ = ⟨(move c).row, (move c).col - 1⟩

namespace Cursor

/-- The earlier of two cursors in the other order is the second. -/
theorem min_eq_right {a b : Cursor} (h : b ≤ a) : min a b = b := by
  rw [show min a b = if a ≤ b then a else b from rfl]
  split
  · exact le_antisymm ‹_› h
  · rfl

/-- The earlier of two cursors moves to the earlier one. -/
theorem move_min (m : Relocation) (a b : Cursor) :
    m.move (min a b) = min (m.move a) (m.move b) := by
  rcases le_total a b with h | h
  · rw [min_eq_left h, min_eq_left (m.mono h)]
  · rw [min_eq_right h, min_eq_right (m.mono h)]

/-- The later of two cursors moves to the later one. -/
theorem move_max (m : Relocation) (a b : Cursor) :
    m.move (max a b) = max (m.move a) (m.move b) := by
  rcases le_total a b with h | h
  · rw [max_eq_right h, max_eq_right (m.mono h)]
  · rw [max_eq_left h, max_eq_left (m.mono h)]

end Cursor

/-! ## Locations and failures -/

namespace Location

variable (m : Relocation)

/-- A location with both its ends moved. -/
def move (l : Location) : Location := ⟨m.move l.start, m.move l.stop, m.mono l.start_le_stop⟩

@[simp] theorem move_start (l : Location) : (l.move m).start = m.move l.start := rfl

@[simp] theorem move_stop (l : Location) : (l.move m).stop = m.move l.stop := rfl

/-- What covers two locations moves with them. -/
@[simp] theorem move_join (a b : Location) : (a.join b).move m = (a.move m).join (b.move m) :=
  eq_of_ends (Cursor.move_min m _ _) (Cursor.move_max m _ _)

@[simp] theorem move_point (c : Cursor) : (point c).move m = point (m.move c) := rfl

@[simp] theorem move_endPoint (l : Location) : l.endPoint.move m = (l.move m).endPoint := rfl

/-- The last character of a location that does not end in the first column. -/
theorem lastChar?_eq {l : Location} (h : 2 ≤ l.stop.col) :
    l.lastChar? = some ⟨⟨l.stop.row, l.stop.col - 1⟩, l.stop, Or.inr ⟨rfl, Nat.sub_le _ _⟩⟩ := by
  rw [lastChar?, between?]
  simp only [Nat.max_eq_left (show 1 ≤ l.stop.col - 1 by omega)]
  exact dif_pos (Or.inr ⟨rfl, Nat.sub_le _ _⟩)

/-- The closer of a block moves with it. -/
theorem move_lastChar? {l : Location} (hcovers : m.Covers l.stop) (h : 2 ≤ l.stop.col) :
    ∃ close, l.lastChar? = some close ∧ (l.move m).lastChar? = some (close.move m) := by
  obtain ⟨htwo, hback⟩ := m.before hcovers h
  refine ⟨_, lastChar?_eq h, ?_⟩
  rw [lastChar?_eq (l := l.move m) htwo]
  exact congrArg some (eq_of_ends hback.symm rfl)

end Location

/-- A cause of failure at a place that moves. -/
def Located.move {ε : Type} (m : Relocation) (e : Located ε) : Located ε := ⟨e.cause, e.loc.move m⟩

/-- A failure at a place that moves. -/
def Failure.move {ε : Type} (m : Relocation) : Failure ε → Failure ε
  | reported error => reported (error.move m)
  | fault broken => fault broken

/-- An outcome whose failure moves and whose value is mapped. -/
def moveOutcome {ε α β : Type} (m : Relocation) (f : α → β) (x : Except (Failure ε) α) :
    Except (Failure ε) β := (x.mapError (Failure.move m)).map f

/-- What comes after an outcome moves along. -/
theorem moveOutcome_bind {ε α β γ δ : Type} {m : Relocation} {f : α → γ} {g : β → δ}
    (x : Except (Failure ε) α) {k : α → Except (Failure ε) β} {k' : γ → Except (Failure ε) δ}
    (hk : ∀ a, x = .ok a → k' (f a) = moveOutcome m g (k a)) :
    (moveOutcome m f x).bind k' = moveOutcome m g (x.bind k) := by
  cases x with
  | error e => rfl
  | ok a => exact hk a rfl

/-- What is made of a value moves along. -/
theorem moveOutcome_map {ε α β γ δ : Type} {m : Relocation} {f : α → γ} {g : β → δ}
    (x : Except (Failure ε) α) {k : α → β} {k' : γ → δ} (hk : ∀ a, k' (f a) = g (k a)) :
    (moveOutcome m f x).map k' = moveOutcome m g (x.map k) := by
  cases x with
  | error e => rfl
  | ok a => exact congrArg Except.ok (hk a)

/-! ## Relocations of texts -/

namespace Relocation

/-- Nothing moves. -/
def stay : Relocation where
  move := id
  mono := id
  Covers _ := True
  injective _ _ := id
  before _ h := ⟨h, rfl⟩

/-- Cursors before the origin or after `stop` move to these ends. -/
def clamp (stop : Cursor) : Relocation where
  move c := max Cursor.origin (min c stop)
  mono := by
    intro a b h
    have hmin : min a stop ≤ min b stop := by
      rcases Cursor.le_total b stop with hb | hb
      · rw [Cursor.min_eq_left hb, Cursor.min_eq_left (Cursor.le_trans h hb)]
        exact h
      · rw [Cursor.min_eq_right hb]
        rcases Cursor.le_total a stop with ha | ha
        · rwa [Cursor.min_eq_left ha]
        · rw [Cursor.min_eq_right ha]
          exact Cursor.le_refl _
    rcases Cursor.le_total Cursor.origin (min a stop) with ha | ha
    · rw [Cursor.max_eq_right ha, Cursor.max_eq_right (Cursor.le_trans ha hmin)]
      exact hmin
    · rw [Cursor.max_eq_left ha]
      exact Cursor.le_max_left _ _
  Covers c := Cursor.origin ≤ c ∧ c ≤ stop
  injective := by
    intro a b ha hb h
    rwa [Cursor.min_eq_left ha.2, Cursor.max_eq_right ha.1, Cursor.min_eq_left hb.2,
      Cursor.max_eq_right hb.1] at h
  before := by
    intro c hc h
    have hback : (⟨c.row, c.col - 1⟩ : Cursor) ≤ c := Or.inr ⟨rfl, Nat.sub_le _ _⟩
    have horigin : Cursor.origin ≤ ⟨c.row, c.col - 1⟩ := by
      have h1 := hc.1
      simp only [Cursor.le_def, Cursor.origin] at h1 ⊢
      omega
    rw [Cursor.min_eq_left hc.2, Cursor.max_eq_right hc.1,
      Cursor.min_eq_left (Cursor.le_trans hback hc.2), Cursor.max_eq_right horigin]
    exact ⟨h, rfl⟩

/-- Cursors inside the text stay where they are. -/
theorem clamp_eq {stop c : Cursor} (hc : (clamp stop).Covers c) : (clamp stop).move c = c := by
  show max Cursor.origin (min c stop) = c
  rw [Cursor.min_eq_left hc.2, Cursor.max_eq_right hc.1]

/-- Every cursor moves into the text. -/
theorem covers_clamp {stop : Cursor} (h : Cursor.origin ≤ stop) (c : Cursor) :
    (clamp stop).Covers ((clamp stop).move c) := by
  refine ⟨Cursor.le_max_left _ _, ?_⟩
  show max Cursor.origin (min c stop) ≤ stop
  have hmin : min c stop ≤ stop := by
    rcases Cursor.le_total c stop with hc | hc
    · rwa [Cursor.min_eq_left hc]
    · rw [Cursor.min_eq_right hc]
      exact Cursor.le_refl _
  rcases Cursor.le_total Cursor.origin (min c stop) with ha | ha
  · rwa [Cursor.max_eq_right ha]
  · rwa [Cursor.max_eq_left ha]

/-- Cursors to the right of a column move to this column of their row. -/
def narrow (last : Nat) : Relocation where
  move c := ⟨c.row, min c.col last⟩
  mono := by
    intro a b h
    simp only [Cursor.le_def] at h ⊢
    omega
  Covers c := c.col ≤ last
  injective := by
    intro a b ha hb h
    rw [Nat.min_eq_left ha, Nat.min_eq_left hb] at h
    exact h
  before := by
    intro c hc h
    have hback : c.col - 1 ≤ last := Nat.le_trans (Nat.sub_le _ _) hc
    rw [Nat.min_eq_left hc, Nat.min_eq_left hback]
    exact ⟨h, rfl⟩

end Relocation

/-- Rows that move on their own, and columns that all move to the right alike. -/
structure Shift where
  /-- Where a row moves. -/
  row : Nat → Nat
  /-- Later rows stay later. -/
  rises : ∀ {a b}, a < b → row a < row b
  /-- By how many columns everything moves to the right. -/
  columns : Nat

namespace Shift

/-- No two rows move into one. -/
theorem row_lt_iff (s : Shift) {a b : Nat} : s.row a < s.row b ↔ a < b := by
  refine ⟨fun h => ?_, s.rises⟩
  rcases Nat.lt_trichotomy a b with hab | hab | hab
  · exact hab
  · rw [hab] at h
    exact absurd h (Nat.lt_irrefl _)
  · exact absurd (Nat.lt_trans h (s.rises hab)) (Nat.lt_irrefl _)

/-- Rows keep their order, also where they may be the same. -/
theorem row_le_iff (s : Shift) {a b : Nat} : s.row a ≤ s.row b ↔ a ≤ b := by
  rw [← Nat.not_lt, s.row_lt_iff, Nat.not_lt]

/-- The relocation by rows and columns. -/
def relocation (s : Shift) : Relocation where
  move c := ⟨s.row c.row, c.col + s.columns⟩
  mono := by
    intro a b h
    rcases Cursor.le_def.1 h with h | ⟨hrow, hcol⟩
    · exact Or.inl (s.rises h)
    · exact Or.inr ⟨congrArg s.row hrow, Nat.add_le_add_right hcol _⟩
  Covers _ := True
  injective := by
    intro a b _ _ h
    obtain ⟨r, c⟩ := a
    obtain ⟨r', c'⟩ := b
    simp only [Cursor.mk.injEq, Nat.add_right_cancel_iff] at h ⊢
    refine ⟨?_, h.2⟩
    rcases Nat.lt_trichotomy r r' with hr | hr | hr
    · exact absurd h.1 (Nat.ne_of_lt (s.rises hr))
    · exact hr
    · exact absurd h.1.symm (Nat.ne_of_lt (s.rises hr))
  before := by
    intro c _ h
    refine ⟨Nat.le_trans h (Nat.le_add_right _ _), ?_⟩
    simp only [Cursor.mk.injEq, true_and]
    omega

@[simp] theorem relocation_move (s : Shift) (c : Cursor) :
    s.relocation.move c = ⟨s.row c.row, c.col + s.columns⟩ := rfl

end Shift

end Offside
