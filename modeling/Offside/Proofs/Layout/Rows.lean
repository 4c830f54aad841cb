import Offside.Proofs.Layout.Steps
import Offside.Proofs.Token.Order

/-!
# Layout by rows

What layout does with tokens of which it is known on which rows they stand.

* `Layout.Lays`: some tokens are laid out as others, whatever follows them.
  `Layout.Lays.append`: that goes token by token, as long as there is no `do`.
  `Layout.arrange_do`: a `do` takes all tokens after it, if none of them begins a line too far to the
  left.
* `Token.Flat`: a token that stands on one row with all its interior. `Token.FlatAll.lays`: such
  tokens stay as they are.
* `Token.Chained`: tokens that each begin on the row where the one before them ends.
  `Layout.separate_chained`: no semicolon is put between them. `Layout.splitRegion_chained`: no
  region ends between them.
-/

namespace Offside

namespace Layout

/-! ## Laying out one token after another -/

/-- Laid-out tokens that begin where they began. -/
def placeAll (ts : List Token) : List Placed := ts.map fun t => ⟨t.loc.start, t⟩

@[simp] theorem placeAll_nil : placeAll [] = [] := rfl

@[simp] theorem placeAll_cons (t : Token) (ts : List Token) :
    placeAll (t :: ts) = ⟨t.loc.start, t⟩ :: placeAll ts := rfl

@[simp] theorem placeAll_append (ts us : List Token) :
    placeAll (ts ++ us) = placeAll ts ++ placeAll us := List.map_append

@[simp] theorem placeAll_token (ts : List Token) : (placeAll ts).map Placed.token = ts := by
  induction ts with
  | nil => rfl
  | cons t ts ih => rw [placeAll_cons, List.map_cons, ih]

/-- Whatever follows them, some tokens are laid out as others. -/
def Lays (r : Rules) (ts laid : List Token) : Prop :=
  ∀ rest, arrange r (ts ++ rest) = (arrange r rest).map (placeAll laid ++ ·)

theorem lays_nil (r : Rules) : Lays r [] [] := by
  intro rest
  cases h : arrange r rest <;> simp [h, Except.map]

theorem Lays.append {r : Rules} {ts us laid laid' : List Token} (ht : Lays r ts laid)
    (hu : Lays r us laid') : Lays r (ts ++ us) (laid ++ laid') := by
  intro rest
  rw [List.append_assoc, ht, hu]
  cases arrange r rest <;> simp [Except.map]

theorem Lays.cons {r : Rules} {t u : Token} {ts laid : List Token} (ht : Lays r [t] [u])
    (hts : Lays r ts laid) : Lays r (t :: ts) (u :: laid) := ht.append hts

/-- Tokens that are laid out with nothing after them. -/
theorem Lays.arrange {r : Rules} {ts laid : List Token} (h : Lays r ts laid) :
    arrange r ts = .ok (placeAll laid) := by
  have := h []
  rw [List.append_nil, arrange_nil] at this
  rw [this]
  simp [Except.map]

theorem lays_leaf {r : Rules} {t : Token} (ht : t.kind ≠ .block) : Lays r [t] [t] :=
  fun _ => arrange_leaf ht

/-- Braces that close to the right of the statements around them. -/
theorem lays_brace {r : Rules} {t : Token} {laid : List Token}
    (ht : t.blockKind? = some (.bracketed .brace)) (hcheck : r.checkBrace t = .ok ())
    (h : Lays ⟨Rules.columnOf r.column t.children, none⟩ t.children laid) :
    Lays r [t] [{ t with
      children := punctuate (Rules.columnOf r.column t.children) (placeAll laid) }] := by
  intro rest
  have hkind : t.kind = .block := Token.kind_of_blockKind? ht
  have henter : r.enter t rest = .ok ⟨⟨Rules.columnOf r.column t.children, none⟩, t.children, rest,
      t.loc, true⟩ := by
    rw [Rules.enter, ht]
    simp only [hcheck, Except.map]
  exact arrange_block hkind henter h.arrange

/-- Brackets other than braces, in which no line begins to the left. -/
theorem lays_brackets {r : Rules} {t : Token} {laid : List Token} (hkind : t.kind = .block)
    (hbrace : t.blockKind? ≠ some (.bracketed .brace)) (hdo : t.blockKind? ≠ some .indented)
    (hcheck : r.checkBrackets t = .ok ()) (h : Lays r t.children laid) :
    Lays r [t] [{ t with children := laid }] := by
  intro rest
  have henter : r.enter t rest = .ok ⟨r, t.children, rest, t.loc, false⟩ := by
    unfold Rules.enter
    split
    · exact absurd ‹_› hbrace
    · exact absurd ‹_› hdo
    · simp only [hcheck, Except.map]
  have := arrange_block hkind henter h.arrange
  rw [List.singleton_append, this]
  simp only [Interior.close, placeAll_token, Bool.false_eq_true, if_false, placeAll_cons,
    placeAll_nil, List.singleton_append]

/-- A `do` whose region goes on to the end of the tokens. -/
theorem arrange_do {r : Rules} {t : Token} {region : List Token} {run : List Placed}
    (ht : t.blockKind? = some .indented) (hchildren : t.children = [])
    (hregion : (splitRegion r.column t.loc.stop.row region).2 = [])
    (hrun : arrange ⟨max (Rules.columnOf r.column region) r.column, some r.column⟩ region
      = .ok run) :
    arrange r (t :: region) = .ok [⟨t.loc.start, { t with
      loc := region.getLast?.elim t.loc fun last => t.loc.join last.loc
      children := punctuate (max (Rules.columnOf r.column region) r.column) run }⟩] := by
  have hall : (splitRegion r.column t.loc.stop.row region).1 = region := by
    have happend := splitRegion_append r.column t.loc.stop.row region
    rwa [hregion, List.append_nil] at happend
  have henter : r.enter t region = .ok (r.enterIndented t region) := by rw [Rules.enter, ht]
  have hinterior : r.enterIndented t region
      = ⟨⟨max (Rules.columnOf r.column region) r.column, some r.column⟩, region, [],
        region.getLast?.elim t.loc fun last => t.loc.join last.loc, true⟩ := by
    simp only [Rules.enterIndented, hchildren, hall, hregion, List.nil_append]
  rw [hinterior] at henter
  rw [arrange_block (Token.kind_of_blockKind? ht) henter hrun, arrange_nil]
  rfl

end Layout

/-! ## Rows -/

namespace Token

/-- Tokens that each begin on the row where the one before them ends, from a first row to a last,
and that are no semicolons. -/
def Chained : (first : Nat) → List Token → (last : Nat) → Prop
  | first, [], last => first = last
  | first, t :: ts, last =>
    t.loc.start.row = first ∧ t.kind ≠ .semicolon ∧ Chained t.loc.stop.row ts last

theorem Chained.append {a b c : Nat} {ts us : List Token} (ht : Chained a ts b)
    (hu : Chained b us c) : Chained a (ts ++ us) c := by
  induction ts generalizing a with
  | nil =>
    cases ht
    exact hu
  | cons t ts ih => exact ⟨ht.1, ht.2.1, ih ht.2.2⟩

mutual

/-- A token that stands on one row with all its interior. -/
def Flat (row : Nat) : Token → Prop
  | ⟨kind, text, loc, children⟩ =>
    loc.start.row = row ∧ loc.stop.row = row ∧ loc.stop.col ≠ 0 ∧ kind ≠ .semicolon ∧
      (kind = .block → text ≠ blockWord) ∧ FlatAll row children

/-- Tokens that stand on one row with all their interiors. -/
def FlatAll (row : Nat) : List Token → Prop
  | [] => True
  | t :: ts => Flat row t ∧ FlatAll row ts

end

theorem flat_iff {row : Nat} {t : Token} : t.Flat row ↔
    t.loc.start.row = row ∧ t.loc.stop.row = row ∧ t.loc.stop.col ≠ 0 ∧ t.kind ≠ .semicolon ∧
      (t.kind = .block → t.text ≠ blockWord) ∧ FlatAll row t.children := by
  cases t
  rw [Flat]

@[simp] theorem flatAll_nil (row : Nat) : FlatAll row [] := by rw [FlatAll]; trivial

@[simp] theorem flatAll_cons {row : Nat} {t : Token} {ts : List Token} :
    FlatAll row (t :: ts) ↔ t.Flat row ∧ FlatAll row ts := by rw [FlatAll]

@[simp] theorem flatAll_append {row : Nat} {ts us : List Token} :
    FlatAll row (ts ++ us) ↔ FlatAll row ts ∧ FlatAll row us := by
  induction ts with
  | nil => simp
  | cons t ts ih => simp [ih, and_assoc]

/-- Tokens on one row are chained. -/
theorem FlatAll.chained {row : Nat} {ts : List Token} (h : FlatAll row ts) :
    Chained row ts row := by
  induction ts with
  | nil => rfl
  | cons t ts ih =>
    obtain ⟨ht, hts⟩ := flatAll_cons.1 h
    obtain ⟨hstart, hstop, -, hkind, -⟩ := flat_iff.1 ht
    refine ⟨hstart, hkind, ?_⟩
    rw [hstop]
    exact ih hts

end Token

/-- The last character of a location is on the row where the location ends, in the column before. -/
theorem Location.lastChar?_start {l : Location} (h : l.stop.col ≠ 0) :
    ∃ close, l.lastChar? = some close ∧
      close.start = ⟨l.stop.row, max (l.stop.col - 1) 1⟩ := by
  cases hlast : l.lastChar? with
  | none => exact absurd ((lastChar?_eq_none_iff l).1 hlast) h
  | some close =>
    refine ⟨close, rfl, ?_⟩
    rw [lastChar?, between?] at hlast
    split at hlast
    · cases hlast
      rfl
    · cases hlast

namespace Layout

open Token

/-- No semicolon is put into tokens that are chained, once a statement is under way. -/
theorem separate_chained (column : Nat) {a b : Nat} {ts : List Token} (h : Chained a ts b)
    (rest : List Placed) :
    separate column a true (placeAll ts ++ rest) = ts ++ separate column b true rest := by
  induction ts generalizing a with
  | nil =>
    cases h
    rfl
  | cons t ts ih =>
    obtain ⟨hstart, hkind, hts⟩ := h
    rw [placeAll_cons, List.cons_append, separate]
    simp only [hstart, Nat.lt_irrefl, decide_false, Bool.and_false, Bool.false_and,
      Bool.false_eq_true, if_false, hkind, List.nil_append, List.cons_append]
    rw [ih hts]

/-- A statement that begins a line in the column of the statements is put after a semicolon, unless it
is the first. -/
theorem separate_statement {column row a b : Nat} {t : Token} {ts : List Token}
    (h : Chained a (t :: ts) b) (hcol : t.loc.start.col = column) (hrow : row < a)
    (inStatement : Bool) (rest : List Placed) :
    separate column row inStatement (placeAll (t :: ts) ++ rest)
      = (if inStatement then [Token.semicolon (Location.point t.loc.start)] else [])
        ++ (t :: ts ++ separate column b true rest) := by
  obtain ⟨hstart, hkind, hts⟩ := h
  rw [placeAll_cons, List.cons_append, separate]
  simp only [hstart, hrow, hcol, decide_true, Bool.and_true, beq_self_eq_true, hkind, if_false,
    separate_chained column hts, List.cons_append]

/-- Chained tokens are a run of one statement. -/
theorem punctuate_chained {column a b : Nat} {ts : List Token} (h : Chained a ts b) :
    punctuate column (placeAll ts) = ts := by
  have hlast : ts.getLast?.any (·.kind = .semicolon) = false := by
    clear column
    induction ts generalizing a with
    | nil => rfl
    | cons t ts ih =>
      cases ts with
      | nil => simpa using h.2.1
      | cons u us =>
        rw [List.getLast?_cons_cons]
        exact ih h.2.2
  have hseparate : separate column 0 false (placeAll ts) = ts := by
    cases ts with
    | nil => rfl
    | cons t ts =>
      have hrest := separate_chained column h.2.2 []
      rw [List.append_nil] at hrest
      rw [placeAll_cons, separate]
      simp only [Bool.false_and, Bool.false_eq_true, if_false, h.2.1, List.nil_append, hrest,
        separate, List.append_nil]
  rw [punctuate, hseparate, dropFinalSemicolon, hlast]
  rfl

/-- A region goes on to the end of tokens that are chained. -/
theorem splitRegion_chained (column : Nat) {a b : Nat} {ts : List Token} (h : Chained a ts b) :
    (splitRegion column a ts).2 = [] := by
  induction ts generalizing a with
  | nil => rfl
  | cons t ts ih =>
    obtain ⟨hstart, -, hts⟩ := h
    have hdedents : dedents column a t = false := by simp [dedents, hstart]
    rw [splitRegion, hdedents]
    exact ih hts

mutual

/-- A token on one row stays as it is. -/
theorem flat_lays {row : Nat} : (t : Token) → t.Flat row → ∀ r, Lays r [t] [t]
  | ⟨kind, text, loc, children⟩, h, r => by
    obtain ⟨hstart, hstop, hcol, -, htext, hchildren⟩ := flat_iff.1 h
    dsimp only at hstart hstop hcol htext hchildren
    by_cases hkind : kind = .block
    · subst hkind
      obtain ⟨close, hclose, hlast⟩ := Location.lastChar?_start hcol
      have hrow : close.start.row = loc.stop.row := by rw [hlast]
      have hdo : (⟨.block, text, loc, children⟩ : Token).blockKind? ≠ some .indented := by
        intro hdo
        have hopener : BlockKind.indented.opener = text := by simpa using List.find?_some hdo
        exact htext rfl hopener.symm
      by_cases hbrace :
          (⟨.block, text, loc, children⟩ : Token).blockKind? = some (.bracketed .brace)
      · have hcheck : r.checkBrace ⟨.block, text, loc, children⟩ = .ok () := by
          rw [Rules.checkBrace]
          simp only [hclose, hrow, hstop, hstart, Nat.le_refl, if_true]
        have hinner := flatAll_lays children hchildren ⟨Rules.columnOf r.column children, none⟩
        have := lays_brace hbrace hcheck hinner
        rwa [punctuate_chained hchildren.chained] at this
      · have hcheck : r.checkBrackets ⟨.block, text, loc, children⟩ = .ok () := by
          rw [Rules.checkBrackets]
          simp only [hstart, splitRegion_chained _ hchildren.chained, hclose, hrow, hstop, Nat.lt_irrefl,
            false_and, if_false]
        exact lays_brackets rfl hbrace hdo hcheck (flatAll_lays children hchildren r)
    · exact lays_leaf hkind

/-- Tokens on one row stay as they are. -/
theorem flatAll_lays {row : Nat} : (ts : List Token) → FlatAll row ts → ∀ r, Lays r ts ts
  | [], _, r => lays_nil r
  | t :: ts, h, r =>
    (flat_lays t (flatAll_cons.1 h).1 r).cons (flatAll_lays ts (flatAll_cons.1 h).2 r)

end

/-- Layout leaves a text of one row as it is. -/
theorem layout_flat {row : Nat} {ts : List Token} (h : FlatAll row ts) : layout ts = .ok ts := by
  rw [layout]
  simp only [(flatAll_lays ts h _).arrange, Except.map, punctuate_chained h.chained]

end Layout

end Offside
