import Offside.Layout.Arrangement
import Offside.Proofs.Diagnostic.Outcomes

/-!
# What layout does in one step

* `Layout.Rules.enter_cases`, `Layout.Rules.enter_error_cases`: the three ways to enter a block, and
  the two checks that can fail.
* `Layout.arrange_nil`, `Layout.arrange_leaf`, `Layout.arrange_cons`, `Layout.arrange_block`: laying
  out the first of some sibling tokens; `Layout.arrange_cases`, `Layout.arrange_error_cases`: what
  an arrangement has done with it. `Layout.arrange_induction`, `Layout.arrange_error_induction`:
  what holds of a whole arrangement, or of one that fails, step by step.
* `Layout.layout_ok`, `Layout.layout_failed`: laying out a whole input.
* `Layout.separate_begins`, `Layout.separate_continues`, `Layout.separate_drops`: what becomes of
  the first token of a run that is separated. `Layout.punctuate_flatMap`: punctuating a run keeps
  whatever is read from tokens other than semicolons.
-/

namespace Offside.Layout

namespace Rules

/-- Braces and brackets keep their interior and what follows them; a `do` takes its region. -/
theorem enter_cases {r : Rules} {t : Token} {rest : List Token} {interior : Interior}
    (h : r.enter t rest = .ok interior) :
    (t.blockKind? = some (.bracketed .brace) ∧ r.checkBrace t = .ok () ∧
      interior = ⟨⟨columnOf r.column t.children, none⟩, t.children, rest, t.loc, true⟩) ∨
    (t.blockKind? = some .indented ∧ interior = r.enterIndented t rest) ∨
    (t.blockKind? ≠ some .indented ∧ r.checkBrackets t = .ok () ∧
      interior = ⟨r, t.children, rest, t.loc, false⟩) := by
  unfold enter at h
  split at h
  · rename_i hk
    obtain ⟨⟨⟩, hcheck, rfl⟩ := map_ok_iff.1 h
    exact Or.inl ⟨hk, hcheck, rfl⟩
  · rename_i hk
    cases h
    exact Or.inr (Or.inl ⟨hk, rfl⟩)
  · rename_i hindented
    obtain ⟨⟨⟩, hcheck, rfl⟩ := map_ok_iff.1 h
    exact Or.inr (Or.inr ⟨hindented, hcheck, rfl⟩)

/-- A block cannot be entered if one of its checks fails. -/
theorem enter_error_cases {r : Rules} {t : Token} {rest : List Token}
    {failure : Failure LexicalError} (h : r.enter t rest = .error failure) :
    r.checkBrace t = .error failure ∨ r.checkBrackets t = .error failure := by
  unfold enter at h
  split at h
  · exact Or.inl (map_error_iff.1 h)
  · cases h
  · exact Or.inr (map_error_iff.1 h)

end Rules

/-- Nothing is laid out as nothing. -/
@[simp] theorem arrange_nil (r : Rules) : arrange r [] = .ok [] := by rw [arrange]

/-- A token that is no block stays as it is. -/
theorem arrange_leaf {r : Rules} {t : Token} {rest : List Token} (ht : t.kind ≠ .block) :
    arrange r (t :: rest) = (arrange r rest).map (⟨t.loc.start, t⟩ :: ·) := by
  rw [arrange, if_neg ht]
  cases arrange r rest <;> rfl

/-- A block is entered and laid out inside, and then what follows it is laid out. -/
theorem arrange_cons {r : Rules} {t : Token} {rest : List Token} (ht : t.kind = .block) :
    arrange r (t :: rest) = (r.enter t rest).bind fun interior =>
      (arrange interior.rules interior.tokens).bind fun run =>
        (arrange r interior.rest).map (⟨t.loc.start, interior.close t run⟩ :: ·) := by
  rw [arrange, if_pos ht]
  split
  · rename_i heq
    rw [heq]
    rfl
  · rename_i interior heq
    have hbind : ((r.enter t rest).bind fun interior =>
        (arrange interior.rules interior.tokens).bind fun run =>
          (arrange r interior.rest).map (⟨t.loc.start, interior.close t run⟩ :: ·))
        = (arrange interior.rules interior.tokens).bind fun run =>
          (arrange r interior.rest).map (⟨t.loc.start, interior.close t run⟩ :: ·) := by
      rw [heq]
      rfl
    rw [hbind]
    cases arrange interior.rules interior.tokens with
    | error e => rfl
    | ok run => cases arrange r interior.rest <;> rfl

/-- A block is laid out inside, and then what follows it. -/
theorem arrange_block {r : Rules} {t : Token} {rest : List Token} (ht : t.kind = .block)
    {interior : Interior} (h : r.enter t rest = .ok interior) {run : List Placed}
    (hrun : arrange interior.rules interior.tokens = .ok run) :
    arrange r (t :: rest) =
      (arrange r interior.rest).map (⟨t.loc.start, interior.close t run⟩ :: ·) := by
  rw [arrange_cons ht, h]
  show (arrange interior.rules interior.tokens).bind _ = _
  rw [hrun]
  rfl

/-- What has been done with the first of some tokens that are laid out. -/
theorem arrange_cases {r : Rules} {t : Token} {rest : List Token} {out : List Placed}
    (h : arrange r (t :: rest) = .ok out) :
    (t.kind ≠ .block ∧ ∃ others, arrange r rest = .ok others ∧ out = ⟨t.loc.start, t⟩ :: others) ∨
    (t.kind = .block ∧ ∃ interior run others, r.enter t rest = .ok interior ∧
      arrange interior.rules interior.tokens = .ok run ∧ arrange r interior.rest = .ok others ∧
      out = ⟨t.loc.start, interior.close t run⟩ :: others) := by
  by_cases ht : t.kind = .block
  · rw [arrange_cons ht] at h
    obtain ⟨interior, henter, h⟩ := bind_ok_iff.1 h
    obtain ⟨run, hrun, h⟩ := bind_ok_iff.1 h
    obtain ⟨others, hothers, rfl⟩ := map_ok_iff.1 h
    exact Or.inr ⟨ht, interior, run, others, henter, hrun, hothers, rfl⟩
  · rw [arrange_leaf ht] at h
    obtain ⟨others, hothers, rfl⟩ := map_ok_iff.1 h
    exact Or.inl ⟨ht, others, hothers, rfl⟩

/-- Which of the steps has failed where the arrangement of some tokens has. -/
theorem arrange_error_cases {r : Rules} {t : Token} {rest : List Token}
    {failure : Failure LexicalError} (h : arrange r (t :: rest) = .error failure) :
    (t.kind ≠ .block ∧ arrange r rest = .error failure) ∨
    (t.kind = .block ∧ (r.enter t rest = .error failure ∨
      ∃ interior, r.enter t rest = .ok interior ∧
        (arrange interior.rules interior.tokens = .error failure ∨
          arrange r interior.rest = .error failure))) := by
  by_cases ht : t.kind = .block
  · rw [arrange_cons ht] at h
    refine Or.inr ⟨ht, ?_⟩
    rcases bind_error_iff.1 h with henter | ⟨interior, henter, h⟩
    · exact Or.inl henter
    rcases bind_error_iff.1 h with hrun | ⟨run, -, h⟩
    · exact Or.inr ⟨interior, henter, Or.inl hrun⟩
    · exact Or.inr ⟨interior, henter, Or.inr (map_error_iff.1 h)⟩
  · rw [arrange_leaf ht] at h
    exact Or.inl ⟨ht, map_error_iff.1 h⟩

/-! ## Whole arrangements -/

section Induction

variable {r : Rules} {ts : List Token} {run : List Placed} {failure : Failure LexicalError}

/-- Induction over an arrangement, as it has been made. A `do` moves its region, which is no part of
it, into its interior, so that an induction over the trees would not do. -/
theorem arrange_induction
    {motive : (r : Rules) → (ts : List Token) → (run : List Placed) → arrange r ts = .ok run → Prop}
    (nil : ∀ {r} (h : arrange r [] = .ok []), motive r [] [] h)
    (leaf : ∀ {r t rest others} (h : arrange r (t :: rest) = .ok (⟨t.loc.start, t⟩ :: others))
      (_ : t.kind ≠ .block) (hothers : arrange r rest = .ok others),
      motive r rest others hothers → motive r (t :: rest) (⟨t.loc.start, t⟩ :: others) h)
    (block : ∀ {r t rest interior inner others}
      (h : arrange r (t :: rest) = .ok (⟨t.loc.start, interior.close t inner⟩ :: others))
      (_ : t.kind = .block) (_ : r.enter t rest = .ok interior)
      (hinner : arrange interior.rules interior.tokens = .ok inner)
      (hothers : arrange r interior.rest = .ok others),
      motive interior.rules interior.tokens inner hinner →
      motive r interior.rest others hothers →
      motive r (t :: rest) (⟨t.loc.start, interior.close t inner⟩ :: others) h)
    (h : arrange r ts = .ok run) : motive r ts run h := by
  induction hn : Token.totalWeight ts using Nat.strongRecOn generalizing r ts run with
  | ind n ih =>
    subst hn
    cases ts with
    | nil =>
      cases h.symm.trans (arrange_nil r)
      exact nil h
    | cons t rest =>
      have hweight : Token.totalWeight (t :: rest)
          = 1 + Token.totalWeight t.children + Token.totalWeight rest := by
        rw [Token.totalWeight_cons, Token.weight_eq]
      rcases arrange_cases h with ⟨hkind, others, hothers, rfl⟩ |
        ⟨hkind, interior, inner, others, henter, hinner, hothers, rfl⟩
      · exact leaf h hkind hothers (ih _ (by omega) hothers rfl)
      · have hw := Rules.enter_weight henter
        exact block h hkind henter hinner hothers (ih _ (by omega) hinner rfl)
          (ih _ (by omega) hothers rfl)

/-- Induction down to the block that cannot be entered, where an arrangement fails. -/
theorem arrange_error_induction
    {motive : (r : Rules) → (ts : List Token) → arrange r ts = .error failure → Prop}
    (later : ∀ {r t rest} (h : arrange r (t :: rest) = .error failure) (_ : t.kind ≠ .block)
      (hothers : arrange r rest = .error failure), motive r rest hothers → motive r (t :: rest) h)
    (enter : ∀ {r t rest} (h : arrange r (t :: rest) = .error failure),
      r.enter t rest = .error failure → motive r (t :: rest) h)
    (inside : ∀ {r t rest interior} (h : arrange r (t :: rest) = .error failure)
      (_ : r.enter t rest = .ok interior)
      (hinner : arrange interior.rules interior.tokens = .error failure),
      motive interior.rules interior.tokens hinner → motive r (t :: rest) h)
    (after : ∀ {r t rest interior} (h : arrange r (t :: rest) = .error failure)
      (_ : r.enter t rest = .ok interior) (hothers : arrange r interior.rest = .error failure),
      motive r interior.rest hothers → motive r (t :: rest) h)
    (h : arrange r ts = .error failure) : motive r ts h := by
  induction hn : Token.totalWeight ts using Nat.strongRecOn generalizing r ts with
  | ind n ih =>
    subst hn
    cases ts with
    | nil =>
      rw [arrange_nil] at h
      cases h
    | cons t rest =>
      have hweight : Token.totalWeight (t :: rest)
          = 1 + Token.totalWeight t.children + Token.totalWeight rest := by
        rw [Token.totalWeight_cons, Token.weight_eq]
      rcases arrange_error_cases h with
        ⟨hkind, hothers⟩ | ⟨-, henter | ⟨interior, henter, hinner | hothers⟩⟩
      · exact later h hkind hothers (ih _ (by omega) hothers rfl)
      · exact enter h henter
      · have hw := Rules.enter_weight henter
        exact inside h henter hinner (ih _ (by omega) hinner rfl)
      · have hw := Rules.enter_weight henter
        exact after h henter hothers (ih _ (by omega) hothers rfl)

/-- The first token that is laid out begins where the first token does. -/
theorem arrange_head (h : arrange r ts = .ok run) :
    run.head?.map Placed.start = ts.head?.map (·.loc.start) := by
  cases ts with
  | nil =>
    cases h.symm.trans (arrange_nil r)
    rfl
  | cons t rest =>
    rcases arrange_cases h with ⟨-, others, -, rfl⟩ | ⟨-, interior, inner, others, -, -, -, rfl⟩
    · rfl
    · rfl

end Induction

/-! ## Whole inputs -/

/-- A layout is a punctuated arrangement. -/
theorem layout_ok {ts laid : List Token} (h : layout ts = .ok laid) :
    ∃ run, arrange ⟨Rules.columnOf 1 ts, none⟩ ts = .ok run ∧
      laid = punctuate (Rules.columnOf 1 ts) run := by
  obtain ⟨run, hrun, hlaid⟩ := map_ok_iff.1 h
  exact ⟨run, hrun, hlaid.symm⟩

/-- Layout fails only where arranging fails. -/
theorem layout_failed {ts : List Token} {failure : Failure LexicalError}
    (h : layout ts = .error failure) :
    arrange ⟨Rules.columnOf 1 ts, none⟩ ts = .error failure := map_error_iff.1 h

/-! ## Separators -/

section Steps

variable {column row : Nat} {inStatement : Bool} {p : Placed} {run : List Placed}

/-- Where no statement is under way, the row before the tokens does not matter. -/
theorem separate_row (column row row' : Nat) (run : List Placed) :
    separate column row false run = separate column row' false run := by
  cases run <;> rfl

/-- At the beginning of a line a statement ends, and then it is as if there had been none. -/
theorem separate_begins (hrow : row < p.start.row) (hcol : p.start.col = column) :
    separate column row true (p :: run)
      = Token.semicolon (Location.point p.start) :: separate column row false (p :: run) := by
  rw [separate, separate]
  simp only [hrow, hcol, decide_true, beq_self_eq_true, Bool.and_self, Bool.not_true,
    Bool.and_false, Bool.false_and, Bool.false_eq_true, if_true, if_false, List.nil_append]
  split <;> rfl

/-- Elsewhere a token is kept, unless it is a semicolon that ends no statement. -/
theorem separate_continues
    (hbegins : ¬ (inStatement = true ∧ row < p.start.row ∧ p.start.col = column))
    (hends : p.token.kind = .semicolon → inStatement = true) :
    separate column row inStatement (p :: run)
      = p.token :: separate column p.token.loc.stop.row (p.token.kind != .semicolon) run := by
  have hnot : (inStatement && decide (row < p.start.row) && p.start.col == column) = false := by
    simpa [and_assoc] using hbegins
  rw [separate]
  simp only [hnot, Bool.false_eq_true, if_false, List.nil_append, Bool.not_false, Bool.and_true]
  by_cases hkind : p.token.kind = .semicolon
  · simp [hkind, hends hkind]
  · rw [if_neg hkind, bne_iff_ne.2 hkind]

/-- A semicolon that ends no statement is dropped. -/
theorem separate_drops (hkind : p.token.kind = .semicolon) :
    separate column row false (p :: run) = separate column p.token.loc.stop.row false run := by
  rw [separate]
  simp [hkind]

end Steps

section Separators

variable {β : Type} {f : Token → List β}

/-- A separator has nothing to read. -/
theorem mark_flatMap (hf : ∀ t, t.kind = .semicolon → f t = []) (begins : Bool) (c : Cursor) :
    (if begins then [Token.semicolon (Location.point c)] else []).flatMap f = [] := by
  cases begins with
  | false => rfl
  | true =>
    rw [if_pos rfl, List.flatMap_cons, hf _ rfl]
    rfl

/-- Separating statements keeps what is read from other tokens than semicolons. -/
theorem separate_flatMap (hf : ∀ t, t.kind = .semicolon → f t = []) (column row : Nat)
    (inStatement : Bool) (run : List Placed) :
    (separate column row inStatement run).flatMap f = (run.map Placed.token).flatMap f := by
  induction run generalizing row inStatement with
  | nil =>
    rw [separate]
    rfl
  | cons p run ih =>
    rw [separate, List.map_cons, List.flatMap_cons]
    split
    · rename_i hsemicolon
      split
      · rw [List.flatMap_append, mark_flatMap hf, List.flatMap_cons, ih]
        rfl
      · rw [List.flatMap_append, mark_flatMap hf, ih, hf _ hsemicolon]
    · rw [List.flatMap_append, mark_flatMap hf, List.flatMap_cons, ih]
      rfl

/-- Punctuating a run keeps what is read from other tokens than semicolons. -/
theorem punctuate_flatMap (hf : ∀ t, t.kind = .semicolon → f t = []) (column : Nat)
    (run : List Placed) :
    (punctuate column run).flatMap f = (run.map Placed.token).flatMap f := by
  rw [← separate_flatMap hf column 0 false run, punctuate, dropFinalSemicolon]
  generalize separate column 0 false run = ts
  cases hlast : ts.getLast? with
  | none => rfl
  | some last =>
    obtain ⟨others, rfl⟩ := List.getLast?_eq_some_iff.1 hlast
    by_cases hkind : last.kind = .semicolon
    · simp [hkind, hf last hkind]
    · simp [hkind]

end Separators

end Offside.Layout
