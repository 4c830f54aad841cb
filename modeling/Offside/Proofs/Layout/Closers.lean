import Offside.Proofs.Layout.Order
import Offside.Proofs.Token.Relocation

/-!
# Closers in layout

Layout asks where blocks close. The tokens of a source text end after the first column, so their
closers stand in a column of their own.

* `Layout.Rules.enter_every`, `Layout.mem_punctuate`: layout hands tokens on and adds semicolons
  only. `Layout.layout_every`: so it keeps what holds of tokens, of blocks and of semicolons.
* `Token.Closes`: a block that has a closer. `Layout.layout_closes`: laid-out blocks have one.
* `Layout.Rules.enter_error`, `Layout.arrange_error`: a rule that is broken is broken inside the
  tokens. `Layout.layout_error`: so errors of layout are reported there, and they are no faults.
-/

namespace Offside

/-- If the token is a block, it ends after the first column, where its closer stands. -/
def Token.Closes (t : Token) : Prop := t.kind = .block → t.Wide

namespace Layout

open Token

/-! ## Laid-out blocks -/

/-- The tokens of a region and those after it are the tokens. -/
theorem mem_of_mem_splitRegion {column row : Nat} {ts : List Token} {t : Token}
    (h : t ∈ (splitRegion column row ts).1 ∨ t ∈ (splitRegion column row ts).2) : t ∈ ts := by
  rw [← splitRegion_append column row ts]
  exact List.mem_append.2 h

/-- The tokens of a block that is entered, and those after it, were there before. -/
theorem Rules.enter_every {P : Token → Prop} {r : Rules} {t : Token} {rest : List Token}
    {interior : Interior} (h : r.enter t rest = .ok interior) (ht : t.Every P)
    (hrest : ∀ u ∈ rest, u.Every P) :
    (∀ u ∈ interior.tokens, u.Every P) ∧ ∀ u ∈ interior.rest, u.Every P := by
  rcases enter_cases h with ⟨-, -, rfl⟩ | ⟨-, rfl⟩ | ⟨-, -, rfl⟩
  · exact ⟨fun u hu => ht.inside hu, hrest⟩
  · refine ⟨fun u hu => ?_, fun u hu => hrest u (mem_of_mem_splitRegion (Or.inr hu))⟩
    rcases List.mem_append.1 hu with hu | hu
    · exact ht.inside hu
    · exact hrest u (mem_of_mem_splitRegion (Or.inl hu))
  · exact ⟨fun u hu => ht.inside hu, hrest⟩

/-- A block that is entered ends after the first column. -/
theorem Rules.enter_wide {r : Rules} {t : Token} {rest : List Token} {interior : Interior}
    (h : r.enter t rest = .ok interior) (ht : t.Every Token.Wide)
    (hrest : ∀ u ∈ rest, u.Every Token.Wide) : 2 ≤ interior.loc.stop.col := by
  have htokens := (enter_every h ht hrest).1
  rcases enter_cases h with ⟨-, -, rfl⟩ | ⟨-, rfl⟩ | ⟨-, -, rfl⟩
  · exact ht.here
  · show 2 ≤ (((r.enterIndented t rest).tokens.getLast?).elim t.loc
      fun last => t.loc.join last.loc).stop.col
    cases hlast : (r.enterIndented t rest).tokens.getLast? with
    | none => exact ht.here
    | some last =>
      show 2 ≤ (max t.loc.stop last.loc.stop).col
      rcases Cursor.le_total t.loc.stop last.loc.stop with hle | hle
      · rw [Cursor.max_eq_right hle]
        exact (htokens last (List.mem_of_getLast? hlast)).here
      · rw [Cursor.max_eq_left hle]
        exact ht.here
  · exact ht.here

/-- Separating statements adds semicolons only, each where a token began. -/
theorem mem_separate {column row : Nat} {inStatement : Bool} {run : List Placed} {t : Token}
    (h : t ∈ separate column row inStatement run) :
    ∃ p ∈ run, t = Token.semicolon (Location.point p.start) ∨ t = p.token := by
  induction run generalizing row inStatement with
  | nil =>
    rw [separate] at h
    exact absurd h List.not_mem_nil
  | cons p run ih =>
    have hmark {begins : Bool}
        (h : t ∈ if begins then [Token.semicolon (Location.point p.start)] else []) :
        ∃ q ∈ p :: run, t = Token.semicolon (Location.point q.start) ∨ t = q.token := by
      split at h
      · exact ⟨p, List.mem_cons_self, Or.inl (List.mem_singleton.1 h)⟩
      · exact absurd h List.not_mem_nil
    have hlater {inStatement' : Bool} {row' : Nat}
        (h : t ∈ separate column row' inStatement' run) :
        ∃ q ∈ p :: run, t = Token.semicolon (Location.point q.start) ∨ t = q.token := by
      obtain ⟨q, hq, h⟩ := ih h
      exact ⟨q, List.mem_cons_of_mem _ hq, h⟩
    have hnext {inStatement' : Bool} {row' : Nat}
        (h : t ∈ p.token :: separate column row' inStatement' run) :
        ∃ q ∈ p :: run, t = Token.semicolon (Location.point q.start) ∨ t = q.token := by
      rcases List.mem_cons.1 h with h | h
      · exact ⟨p, List.mem_cons_self, Or.inr h⟩
      · exact hlater h
    rw [separate] at h
    split at h
    · split at h
      · exact (List.mem_append.1 h).elim hmark hnext
      · exact (List.mem_append.1 h).elim hmark hlater
    · exact (List.mem_append.1 h).elim hmark hnext

/-- Punctuating a run of statements adds semicolons only, each where a token began. -/
theorem mem_punctuate {column : Nat} {run : List Placed} {t : Token}
    (h : t ∈ punctuate column run) :
    ∃ p ∈ run, t = Token.semicolon (Location.point p.start) ∨ t = p.token := by
  unfold punctuate dropFinalSemicolon at h
  split at h
  · exact mem_separate ((List.dropLast_sublist _).mem h)
  · exact mem_separate h

section Every

variable {P Q : Token → Prop}

/-- What holds of the tokens of a run, and of a semicolon before each of them, holds after
punctuating it. -/
theorem punctuate_every {column : Nat} {run : List Placed}
    (h : ∀ p ∈ run, p.token.Every Q ∧ Q (Token.semicolon (Location.point p.start))) :
    ∀ t ∈ punctuate column run, t.Every Q := by
  intro t ht
  obtain ⟨p, hp, rfl | rfl⟩ := mem_punctuate ht
  · exact .intro (h p hp).2 fun c hc => absurd hc List.not_mem_nil
  · exact (h p hp).1

/-- So it holds inside a block that the run has been laid out in. -/
theorem Interior.close_every {interior : Interior} {t : Token} {run : List Placed}
    (h : ∀ p ∈ run, p.token.Every Q ∧ Q (Token.semicolon (Location.point p.start))) :
    ∀ u ∈ (interior.close t run).children, u.Every Q := by
  intro u hu
  change u ∈ if interior.holdsStatements then punctuate interior.rules.column run
    else run.map Placed.token at hu
  split at hu
  · exact punctuate_every h u hu
  · obtain ⟨p, hp, rfl⟩ := List.mem_map.1 hu
    exact (h p hp).1

/-- What holds of the tokens makes another property hold once they are laid out, if it does so of
blocks and of semicolons. -/
theorem arrange_every (hPQ : ∀ {u}, P u → Q u)
    (hblock : ∀ {r : Rules} {t : Token} {rest : List Token} {interior : Interior}
      (run : List Placed), r.enter t rest = .ok interior → t.Every P →
      (∀ u ∈ rest, u.Every P) → Q (interior.close t run))
    (hmark : ∀ {u : Token}, P u → Q (Token.semicolon (Location.point u.loc.start)))
    {r : Rules} {ts : List Token} {run : List Placed} (hts : ∀ t ∈ ts, t.Every P)
    (h : arrange r ts = .ok run) :
    ∀ p ∈ run, p.token.Every Q ∧ Q (Token.semicolon (Location.point p.start)) := by
  induction h using arrange_induction with
  | nil => exact fun _ hp => absurd hp List.not_mem_nil
  | leaf _ _ _ ih =>
    obtain ⟨ht, hrest⟩ := List.forall_mem_cons.1 hts
    exact List.forall_mem_cons.2 ⟨⟨ht.mono fun u => hPQ, hmark ht.here⟩, ih hrest⟩
  | block _ _ henter _ _ ihinner ihothers =>
    obtain ⟨ht, hrest⟩ := List.forall_mem_cons.1 hts
    obtain ⟨htokens, hafter⟩ := Rules.enter_every henter ht hrest
    refine List.forall_mem_cons.2 ⟨⟨?_, hmark ht.here⟩, ihothers hafter⟩
    exact .intro (hblock _ henter ht hrest) (Interior.close_every (ihinner htokens))

/-- So it does for whole token trees. -/
theorem layout_every (hPQ : ∀ {u}, P u → Q u)
    (hblock : ∀ {r : Rules} {t : Token} {rest : List Token} {interior : Interior}
      (run : List Placed), r.enter t rest = .ok interior → t.Every P →
      (∀ u ∈ rest, u.Every P) → Q (interior.close t run))
    (hmark : ∀ {u : Token}, P u → Q (Token.semicolon (Location.point u.loc.start)))
    {ts laidOut : List Token} (hts : ∀ t ∈ ts, t.Every P) (h : layout ts = .ok laidOut) :
    ∀ t ∈ laidOut, t.Every Q := by
  obtain ⟨run, hrun, rfl⟩ := layout_ok h
  exact punctuate_every (arrange_every hPQ hblock hmark hts hrun)

end Every

/-- Laid-out blocks have closers. -/
theorem layout_closes {ts laidOut : List Token} (hts : ∀ t ∈ ts, t.Every Token.Wide)
    (h : layout ts = .ok laidOut) : ∀ t ∈ laidOut, t.Every Token.Closes :=
  layout_every (P := Token.Wide) (Q := Token.Closes) (fun hu _ => hu)
    (fun _ henter ht hrest _ => Rules.enter_wide henter ht hrest) (fun _ => nofun) hts h

/-! ## Failures -/

/-- The closer of a block that ends on a later row than it begins lies inside the block. -/
theorem closer_within {l close : Location} (hstop : 2 ≤ l.stop.col)
    (hclose : l.lastChar? = some close) (hrow : l.start.row < close.start.row) :
    close.Within l := by
  rw [Location.lastChar?_eq hstop] at hclose
  cases hclose
  exact ⟨Or.inl hrow, Cursor.le_refl _⟩

/-- A block that breaks a rule does so inside itself. -/
theorem Rules.enter_error {r : Rules} {t : Token} {rest : List Token}
    {failure : Failure LexicalError} (ht : t.Proper) (hwide : t.Wide)
    (h : r.enter t rest = .error failure) :
    ∃ e : Located LexicalError, failure = .reported e ∧ e.loc.Within t.loc := by
  rcases enter_error_cases h with h | h
  · unfold checkBrace at h
    split at h
    · rename_i hnone
      rw [Location.lastChar?_eq hwide] at hnone
      cases hnone
    · rename_i close hclose
      split at h
      · cases h
      · rename_i hrow
        have hwithin := closer_within hwide hclose (Nat.lt_of_not_le hrow)
        split at h
        · cases h
          exact ⟨_, rfl, hwithin⟩
        · split at h
          · cases h
            exact ⟨_, rfl, hwithin⟩
          · cases h
  · unfold checkBrackets at h
    split at h
    · rename_i child after hsplit
      cases h
      have hchild : child ∈ t.children := by
        rw [← splitRegion_append r.column t.loc.start.row t.children, hsplit]
        exact List.mem_append_right _ List.mem_cons_self
      exact ⟨_, rfl, (ht.interior.every child hchild).here⟩
    · split at h
      · rename_i hnone
        rw [Location.lastChar?_eq hwide] at hnone
        cases hnone
      · rename_i close hclose
        split at h
        · rename_i hdedent
          cases h
          exact ⟨_, rfl, closer_within hwide hclose hdedent.1⟩
        · cases h

/-- A rule that is broken is broken among the tokens. -/
theorem arrange_error {r : Rules} {ts : List Token} {a b : Cursor}
    {failure : Failure LexicalError} (hts : InOrder a b ts) (hwide : ∀ t ∈ ts, t.Every Token.Wide)
    (h : arrange r ts = .error failure) :
    ∃ e : Located LexicalError, failure = .reported e ∧ a ≤ e.loc.start ∧ e.loc.stop ≤ b := by
  induction h using arrange_error_induction generalizing a b with
  | later _ _ _ ih =>
    obtain ⟨ha, ht, hrest⟩ := inOrder_cons.1 hts
    have hstart := Cursor.le_trans ha (Location.start_le_stop _)
    exact ih (hrest.mono hstart (Cursor.le_refl b)) (List.forall_mem_cons.1 hwide).2
  | enter _ henter =>
    obtain ⟨ha, ht, hrest⟩ := inOrder_cons.1 hts
    obtain ⟨e, rfl, he⟩ := Rules.enter_error ht (List.forall_mem_cons.1 hwide).1.here henter
    exact ⟨e, rfl, Cursor.le_trans ha he.1, Cursor.le_trans he.2 hrest.le⟩
  | inside _ henter _ ih =>
    obtain ⟨ha, ht, hrest⟩ := inOrder_cons.1 hts
    obtain ⟨htwide, hrestwide⟩ := List.forall_mem_cons.1 hwide
    obtain ⟨hsame, -, htokens, hafter⟩ := Rules.enter_inOrder henter ht hrest
    rw [← hsame] at ha
    exact ih (htokens.mono ha hafter.le) (Rules.enter_every henter htwide hrestwide).1
  | after _ henter _ ih =>
    obtain ⟨ha, ht, hrest⟩ := inOrder_cons.1 hts
    obtain ⟨htwide, hrestwide⟩ := List.forall_mem_cons.1 hwide
    obtain ⟨hsame, -, -, hafter⟩ := Rules.enter_inOrder henter ht hrest
    rw [← hsame] at ha
    exact ih (hafter.mono (Cursor.le_trans ha (Location.start_le_stop _)) (Cursor.le_refl b))
      (Rules.enter_every henter htwide hrestwide).2

/-- Errors of layout are reported among the tokens. -/
theorem layout_error {ts : List Token} {a b : Cursor} {failure : Failure LexicalError}
    (hts : InOrder a b ts) (hwide : ∀ t ∈ ts, t.Every Token.Wide)
    (h : layout ts = .error failure) :
    ∃ e : Located LexicalError, failure = .reported e ∧ a ≤ e.loc.start ∧ e.loc.stop ≤ b :=
  arrange_error hts hwide (layout_failed h)

end Layout

end Offside
