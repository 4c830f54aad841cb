import Offside.Proofs.Token.Nesting
import Offside.Proofs.Token.Relocation

/-!
# Lexemes on one row

Every lexeme is a run of characters other than line feeds.

* `Lexeme.Wide`, `Scanner.Scans.wide`: so lexemes end after the first column.
* `nest_every`, `Token.ofSource_every`: matching brackets keeps what holds of all lexemes.
  `Token.ofSource_wide`: so all tokens of a source text end after the first column.
* `Scanner.Scans.stop_within`, `nest_error`: what stops the scan, and the first bracket out of place,
  lie in the text. `Token.ofSource_error`: so every lexical error is reported in the text.
-/

namespace Offside

namespace Cursor

/-- Reading stays in the columns that are counted from one. -/
theorem one_le_after {a : Cursor} (h : 1 ≤ a.col) (text : List Char) : 1 ≤ (a.after text).col := by
  induction text generalizing a with
  | nil => exact h
  | cons c text ih =>
    refine ih ?_
    unfold step
    split
    · exact Nat.le_refl 1
    · exact Nat.le_succ_of_le h

end Cursor

/-! ## Columns -/

open Token

/-- A token without interior has a property if its root does. -/
theorem Token.every_of_childless {P : Token → Prop} {t : Token} (h : t.children = []) (ht : P t) :
    t.Every P := .intro ht fun c hc => by
  rw [h] at hc
  cases hc

/-- A lexeme that ends after the first column. -/
def Lexeme.Wide : Lexeme → Prop
  | .leaf t => t.Every Token.Wide
  | .opens _ loc => 2 ≤ loc.stop.col
  | .closes _ loc => 2 ≤ loc.stop.col

namespace Scanner

/-- A text on one row ends after the first column. -/
theorem locate_wide {s : Scanner} (hs : 1 ≤ s.cursor.col) {text : List Char} (hne : text ≠ [])
    (h : '\n' ∉ text) : 2 ≤ (s.locate text).stop.col := by
  have hstop : (s.locate text).stop = ⟨s.cursor.row, s.cursor.col + text.length⟩ :=
    Cursor.after_of_notMem h _
  have hlength : 0 < text.length := List.length_pos_iff.2 hne
  rw [hstop]
  show 2 ≤ s.cursor.col + text.length
  omega

/-- A character other than a line feed does not end its row. -/
theorem lineFeed_notMem {c : Char} (hc : c ≠ '\n') : '\n' ∉ [c] :=
  fun h => hc (List.mem_singleton.1 h).symm

/-- Neither does a comment. -/
theorem comment_lineFeed_notMem (rest : List Char) :
    '\n' ∉ '#' :: rest.takeWhile continuesComment := by
  rw [List.mem_cons, not_or]
  refine ⟨by decide, fun hmem => ?_⟩
  have hgoes := List.all_eq_true.1 List.all_takeWhile _ hmem
  exact absurd hgoes (by decide)

/-- All lexemes of a text are wide. -/
theorem Scans.wide {inBackticks : Bool} {s : Scanner} {text : List Char} {scan : Scan}
    (h : s.Scans inBackticks text scan) (hs : 1 ≤ s.cursor.col) :
    ∀ lexeme ∈ scan.lexemes, lexeme.Wide := by
  induction h with
  | nil | stops => exact fun _ hmem => absurd hmem List.not_mem_nil
  | blank _ _ ih => exact ih (Cursor.one_le_after hs _)
  | comment _ ih => exact ih (Cursor.one_le_after hs _)
  | @leaf _ _ _ _ leaf _ hleaf _ ih =>
    refine List.forall_mem_cons.2 ⟨?_, ih (Cursor.one_le_after hs _)⟩
    refine Token.every_of_childless hleaf.children_eq ?_
    rw [Token.Wide, hleaf.loc_eq]
    exact locate_wide hs leaf.used_ne hleaf.lineFeed_notMem
  | @opens _ _ bracket _ _ _ _ ih =>
    refine List.forall_mem_cons.2 ⟨?_, ih (Cursor.one_le_after hs _)⟩
    exact locate_wide hs (List.cons_ne_nil _ _) (lineFeed_notMem bracket.opener_ne_lineFeed)
  | @closes _ _ bracket _ _ _ _ ih =>
    refine List.forall_mem_cons.2 ⟨?_, ih (Cursor.one_le_after hs _)⟩
    exact locate_wide hs (List.cons_ne_nil _ _) (lineFeed_notMem bracket.closer_ne_lineFeed)

/-- What lies in the text after a piece lies in the text with the piece. -/
theorem bounds_past {a : Cursor} {l : Location} (used : List Char) {rest text : List Char}
    (hend : (a.after used).after rest = a.after text)
    (h : a.after used ≤ l.start ∧ l.stop ≤ (a.after used).after rest) :
    a ≤ l.start ∧ l.stop ≤ a.after text :=
  ⟨Cursor.le_trans (Cursor.le_after _ _) h.1, hend ▸ h.2⟩

/-- No line feed stops the reading. -/
theorem Stops.ne_lineFeed {c : Char} {cause : LexicalError} (h : Stops c cause) : c ≠ '\n' := by
  rintro rfl
  rcases h with hc | hc <;> exact absurd hc (by decide)

/-- What stops the scan lies in the text. -/
theorem Scans.stop_within {inBackticks : Bool} {s : Scanner} {text : List Char} {scan : Scan}
    (h : s.Scans inBackticks text scan) {e : Located LexicalError} (he : scan.stop? = some e) :
    s.cursor ≤ e.loc.start ∧ e.loc.stop ≤ s.cursor.after text := by
  induction h with
  | nil => cases he
  | @stops _ s c _ _ hstops =>
    cases he
    refine ⟨Cursor.le_refl _, ?_⟩
    have hstep : s.cursor.step c = ⟨s.cursor.row, s.cursor.col + 1⟩ := if_neg hstops.ne_lineFeed
    rw [Cursor.after_cons, hstep]
    exact Cursor.le_after _ _
  | blank _ _ ih => exact bounds_past [_] rfl (ih he)
  | comment _ ih => exact bounds_past _ (after_comment _ _) (ih he)
  | @leaf _ _ _ _ leaf _ _ _ ih => exact bounds_past _ (leaf.after_rest _) (ih he)
  | opens _ _ ih => exact bounds_past [_] rfl (ih he)
  | closes _ _ ih => exact bounds_past [_] rfl (ih he)

end Scanner

/-! ## Trees -/

/-- A lexeme whose tokens have one property and whose brackets are where another holds. -/
def Lexeme.Has (P : Token → Prop) (L : Location → Prop) : Lexeme → Prop
  | .leaf t => t.Every P
  | .opens _ loc => L loc
  | .closes _ loc => L loc

/-- Matching brackets keeps what holds of all lexemes, if it holds of groups between such
brackets. -/
theorem nest_every {P : Token → Prop} {L : Location → Prop}
    (hclose : ∀ {group : OpenGroup} {closer : Location} (interior : List Token), L group.opener →
      L closer → P (group.close closer interior))
    {stop? : Option (Located LexicalError)} {groups : List OpenGroup} {before : List Token}
    {lexemes : List Lexeme} {ts : List Token}
    (hgroups : ∀ group ∈ groups, L group.opener ∧ ∀ t ∈ group.before, t.Every P)
    (hbefore : ∀ t ∈ before, t.Every P) (hlex : ∀ lexeme ∈ lexemes, lexeme.Has P L)
    (h : nest stop? groups before lexemes = .ok ts) : ∀ t ∈ ts, t.Every P := by
  induction lexemes generalizing groups before with
  | nil =>
    obtain ⟨-, rfl, rfl⟩ := nest_nil_ok h
    exact fun t ht => hbefore t (List.mem_reverse.1 ht)
  | cons lexeme rest ih =>
    obtain ⟨hone, hrest⟩ := List.forall_mem_cons.1 hlex
    cases lexeme with
    | leaf t =>
      rw [nest] at h
      exact ih hgroups (List.forall_mem_cons.2 ⟨hone, hbefore⟩) hrest h
    | opens bracket loc =>
      rw [nest] at h
      have hgroup : L loc ∧ ∀ t ∈ before, t.Every P := ⟨hone, hbefore⟩
      refine ih (List.forall_mem_cons.2 ⟨hgroup, hgroups⟩) ?_ hrest h
      exact fun t ht => absurd ht List.not_mem_nil
    | closes bracket loc =>
      obtain ⟨group, outer, rfl, -, hlater⟩ := nest_closes_ok h
      obtain ⟨hgroup, houter⟩ := List.forall_mem_cons.1 hgroups
      refine ih houter (List.forall_mem_cons.2 ⟨?_, hgroup.2⟩) hrest hlater
      exact .intro (hclose _ hgroup.1 hone) fun t ht => hbefore t (List.mem_reverse.1 ht)

/-- What holds of the lexemes of a source text holds of all its tokens, if it holds of groups
between brackets where it holds. -/
theorem Token.ofSource_every {P : Token → Prop} {L : Location → Prop}
    (hclose : ∀ {group : OpenGroup} {closer : Location} (interior : List Token), L group.opener →
      L closer → P (group.close closer interior))
    {source : String} {ts : List Token}
    (hlex : ∀ lexeme ∈ (Scanner.initial.scan false source.toList).lexemes, lexeme.Has P L)
    (h : Token.ofSource source = .ok ts) : ∀ t ∈ ts, t.Every P :=
  nest_every hclose (fun _ hgroup => absurd hgroup List.not_mem_nil)
    (fun _ ht => absurd ht List.not_mem_nil) hlex ((ofSource_eq_trees source).symm.trans h)

/-- A group between wide brackets is wide. -/
theorem OpenGroup.close_wide {group : OpenGroup} {closer : Location} (interior : List Token)
    (hopener : 2 ≤ group.opener.stop.col) (hcloser : 2 ≤ closer.stop.col) :
    (group.close closer interior).Wide := by
  show 2 ≤ (max group.opener.stop closer.stop).col
  rw [show max group.opener.stop closer.stop
    = if group.opener.stop ≤ closer.stop then closer.stop else group.opener.stop from rfl]
  split
  · exact hcloser
  · exact hopener

/-- All tokens of a source text are wide. -/
theorem Token.ofSource_wide {source : String} {ts : List Token}
    (h : Token.ofSource source = .ok ts) : ∀ t ∈ ts, t.Every Token.Wide := by
  refine ofSource_every (L := fun l => 2 ≤ l.stop.col) OpenGroup.close_wide
    (fun lexeme hlexeme => ?_) h
  have hwide := (Scanner.scans false .initial source.toList).wide (Nat.le_refl 1) lexeme hlexeme
  cases lexeme <;> exact hwide

/-! ## Failures -/

/-- The cursors around open groups are in order. -/
theorem StackInOrder.le {a b : Cursor} {groups : List OpenGroup} {before : List Token}
    (h : StackInOrder a groups before b) : a ≤ b := by
  induction groups generalizing before b with
  | nil => exact Token.InOrder.le h
  | cons group outer ih =>
    exact Cursor.le_trans (ih h.2.2) (Cursor.le_trans group.opener.start_le_stop
      (Token.InOrder.le h.1))

/-- The cursors around lexemes are in order. -/
theorem Lexeme.InOrder.le {a b : Cursor} {lexemes : List Lexeme}
    (h : Lexeme.InOrder a b lexemes) : a ≤ b := by
  induction lexemes generalizing a with
  | nil => exact h
  | cons lexeme rest ih =>
    cases lexeme with
    | leaf t => exact Cursor.le_trans h.1 (Cursor.le_trans t.loc.start_le_stop (ih h.2.2))
    | opens _ loc => exact Cursor.le_trans h.1 (Cursor.le_trans loc.start_le_stop (ih h.2.2))
    | closes _ loc => exact Cursor.le_trans h.1 (Cursor.le_trans loc.start_le_stop (ih h.2.2))

/-- Brackets that do not match are reported between the cursors around the lexemes. -/
theorem nest_error {stop? : Option (Located LexicalError)} {a b c : Cursor}
    {groups : List OpenGroup} {before : List Token} {lexemes : List Lexeme}
    {e : Located LexicalError} (hstack : StackInOrder a groups before b)
    (hlex : Lexeme.InOrder b c lexemes)
    (hstop : ∀ e, stop? = some e → a ≤ e.loc.start ∧ e.loc.stop ≤ c)
    (h : nest stop? groups before lexemes = .error e) : a ≤ e.loc.start ∧ e.loc.stop ≤ c := by
  induction lexemes generalizing groups before b with
  | nil =>
    rcases nest_nil_error h with hstopped | ⟨group, outer, rfl, rfl⟩
    · exact hstop _ hstopped
    · exact ⟨StackInOrder.le hstack.2.2, Cursor.le_trans (Token.InOrder.le hstack.1) hlex⟩
  | cons lexeme rest ih =>
    cases lexeme with
    | leaf t =>
      rw [nest] at h
      exact ih (hstack.push hlex.1 hlex.2.1) hlex.2.2 h
    | opens bracket loc =>
      rw [nest] at h
      exact ih (hstack.opens hlex.1 hlex.2.1) hlex.2.2 h
    | closes bracket loc =>
      rcases nest_closes_error h with rfl | ⟨group, outer, rfl, hlater⟩
      · exact ⟨Cursor.le_trans hstack.le hlex.1, Lexeme.InOrder.le hlex.2.2⟩
      · exact ih (hstack.closes hlex.1) hlex.2.2 hlater

/-- Every lexical error is reported in the text. -/
theorem Token.ofSource_error {source : String} {e : Located LexicalError}
    (h : Token.ofSource source = .error e) :
    Cursor.origin ≤ e.loc.start ∧ e.loc.stop ≤ (sourceSpan source).stop := by
  have hstack : StackInOrder Cursor.origin [] [] Cursor.origin :=
    Token.inOrder_nil.2 (Cursor.le_refl _)
  have hscans := Scanner.scans false .initial source.toList
  rw [ofSource_eq_trees] at h
  exact nest_error hstack hscans.inOrder (fun _ hstop => hscans.stop_within hstop) h

end Offside
