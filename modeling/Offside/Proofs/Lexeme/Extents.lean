import Offside.Proofs.Diagnostic.Messages
import Offside.Proofs.Lexeme.Runs

/-!
# What lexemes are made of

A lexeme is a piece of the text without blanks, so its text has no spaces, and no column in it is
greater than the text is long.

* `Location.InColumns`: a location in the columns up to a last one.
* `Token.Plain`, `Located.Plain`: a token without spaces and an error with a legible message, both
  in these columns.
* `Scanner.Scans.plain`: the lexemes of a text, and what stops the scan, are plain.
* `nest_error_every`: the errors of matching brackets are about brackets.
* `Token.ofSource_plain`, `Token.ofSource_error_plain`: the token trees of a source text are plain,
  or the error is.
-/

namespace Offside

open Token Text

/-! ## Columns -/

/-- Reading moves by at most one column for each character. -/
theorem Cursor.after_col_le (a : Cursor) (text : List Char) :
    (a.after text).col ≤ a.col + text.length := by
  induction text generalizing a with
  | nil => exact Nat.le_refl _
  | cons c text ih =>
    have hstep : (a.step c).col ≤ a.col + 1 := by
      unfold step
      split
      · exact Nat.succ_le_succ (Nat.zero_le _)
      · exact Nat.le_refl _
    have hrest := ih (a.step c)
    rw [Cursor.after_cons, List.length_cons]
    omega

/-- Both ends of a location are in the columns up to `last`. -/
structure Location.InColumns (last : Nat) (l : Location) : Prop where
  start : l.start.col ≤ last
  stop : l.stop.col ≤ last

/-- A location that covers two others stays in their columns. -/
theorem Location.InColumns.join {last : Nat} {a b : Location} (ha : a.InColumns last)
    (hb : b.InColumns last) : (a.join b).InColumns last := by
  refine ⟨?_, ?_⟩
  · show (min a.start b.start).col ≤ last
    rcases Cursor.le_total a.start b.start with h | h
    · rw [Cursor.min_eq_left h]
      exact ha.start
    · rw [Cursor.min_eq_right h]
      exact hb.start
  · show (max a.stop b.stop).col ≤ last
    rcases Cursor.le_total a.stop b.stop with h | h
    · rw [Cursor.max_eq_right h]
      exact hb.stop
    · rw [Cursor.max_eq_left h]
      exact ha.stop

/-! ## Plain lexemes -/

/-- A token without spaces and line feeds in its text, in the columns up to `last`. -/
structure Token.Plain (last : Nat) (t : Token) : Prop where
  text : Unspaced t.text
  loc : t.loc.InColumns last

/-- An error that is not about a line feed, in the columns up to `last`. -/
structure Located.Plain (last : Nat) (e : Located LexicalError) : Prop where
  cause : e.cause ≠ .unrecognized '\n'
  loc : e.loc.InColumns last

/-- The openers of blocks have no spaces. -/
theorem BlockKind.opener_unspaced (kind : BlockKind) : Unspaced kind.opener := by
  rcases kind with (_ | _ | _ | _) | _ <;> exact ⟨by decide, by decide⟩

/-- Reserved words have no spaces. -/
theorem Reserved.text_unspaced (word : Reserved) : Unspaced word.text := by
  cases word <;> exact ⟨by decide, by decide⟩

/-- The token of a word has its text. -/
theorem wordToken_text (word : String) (loc : Location) : (wordToken word loc).text = word := by
  unfold wordToken
  split
  · exact Eq.symm ‹_›
  · split <;> rfl

/-- The token of an operator without spaces has none. -/
theorem operatorToken_unspaced {operator : String} (separated attached : Bool) (loc : Location)
    (h : Unspaced operator) : Unspaced (operatorToken operator separated attached loc).text := by
  unfold operatorToken
  split
  · exact Reserved.text_unspaced _
  · split
    · exact Reserved.text_unspaced .asType
    · exact h

/-- The token of a separator has no spaces. -/
theorem separatorToken_unspaced {c : Char} (hc : c = ',' ∨ c = ';') (loc : Location) :
    Unspaced (separatorToken c loc).text := by
  show Unspaced c.toString
  rcases hc with rfl | rfl <;> exact ⟨by decide, by decide⟩

/-- A scan of plain lexemes that stops, if it does, with a plain error. -/
structure Scan.Plain (last : Nat) (scan : Scan) : Prop where
  lexemes : ∀ lexeme ∈ scan.lexemes, lexeme.Has (Token.Plain last) (Location.InColumns last)
  stop : ∀ e, scan.stop? = some e → e.Plain last

/-- One more plain lexeme in front. -/
theorem Scan.Plain.cons {last : Nat} {lexeme : Lexeme} {scan : Scan}
    (hlexeme : lexeme.Has (Token.Plain last) (Location.InColumns last)) (h : scan.Plain last) :
    (Scan.cons lexeme scan).Plain last :=
  ⟨List.forall_mem_cons.2 ⟨hlexeme, h.lexemes⟩, h.stop⟩

namespace Scanner

variable {last : Nat} {s : Scanner} {used rest text : List Char}

/-- If the columns suffice for a text, they suffice for what is left of it. -/
theorem past_col (htext : used ++ rest = text) (h : s.cursor.col + text.length ≤ last)
    (separated : Bool) : (s.past used separated).cursor.col + rest.length ≤ last := by
  have hcol : (s.past used separated).cursor.col ≤ s.cursor.col + used.length :=
    s.cursor.after_col_le used
  rw [← htext, List.length_append] at h
  omega

/-- They suffice for the location of its beginning. -/
theorem locate_inColumns (htext : used ++ rest = text) (h : s.cursor.col + text.length ≤ last) :
    (s.locate used).InColumns last := by
  have hstop : (s.locate used).stop.col ≤ s.cursor.col + used.length :=
    s.cursor.after_col_le used
  have hstart : (s.locate used).start.col = s.cursor.col := rfl
  rw [← htext, List.length_append] at h
  exact ⟨by omega, by omega⟩

/-- A token without interior has no spaces. -/
theorem LeafOf.unspaced {c : Char} {leaf : Leaf (c :: rest)} (h : s.LeafOf c rest leaf) :
    Unspaced leaf.token.text := by
  have hused : Unspaced (String.ofList leaf.used) :=
    ⟨by simpa using h.space_notMem, by simpa using h.lineFeed_notMem⟩
  cases h with
  | word => exact (wordToken_text _ _).symm ▸ hused
  | number => exact hused
  | operator => exact operatorToken_unspaced _ _ _ hused
  | separator hc => exact separatorToken_unspaced hc _

/-- A character that stops the scan. -/
theorem Stops.plain {c : Char} {cause : LexicalError} (hstops : Stops c cause)
    (h : s.cursor.col + (c :: rest).length ≤ last) : (s.stop cause).Plain last := by
  refine ⟨fun _ hmem => absurd hmem List.not_mem_nil, fun e he => ?_⟩
  cases he
  rw [List.length_cons] at h
  refine ⟨?_, ?_, ?_⟩
  · rintro rfl
    rcases hstops with hc | hc
    exact absurd hc (by decide)
  · show s.cursor.col ≤ last
    omega
  · show s.cursor.col + 1 ≤ last
    omega

/-- The lexemes of a text, and what stops the scan, are plain. -/
theorem Scans.plain {inBackticks : Bool} {scan : Scan} (h : s.Scans inBackticks text scan)
    (hlast : s.cursor.col + text.length ≤ last) : scan.Plain last := by
  induction h with
  | nil =>
    exact ⟨fun _ hmem => absurd hmem List.not_mem_nil,
      fun e he => absurd he (Option.not_mem_none e)⟩
  | stops hstops => exact hstops.plain hlast
  | blank _ _ ih => exact ih (past_col rfl hlast true)
  | @comment _ _ rest _ _ ih =>
    refine ih (past_col ?_ hlast true)
    rw [List.cons_append, List.takeWhile_append_dropWhile]
  | @leaf _ s _ _ leaf _ hleaf _ ih =>
    refine .cons (Token.every_of_childless hleaf.children_eq ⟨hleaf.unspaced, ?_⟩)
      (ih (past_col leaf.used_append hlast _))
    rw [hleaf.loc_eq]
    exact locate_inColumns leaf.used_append hlast
  | opens _ _ ih =>
    exact .cons (locate_inColumns List.singleton_append hlast) (ih (past_col rfl hlast true))
  | closes _ _ ih =>
    exact .cons (locate_inColumns List.singleton_append hlast) (ih (past_col rfl hlast false))

end Scanner

/-! ## Trees -/

/-- If brackets do not match, what stopped the scan is reported, or one of the brackets. -/
theorem nest_error_every {L : Location → Prop} {P : Token → Prop}
    {stop? : Option (Located LexicalError)} {groups : List OpenGroup} {before : List Token}
    {lexemes : List Lexeme} {e : Located LexicalError} (hgroups : ∀ group ∈ groups, L group.opener)
    (hlex : ∀ lexeme ∈ lexemes, lexeme.Has P L) (h : nest stop? groups before lexemes = .error e) :
    stop? = some e ∨ L e.loc ∧ ∀ c, e.cause ≠ .unrecognized c := by
  induction lexemes generalizing groups before with
  | nil =>
    rcases nest_nil_error h with hstop | ⟨group, outer, rfl, rfl⟩
    · exact .inl hstop
    · refine .inr ⟨hgroups group List.mem_cons_self, fun c => ?_⟩
      show (if group.bracket = .brace then LexicalError.cutOffBrace
        else .unclosed group.bracket) ≠ .unrecognized c
      split <;> simp
  | cons lexeme rest ih =>
    obtain ⟨hone, hrest⟩ := List.forall_mem_cons.1 hlex
    cases lexeme with
    | leaf t =>
      rw [nest] at h
      exact ih hgroups hrest h
    | opens bracket loc =>
      rw [nest] at h
      have hopener : L loc := hone
      exact ih (List.forall_mem_cons.2 ⟨hopener, hgroups⟩) hrest h
    | closes bracket loc =>
      rcases nest_closes_error h with rfl | ⟨group, outer, rfl, hlater⟩
      · exact .inr ⟨hone, by simp⟩
      · exact ih (List.forall_mem_cons.1 hgroups).2 hrest hlater

section Source

variable {last : Nat} {source : String}

/-- The columns that a source text can have suffice for its scan. -/
theorem Scanner.initial_scan_plain (h : 1 + source.toList.length ≤ last) :
    (Scanner.initial.scan false source.toList).Plain last :=
  (Scanner.scans false .initial source.toList).plain h

/-- The token trees of a source text are plain. -/
theorem Token.ofSource_plain {ts : List Token} (hlast : 1 + source.toList.length ≤ last)
    (h : Token.ofSource source = .ok ts) : ∀ t ∈ ts, t.Every (Token.Plain last) :=
  ofSource_every (fun {group} _ _ hopener hcloser =>
      ⟨(BlockKind.bracketed group.bracket).opener_unspaced, hopener.join hcloser⟩)
    (Scanner.initial_scan_plain hlast).lexemes h

/-- So is the error, if there is one. -/
theorem Token.ofSource_error_plain {e : Located LexicalError}
    (hlast : 1 + source.toList.length ≤ last) (h : Token.ofSource source = .error e) :
    e.Plain last := by
  have hscan := Scanner.initial_scan_plain hlast
  rw [ofSource_eq_trees] at h
  rcases nest_error_every (fun _ hgroup => absurd hgroup List.not_mem_nil) hscan.lexemes h with
    hstop | ⟨hloc, hcause⟩
  · exact hscan.stop e hstop
  · exact ⟨hcause '\n', hloc⟩

end Source

end Offside
