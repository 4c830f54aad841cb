import Offside.Proofs.Lexeme.Extents
import Offside.Proofs.Token.Spelling

/-!
# How the tokens of a source text lie

* `Token.Typeset`: a token that is not empty, stands on one row unless it is in brackets, and has
  its interior to the right of its opener.
* `Token.SpelledAt.typeset`: tokens that a text spells lie so.
* `Token.ofSource_spelledAt`, `Token.ofSource_typeset`: the tokens of a source text are spelled in it,
  and so they all lie so.
-/

namespace Offside

namespace Token

/-- How a token of a source text lies. -/
structure Typeset (t : Token) : Prop where
  /-- It is not empty. -/
  nonempty : t.loc.start.row = t.loc.stop.row → t.loc.start.col < t.loc.stop.col
  /-- Only brackets go over several rows. -/
  row : (∀ bracket, t.blockKind? ≠ some (.bracketed bracket)) → t.loc.start.row = t.loc.stop.row
  /-- Only brackets have an interior. A `do` has none yet. -/
  bare : (∀ bracket, t.blockKind? ≠ some (.bracketed bracket)) → t.children = []
  /-- What is inside it is to the right of where it begins, if that is on the same row. -/
  inside : ∀ u ∈ t.children, t.loc.start.row = u.loc.start.row → t.loc.start.col < u.loc.start.col

/-- A token is located where its text is, and that is not empty. -/
theorem SpelledAt.isOf {before text : List Char} {t : Token} (h : t.SpelledAt before text) :
    t.loc.IsOf before text ∧ text ≠ [] := by
  cases h with
  | leaf _ _ nonempty located => exact ⟨located, nonempty⟩
  | indented located => exact ⟨located, by decide⟩
  | group _ located => exact ⟨located, List.cons_ne_nil _ _⟩

/-- Each of some tokens that a text spells is spelled somewhere in the text. -/
theorem SpelledAll.exists_spelledAt {before text : List Char} {ts : List Token}
    (h : SpelledAll before ts text) {t : Token} (ht : t ∈ ts) :
    ∃ between word, t.SpelledAt (before ++ between) word := by
  induction ts generalizing before text with
  | nil => exact absurd ht List.not_mem_nil
  | cons u ts ih =>
    cases h with
    | @cons _ gap word rest _ _ _ first others =>
      rcases List.mem_cons.1 ht with rfl | ht
      · exact ⟨gap, word, first⟩
      · obtain ⟨between, word', hword⟩ := ih others ht
        exact ⟨gap ++ word ++ between, word', by simpa only [List.append_assoc] using hword⟩

end Token

/-- A text without line feeds is located on one row. -/
theorem Location.IsOf.row {l : Location} {before text : List Char} (h : l.IsOf before text)
    (htext : '\n' ∉ text) : l.start.row = l.stop.row := by
  rw [h.1, h.2, cursorAfter_append, Cursor.after_of_notMem htext]

/-- What comes after a text that is not empty is to its right, if it begins on the same row. -/
theorem col_lt_after {a b : Cursor} {text : List Char} (htext : text ≠ [])
    (hb : a.after text ≤ b) (hrow : a.row = b.row) : a.col < b.col := by
  have hafter := Cursor.not_after_le a htext
  rw [Cursor.le_def] at hb hafter
  have hle := Cursor.le_after a text
  rw [Cursor.le_def] at hle
  omega

namespace Token

/-- A token without line feeds in its text is written without line feeds. -/
theorem notMem_written {t : Token} (h : '\n' ∉ t.text.toList) : '\n' ∉ t.written := by
  unfold written
  split
  all_goals first | exact h | decide

/-- A token that a text spells, and all tokens in it, lie as those of a source text. -/
theorem SpelledAt.typeset {before text : List Char} {t : Token} (h : t.SpelledAt before text)
    (htext : t.Every fun u => '\n' ∉ u.text.toList) : t.Every Typeset := by
  induction t using induction_children generalizing before text with
  | step t ih =>
    obtain ⟨hloc, hne⟩ := h.isOf
    have hnonempty : t.loc.start.row = t.loc.stop.row → t.loc.start.col < t.loc.stop.col := by
      refine col_lt_after hne ?_
      rw [hloc.1, hloc.2, cursorAfter_append]
      exact Cursor.le_refl _
    cases h with
    | leaf kind children nonempty located =>
      refine .intro ⟨hnonempty, fun _ => ?_, fun _ => children, ?_⟩ ?_
      · exact located.row (notMem_written htext.here)
      all_goals
        rw [children]
        exact fun u hu => absurd hu List.not_mem_nil
    | indented located =>
      refine .intro ⟨hnonempty, fun _ => located.row (by decide), fun _ => rfl, ?_⟩ ?_
      all_goals exact fun u hu => absurd hu List.not_mem_nil
    | @group _ inner bracket l ts interior located =>
      refine .intro ⟨hnonempty, fun hnot => ?_, fun hnot => ?_, fun u hu => ?_⟩ fun u hu => ?_
      · exact absurd (block_blockKind? _ _ _) (hnot bracket)
      · exact absurd (block_blockKind? _ _ _) (hnot bracket)
      · obtain ⟨between, word, hword⟩ := interior.exists_spelledAt hu
        refine col_lt_after (List.cons_ne_nil bracket.opener []) ?_
        rw [hloc.1, hword.isOf.1.1, ← cursorAfter_append, cursorAfter_append _ between]
        exact Cursor.le_after _ _
      · obtain ⟨between, word, hword⟩ := interior.exists_spelledAt hu
        exact ih u hu hword (htext.inside hu)

end Token

/-- Each token of a source text is spelled somewhere in it. -/
theorem Token.ofSource_spelledAt {source : String} {ts : List Token}
    (h : Token.ofSource source = .ok ts) :
    ∀ t ∈ ts, ∃ before text, t.SpelledAt before text := by
  obtain ⟨lexemes, hlex, hnest⟩ := ofSource_lexemes h
  obtain ⟨text, -, -, -, hspelled⟩ :=
    nest_spelled hlex (show StackSpelled [] [] [] from .nil .nil) hnest
  intro t ht
  obtain ⟨between, word, hword⟩ := hspelled.exists_spelledAt ht
  exact ⟨_, word, hword⟩

/-- All tokens of a source text lie so. -/
theorem Token.ofSource_typeset {source : String} {ts : List Token}
    (h : Token.ofSource source = .ok ts) : ∀ t ∈ ts, t.Every Typeset := by
  have htext : ∀ t ∈ ts, t.Every fun u => '\n' ∉ u.text.toList := fun t ht =>
    (ofSource_plain (Nat.le_refl _) h t ht).mono fun u hu => hu.text.line
  intro t ht
  obtain ⟨before, word, hword⟩ := ofSource_spelledAt h t ht
  exact hword.typeset (htext t ht)

end Offside
