import Offside.Proofs.Token.Order
import Offside.Proofs.Token.Stack

/-!
# The token trees of a source text are in order

* `Lexeme.InOrder`: lexemes that follow one another between two cursors.
  `Scanner.Scans.inOrder`: scanning yields such lexemes.
* `Knows`: it is known whether a group of backticks is open.
* `StackInOrder`: what the open groups and the tokens in them satisfy while brackets are matched.
  `nest_inOrder`: one lexeme after another keeps it, so the trees come out in order.
* `Token.ofSource_inOrder`: the token trees of a source text are in order inside it.
-/

namespace Offside

/-! ## Lexemes -/

/-- Lexemes that follow one another from `a` on and up to `b`. -/
def Lexeme.InOrder (a b : Cursor) : List Lexeme → Prop
  | [] => a ≤ b
  | .leaf t :: rest => a ≤ t.loc.start ∧ t.Proper ∧ InOrder t.loc.stop b rest
  | .opens _ loc :: rest => a ≤ loc.start ∧ loc.start ≠ loc.stop ∧ InOrder loc.stop b rest
  | .closes _ loc :: rest => a ≤ loc.start ∧ loc.start ≠ loc.stop ∧ InOrder loc.stop b rest

/-- Lexemes that follow one another from a cursor on do so from an earlier one. -/
theorem Lexeme.InOrder.mono {a a' b : Cursor} {lexemes : List Lexeme}
    (h : Lexeme.InOrder a b lexemes) (ha : a' ≤ a) : Lexeme.InOrder a' b lexemes := by
  match lexemes, h with
  | [], h => exact Cursor.le_trans ha h
  | .leaf _ :: _, h => exact ⟨Cursor.le_trans ha h.1, h.2⟩
  | .opens _ _ :: _, h => exact ⟨Cursor.le_trans ha h.1, h.2⟩
  | .closes _ _ :: _, h => exact ⟨Cursor.le_trans ha h.1, h.2⟩

/-- A text that is not empty takes up some space. -/
theorem Location.ofText_ne {a : Cursor} {text : List Char} (h : text ≠ []) :
    (Location.ofText a text).start ≠ (Location.ofText a text).stop := by
  intro heq
  refine Cursor.not_after_le a h ?_
  rw [show a.after text = a from heq.symm]
  exact Cursor.le_refl a

/-- A leaf that takes up some space is proper, if it is spelled as its kind asks. -/
theorem Token.proper_leaf {kind : TokenKind} {text : String} {loc : Location}
    (hname : kind = .identifier → IsName text) (hnum : kind = .number → IsNumeral text)
    (hloc : loc.start ≠ loc.stop) : (Token.leaf kind text loc).Proper :=
  (Token.proper_iff _).2 ⟨hname, hnum, fun _ => hloc, Token.inOrder_nil.2 loc.start_le_stop⟩

/-- The token of a word is proper. -/
theorem wordToken_proper {c : Char} {cs : List Char} {loc : Location} (hc : isWordStart c = true)
    (hcs : ∀ d ∈ cs, isWordChar d = true) (hloc : loc.start ≠ loc.stop) :
    (wordToken (String.ofList (c :: cs)) loc).Proper := by
  unfold wordToken
  split
  · refine (Token.proper_iff _).2 ⟨fun h => ?_, fun h => ?_, fun _ => hloc, ?_⟩
    · cases h
    · cases h
    · exact Token.inOrder_nil.2 loc.start_le_stop
  · rename_i hword
    split
    · exact Token.proper_leaf (fun h => nomatch h) (fun h => nomatch h) hloc
    · rename_i hkey
      refine Token.proper_leaf (fun _ => ?_) (fun h => nomatch h) hloc
      exact ⟨c, cs, String.toList_ofList, hc, hcs, hword, by simpa using hkey⟩

/-- The token of an operator is proper. -/
theorem operatorToken_proper {operator : String} {separated attached : Bool} {loc : Location}
    (hloc : loc.start ≠ loc.stop) : (operatorToken operator separated attached loc).Proper := by
  unfold operatorToken
  split
  · exact Token.proper_leaf (fun h => nomatch h) (fun h => nomatch h) hloc
  · split
    · exact Token.proper_leaf (fun h => nomatch h) (fun h => nomatch h) hloc
    · exact Token.proper_leaf (fun h => nomatch h) (fun h => nomatch h) hloc

/-- The token of a separator is proper. -/
theorem separatorToken_proper {c : Char} {loc : Location} (hloc : loc.start ≠ loc.stop) :
    (separatorToken c loc).Proper := by
  unfold separatorToken
  split
  · exact Token.proper_leaf (fun h => nomatch h) (fun h => nomatch h) hloc
  · exact Token.proper_leaf (fun h => nomatch h) (fun h => nomatch h) hloc

/-- A digit with the digits after it, and a minus sign before it, is a numeral. -/
theorem isNumeral_ofList {c : Char} {cs : List Char} (hc : c.isDigit = true) :
    IsNumeral (String.ofList (c :: cs.takeWhile Char.isDigit)) ∧
      IsNumeral (String.ofList ('-' :: c :: cs.takeWhile Char.isDigit)) := by
  have hall : ∀ d ∈ cs.takeWhile Char.isDigit, d.isDigit = true :=
    List.all_eq_true.1 List.all_takeWhile
  exact ⟨⟨c, _, Or.inl String.toList_ofList, hc, hall⟩,
    ⟨c, _, Or.inr String.toList_ofList, hc, hall⟩⟩

/-! ## Scanning -/

/-- A token and what follows it are the text from its first character on. -/
theorem Leaf.after_rest {text : List Char} (leaf : Leaf text) (a : Cursor) :
    (a.after leaf.used).after leaf.rest = a.after text := by
  rw [← Cursor.after_append, leaf.used_append]

namespace Scanner

/-- So are a comment and what follows it. -/
theorem after_comment (a : Cursor) (rest : List Char) :
    (a.after ('#' :: rest.takeWhile continuesComment)).after (rest.dropWhile continuesComment)
      = a.after ('#' :: rest) := by
  rw [← Cursor.after_append, List.cons_append, List.takeWhile_append_dropWhile]

/-- A number is written as one. -/
theorem isNumeral_of_number {s : Scanner} {c : Char} {rest : List Char}
    (h : c.isDigit = true ∨ s.beginsNumber c rest = true) :
    IsNumeral (String.ofList (c :: rest.takeWhile Char.isDigit)) := by
  rcases h with hc | h
  · exact (isNumeral_ofList hc).1
  · simp only [beginsNumber, Bool.and_eq_true, beq_iff_eq] at h
    obtain ⟨⟨rfl, -⟩, hdigit⟩ := h
    cases rest with
    | nil => simp at hdigit
    | cons d ds =>
      have hd : d.isDigit = true := by simpa using hdigit
      have hnumeral : IsNumeral (String.ofList ('-' :: d :: ds.takeWhile Char.isDigit)) :=
        (isNumeral_ofList hd).2
      rwa [← List.takeWhile_cons_of_pos hd] at hnumeral

/-- Tokens without interior are proper. -/
theorem LeafOf.proper {s : Scanner} {c : Char} {rest : List Char} {leaf : Leaf (c :: rest)}
    (h : s.LeafOf c rest leaf) : leaf.token.Proper := by
  have hloc {text : List Char} (htext : text ≠ []) :
      (s.locate text).start ≠ (s.locate text).stop := Location.ofText_ne htext
  cases h with
  | word hc =>
    exact wordToken_proper hc (List.all_eq_true.1 List.all_takeWhile) (hloc (List.cons_ne_nil _ _))
  | number hc =>
    exact Token.proper_leaf (fun h => nomatch h) (fun _ => isNumeral_of_number hc)
      (hloc (List.cons_ne_nil _ _))
  | operator => exact operatorToken_proper (hloc (List.cons_ne_nil _ _))
  | separator => exact separatorToken_proper (hloc (List.cons_ne_nil _ _))

/-- Scanning goes through a text from its beginning to its end. -/
theorem Scans.inOrder {inBackticks : Bool} {s : Scanner} {text : List Char} {scan : Scan}
    (h : Scans inBackticks s text scan) :
    Lexeme.InOrder s.cursor (s.cursor.after text) scan.lexemes := by
  induction h with
  | nil => exact Cursor.le_refl _
  | stops => exact Cursor.le_after _ _
  | blank _ _ ih => exact ih.mono (Cursor.le_step _ _)
  | @comment _ s rest _ _ ih =>
    rw [← after_comment]
    exact ih.mono (Cursor.le_after _ _)
  | @leaf _ s _ _ leaf _ h _ ih =>
    have hloc := h.loc_eq
    refine ⟨?_, h.proper, ?_⟩
    · rw [hloc]
      exact Cursor.le_refl _
    · rw [hloc, ← leaf.after_rest]
      exact ih
  | opens _ _ ih => exact ⟨Cursor.le_refl _, Location.ofText_ne (List.cons_ne_nil _ _), ih⟩
  | closes _ _ ih => exact ⟨Cursor.le_refl _, Location.ofText_ne (List.cons_ne_nil _ _), ih⟩

end Scanner

/-! ## Groups of backticks -/

/-- At most one group of backticks is open, and it is known whether one is. -/
def Knows (inBackticks : Bool) (groups : List OpenGroup) : Prop :=
  groups.countP (·.bracket == .backtick) = inBackticks.toNat

section Knows

variable {inBackticks : Bool} {group : OpenGroup} {groups : List OpenGroup}

/-- A group is opened that does not close one of backticks instead. -/
theorem Knows.opens (h : Knows inBackticks groups)
    (hb : group.bracket = .backtick → inBackticks = false) :
    Knows (inBackticks || group.bracket == .backtick) (group :: groups) := by
  rw [Knows, List.countP_cons, h]
  by_cases hbacktick : group.bracket = .backtick
  · simp [hbacktick, hb hbacktick]
  · simp [beq_eq_false_iff_ne.2 hbacktick]

/-- The innermost group is closed, and if it is one of backticks, it was the only one. -/
theorem Knows.closes (h : Knows inBackticks (group :: groups))
    (hb : group.bracket = .backtick → inBackticks = true) :
    Knows (inBackticks && group.bracket != .backtick) groups := by
  by_cases hbacktick : group.bracket = .backtick
  · rw [Knows, hb hbacktick, List.countP_cons_of_pos (by simp [hbacktick])] at h
    rw [Knows, hbacktick, bne_self_eq_false, Bool.and_false]
    exact Nat.succ.inj h
  · rw [Knows, List.countP_cons_of_neg (by simp [hbacktick])] at h
    rw [Knows, bne, beq_eq_false_iff_ne.2 hbacktick, Bool.not_false, Bool.and_true]
    exact h

end Knows

/-! ## Matching brackets -/

/-- The open groups, innermost first, and the tokens in them follow one another from `a` on and up
to `b`. -/
def StackInOrder (a : Cursor) : List OpenGroup → List Token → Cursor → Prop
  | [], before, b => Token.InOrder a b before.reverse
  | group :: outer, before, b =>
    Token.InOrder group.opener.stop b before.reverse ∧ group.opener.start ≠ group.opener.stop ∧
      StackInOrder a outer group.before group.opener.start

/-- One more token inside the innermost group. -/
theorem StackInOrder.push {a b : Cursor} {groups : List OpenGroup} {before : List Token}
    (h : StackInOrder a groups before b) {t : Token} (hb : b ≤ t.loc.start) (ht : t.Proper) :
    StackInOrder a groups (t :: before) t.loc.stop := by
  have hone : Token.InOrder b t.loc.stop [t] :=
    Token.inOrder_cons.2 ⟨hb, ht, Token.inOrder_nil.2 (Cursor.le_refl _)⟩
  cases groups with
  | nil =>
    rw [StackInOrder, List.reverse_cons]
    exact Token.inOrder_append.2 ⟨b, h, hone⟩
  | cons group outer =>
    rw [StackInOrder, List.reverse_cons]
    exact ⟨Token.inOrder_append.2 ⟨b, h.1, hone⟩, h.2⟩

/-- A group that is closed is a proper token. -/
theorem OpenGroup.close_proper {group : OpenGroup} {closer : Location} {interior : List Token}
    {b : Cursor} (hin : Token.InOrder group.opener.stop b interior) (hb : b ≤ closer.start)
    (hne : group.opener.start ≠ group.opener.stop) :
    (group.close closer interior).Proper ∧
      (group.close closer interior).loc.start = group.opener.start ∧
      (group.close closer interior).loc.stop = closer.stop := by
  have hclose : group.opener.stop ≤ closer.start := Cursor.le_trans hin.le hb
  have hstop : group.opener.stop ≤ closer.stop := Cursor.le_trans hclose closer.start_le_stop
  have hjstart : (group.opener.join closer).start = group.opener.start :=
    Location.join_start (Cursor.le_trans group.opener.start_le_stop hclose)
  have hjstop : (group.opener.join closer).stop = closer.stop := Location.join_stop hstop
  refine ⟨(Token.proper_iff _).2 ⟨fun h => ?_, fun h => ?_, fun _ => ?_, ?_⟩, hjstart, hjstop⟩
  · cases h
  · cases h
  · show (group.opener.join closer).start ≠ (group.opener.join closer).stop
    rw [hjstart, hjstop]
    intro heq
    refine hne (Cursor.le_antisymm group.opener.start_le_stop ?_)
    rw [heq]
    exact hstop
  · show Token.InOrder (group.opener.join closer).start (group.opener.join closer).stop interior
    rw [hjstart, hjstop]
    exact hin.mono group.opener.start_le_stop (Cursor.le_trans hb closer.start_le_stop)

/-- One more group is opened. -/
theorem StackInOrder.opens {a b : Cursor} {groups : List OpenGroup} {before : List Token}
    (h : StackInOrder a groups before b) {bracket : Bracket} {loc : Location} (hb : b ≤ loc.start)
    (hne : loc.start ≠ loc.stop) :
    StackInOrder a (⟨bracket, loc, before⟩ :: groups) [] loc.stop := by
  refine ⟨Token.inOrder_nil.2 (Cursor.le_refl _), hne, ?_⟩
  cases groups with
  | nil => exact Token.InOrder.mono h (Cursor.le_refl a) hb
  | cons group outer => exact ⟨h.1.mono (Cursor.le_refl _) hb, h.2⟩

/-- The innermost group is closed. -/
theorem StackInOrder.closes {a b : Cursor} {group : OpenGroup} {groups : List OpenGroup}
    {before : List Token} (h : StackInOrder a (group :: groups) before b) {loc : Location}
    (hb : b ≤ loc.start) :
    StackInOrder a groups (group.close loc before.reverse :: group.before) loc.stop := by
  obtain ⟨hp, hstart, hstop⟩ := OpenGroup.close_proper h.1 hb h.2.1
  rw [← hstop]
  refine StackInOrder.push h.2.2 ?_ hp
  rw [hstart]
  exact Cursor.le_refl _

/-- Matching brackets keeps tokens in order. -/
theorem nest_inOrder {stop? : Option (Located LexicalError)} {a b c : Cursor}
    {groups : List OpenGroup} {before : List Token} {lexemes : List Lexeme} {ts : List Token}
    (hstack : StackInOrder a groups before b) (hlex : Lexeme.InOrder b c lexemes)
    (h : nest stop? groups before lexemes = .ok ts) : Token.InOrder a c ts := by
  induction lexemes generalizing groups before b with
  | nil =>
    obtain ⟨-, rfl, rfl⟩ := nest_nil_ok h
    exact Token.InOrder.mono hstack (Cursor.le_refl a) hlex
  | cons lexeme rest ih =>
    cases lexeme with
    | leaf t =>
      rw [nest] at h
      exact ih (hstack.push hlex.1 hlex.2.1) hlex.2.2 h
    | opens bracket loc =>
      rw [nest] at h
      exact ih (hstack.opens hlex.1 hlex.2.1) hlex.2.2 h
    | closes bracket loc =>
      obtain ⟨group, outer, rfl, -, hrest⟩ := nest_closes_ok h
      exact ih (hstack.closes hlex.1) hlex.2.2 hrest

/-- The token trees of a source text are in order inside it. -/
theorem Token.ofSource_inOrder {source : String} {ts : List Token}
    (h : Token.ofSource source = .ok ts) :
    Token.InOrder (sourceSpan source).start (sourceSpan source).stop ts := by
  have hstack : StackInOrder Cursor.origin [] [] Cursor.origin :=
    Token.inOrder_nil.2 (Cursor.le_refl _)
  rw [ofSource_eq_trees] at h
  exact nest_inOrder hstack (Scanner.scans false .initial source.toList).inOrder h

end Offside
