import Offside.Proofs.Token.Spelling

/-!
# What each token is read as

The text determines the tokens that it is read as. Besides the text of a token, what matters is
whether something separates it from what is before it, and which character follows it.

* `Token.ReadAt`, `Token.ReadAll`: what a token, what some siblings are read as, where a text comes
  before them and another one after them.
* `Token.ReadAll.append_gap`, `Token.ReadAll.append_token`: reading on. `Token.ReadAll.split`: what
  is read of some siblings before one of them, as that one, and after it.
* `StackRead`: what the open groups and the tokens in them are read as. `Scanner.Scans.yields`: one
  lexeme after another keeps it.
* `source_read`: a source text is read as its token trees.
-/

namespace Offside

/-! ## Readings -/

/-- After a comma or a semicolon, what follows is separated. -/
def Token.separates (t : Token) : Bool := t.kind == .comma || t.kind == .semicolon

theorem wordToken_separates (word : String) (l : Location) :
    (wordToken word l).separates = false := by
  unfold wordToken
  split
  · rfl
  · split <;> rfl

theorem operatorToken_separates (operator : String) (separated attached : Bool) (l : Location) :
    (operatorToken operator separated attached l).separates = false := by
  unfold operatorToken
  split
  · rfl
  · split <;> rfl

theorem separatorToken_separates (c : Char) (l : Location) :
    (separatorToken c l).separates = true := by
  unfold separatorToken
  split <;> rfl

mutual

/-- The text `word` is read as a token where `before` comes before it, `separated` from it or not,
and `after` comes after it. -/
inductive Token.ReadAt : (before : List Char) → (separated : Bool) → Token →
    (word after : List Char) → Prop
  /-- A word. -/
  | word {before after cs : List Char} {separated : Bool} {c : Char} {l : Location}
      (hc : isWordStart c = true) (hcs : ∀ d ∈ cs, isWordChar d = true)
      (located : l.IsOf before (c :: cs)) :
      Token.ReadAt before separated (wordToken (String.ofList (c :: cs)) l) (c :: cs) after
  /-- A number. -/
  | number {before after digits : List Char} {separated : Bool} {l : Location}
      (numeral : IsNumeral (String.ofList digits)) (located : l.IsOf before digits) :
      Token.ReadAt before separated (Token.leaf .number (String.ofList digits) l) digits after
  /-- An operator, which depends on what is before it and after it. -/
  | operator {before after cs : List Char} {separated : Bool} {c : Char} {l : Location}
      (hrun : ∀ d ∈ c :: cs, isOperatorChar d = true) (located : l.IsOf before (c :: cs)) :
      Token.ReadAt before separated
        (operatorToken (String.ofList (c :: cs)) separated (after.head?.any beginsOperand) l)
        (c :: cs) after
  /-- A comma or a semicolon. -/
  | separator {before after : List Char} {separated : Bool} {c : Char} {l : Location}
      (hc : c = ',' ∨ c = ';') (located : l.IsOf before [c]) :
      Token.ReadAt before separated (separatorToken c l) [c] after
  /-- A group: its opener, its interior, which the opener separates, and its closer. -/
  | group {before inner after : List Char} {separated last : Bool} {bracket : Bracket}
      {l : Location} {ts : List Token}
      (interior : Token.ReadAll (before ++ [bracket.opener]) true ts inner (bracket.closer :: after)
        last)
      (located : l.IsOf before (bracket.opener :: inner ++ [bracket.closer])) :
      Token.ReadAt before separated (Token.block (.bracketed bracket) l ts)
        (bracket.opener :: inner ++ [bracket.closer]) after

/-- The text `text` is read as some siblings, with gaps before, between and after them, where
`before` comes before it, `separated` from it or not, and `after` comes after it, separated from it
or not as `last` says. -/
inductive Token.ReadAll : (before : List Char) → (separated : Bool) → List Token →
    (text after : List Char) → (last : Bool) → Prop
  /-- No token, and a gap. -/
  | nil {before gap after : List Char} {separated : Bool} (hgap : IsGap gap) :
      Token.ReadAll before separated [] gap after (separated || !gap.isEmpty)
  /-- A gap, a token and what follows it. -/
  | cons {before gap word rest after : List Char} {separated last : Bool} {t : Token}
      {ts : List Token} (hgap : IsGap gap)
      (first : Token.ReadAt (before ++ gap) (separated || !gap.isEmpty) t word (rest ++ after))
      (others : Token.ReadAll (before ++ gap ++ word) t.separates ts rest after last) :
      Token.ReadAll before separated (t :: ts) (gap ++ word ++ rest) after last

end

namespace Token

variable {before text word gap after : List Char} {separated last : Bool}
  {ts left right : List Token} {t : Token}

/-- A gap after some siblings. -/
theorem ReadAll.append_gap (h : ReadAll before separated ts text (gap ++ after) last)
    (hgap : IsGap gap) :
    ReadAll before separated ts (text ++ gap) after (last || !gap.isEmpty) := by
  induction ts generalizing before separated text with
  | nil =>
    cases h with
    | nil hgap' =>
      have hlast : (separated || !text.isEmpty || !gap.isEmpty)
          = (separated || !(text ++ gap).isEmpty) := by
        cases text <;> simp
      rw [hlast]
      exact .nil (hgap'.append hgap)
  | cons t ts ih =>
    cases h with
    | cons hgap' first others =>
      rw [List.append_assoc]
      rw [← List.append_assoc] at first
      exact .cons hgap' first (ih others)

/-- One more token after some siblings. -/
theorem ReadAll.append_token (h : ReadAll before separated ts text (word ++ after) last)
    (ht : ReadAt (before ++ text) last t word after) :
    ReadAll before separated (ts ++ [t]) (text ++ word) after t.separates := by
  induction ts generalizing before separated text with
  | nil =>
    cases h with
    | nil hgap =>
      have hnone : ReadAll (before ++ text ++ word) t.separates [] [] after t.separates := by
        have hnil := @ReadAll.nil (before ++ text ++ word) [] after t.separates .nil
        rwa [List.isEmpty_nil, Bool.not_true, Bool.or_false] at hnil
      have hone := ReadAll.cons hgap ht hnone
      rwa [List.append_nil] at hone
  | cons u ts ih =>
    cases h with
    | cons hgap first others =>
      rw [List.append_assoc]
      rw [← List.append_assoc] at first
      exact .cons hgap first (ih others (by simpa only [List.append_assoc] using ht))

/-- What some siblings are read from before one of them, that one, and after it. -/
theorem ReadAll.split (h : ReadAll before separated (left ++ t :: right) text after last) :
    ∃ start word rest separated', text = start ++ word ++ rest ∧
      ReadAll before separated left start (word ++ rest ++ after) separated' ∧
      ReadAt (before ++ start) separated' t word (rest ++ after) ∧
      ReadAll (before ++ start ++ word) t.separates right rest after last := by
  induction left generalizing before separated text with
  | nil =>
    cases h with
    | cons hgap first others => exact ⟨_, _, _, _, rfl, .nil hgap, first, others⟩
  | cons u left ih =>
    cases h with
    | @cons _ gap firstWord _ _ _ _ _ _ hgap first others =>
      obtain ⟨start, word, rest, separated', rfl, hleft, ht, hright⟩ := ih others
      refine ⟨gap ++ firstWord ++ start, word, rest, separated', by simp only [List.append_assoc],
        ?_, ?_, ?_⟩
      · exact .cons hgap (by simpa only [List.append_assoc] using first) hleft
      · simpa only [List.append_assoc] using ht
      · simpa only [List.append_assoc] using hright

end Token

/-! ## Open groups -/

/-- The text `text` is read as the open groups, innermost first, and the tokens in them. -/
def StackRead : List OpenGroup → List Token → (text after : List Char) → (last : Bool) → Prop
  | [], before, text, after, last => Token.ReadAll [] true before.reverse text after last
  | group :: outer, before, text, after, last =>
    ∃ start inner last', text = start ++ group.bracket.opener :: inner ∧
      Token.ReadAll (start ++ [group.bracket.opener]) true before.reverse inner after last ∧
      group.opener.IsOf start [group.bracket.opener] ∧
      StackRead outer group.before start (group.bracket.opener :: inner ++ after) last'

section Stack

variable {groups : List OpenGroup} {before : List Token} {text word gap after : List Char}
  {last : Bool} {t : Token}

/-- A gap inside the innermost group. -/
theorem StackRead.append_gap (h : StackRead groups before text (gap ++ after) last)
    (hgap : IsGap gap) : StackRead groups before (text ++ gap) after (last || !gap.isEmpty) := by
  cases groups with
  | nil => exact Token.ReadAll.append_gap h hgap
  | cons group outer =>
    obtain ⟨start, inner, last', rfl, hinner, hopener, houter⟩ := h
    exact ⟨start, inner ++ gap, last', by simp, hinner.append_gap hgap, hopener,
      by simpa using houter⟩

/-- One more token inside the innermost group. -/
theorem StackRead.append_token (h : StackRead groups before text (word ++ after) last)
    (ht : t.ReadAt text last word after) :
    StackRead groups (t :: before) (text ++ word) after t.separates := by
  cases groups with
  | nil =>
    rw [StackRead, List.reverse_cons]
    exact Token.ReadAll.append_token h ht
  | cons group outer =>
    obtain ⟨start, inner, last', rfl, hinner, hopener, houter⟩ := h
    refine ⟨start, inner ++ word, last', by simp, ?_, hopener, by simpa using houter⟩
    rw [List.reverse_cons]
    exact hinner.append_token (by simpa using ht)

end Stack

/-! ## Scanning -/

/-- A source text is read as some token trees, perhaps with a comment after them on the last
line. -/
def SourceRead (source : List Char) (ts : List Token) : Prop :=
  ∃ text comment last, source = text ++ comment ∧ (comment = [] ∨ IsComment comment) ∧
    Token.ReadAll [] true ts text comment last

namespace Scanner

/-- Matching the brackets of a scan, inside the groups that are open, yields what the source text is
read as, where a comment may just have ended. -/
def Yields (s : Scanner) (text : List Char) (scan : Scan) : Prop :=
  ∀ groups toks before comment last ts, s.cursor = cursorAfter (before ++ comment) →
    Pending comment text → StackRead groups toks before (comment ++ text) last →
    (comment = [] → s.separated = last) → nest scan.stop? groups toks scan.lexemes = .ok ts →
    SourceRead (before ++ comment ++ text) ts

/-- Reading goes on past the part that is read. -/
theorem Yields.past {s' : Scanner} {text rest : List Char} {scan : Scan} {groups : List OpenGroup}
    {toks ts : List Token} (h : Yields s' rest scan) (hs' : s'.cursor = cursorAfter text)
    (hstack : StackRead groups toks text rest s'.separated)
    (hnest : nest scan.stop? groups toks scan.lexemes = .ok ts) : SourceRead (text ++ rest) ts := by
  have hread := h groups toks text [] _ ts (by rwa [List.append_nil]) (.inl rfl) hstack
    (fun _ => rfl) hnest
  rwa [List.append_nil] at hread

/-- A token without interior separates what follows if its kind does. -/
theorem LeafOf.separates_eq {s : Scanner} {c : Char} {rest : List Char} {leaf : Leaf (c :: rest)}
    (h : s.LeafOf c rest leaf) : leaf.separates = leaf.token.separates := by
  cases h with
  | word => exact (wordToken_separates _ _).symm
  | number => rfl
  | operator => exact (operatorToken_separates _ _ _ _).symm
  | separator => exact (separatorToken_separates _ _).symm

/-- The text that it is read from is read as it. -/
theorem LeafOf.readAt {s : Scanner} {c : Char} {rest before : List Char} {leaf : Leaf (c :: rest)}
    (h : s.LeafOf c rest leaf) (hl : (s.locate leaf.used).IsOf before leaf.used) :
    leaf.token.ReadAt before s.separated leaf.used leaf.rest := by
  cases h with
  | word hc => exact .word hc (List.all_eq_true.1 List.all_takeWhile) hl
  | number hc => exact .number (isNumeral_of_number hc) hl
  | operator hc =>
    exact .operator (List.forall_mem_cons.2 ⟨hc, List.all_eq_true.1 List.all_takeWhile⟩) hl
  | separator hc => exact .separator hc hl

/-- Scanning a text and matching its brackets yields what it is read as. -/
theorem Scans.yields {inBackticks : Bool} {s : Scanner} {text : List Char} {scan : Scan}
    (h : s.Scans inBackticks text scan) : Yields s text scan := by
  induction h with
  | nil =>
    intro groups toks before comment last ts _ hcomment hstack _ hnest
    obtain ⟨-, rfl, rfl⟩ := nest_nil_ok hnest
    rw [List.append_nil] at hstack ⊢
    exact ⟨before, comment, last, rfl, hcomment.imp_right And.left, hstack⟩
  | stops =>
    intro groups toks before comment last ts _ _ _ _ hnest
    cases hnest
  | @blank _ s c rest _ hc _ ih =>
    intro groups toks before comment last ts hs hcomment hstack _ hnest
    rw [← List.singleton_append, ← List.append_assoc, List.append_assoc before]
    refine ih.past ?_ ?_ hnest
    · rw [← List.append_assoc, cursorAfter_append, ← hs]
      rfl
    · have hstack : StackRead groups toks before (comment ++ [c] ++ rest) last := by
        rwa [List.append_assoc]
      have hempty : (comment ++ [c]).isEmpty = false := by cases comment <;> rfl
      have hread := hstack.append_gap (hcomment.isGap hc)
      rwa [hempty, Bool.not_false, Bool.or_true] at hread
  | @comment _ s rest _ later ih =>
    intro groups toks before comment last ts hs hcomment hstack _ hnest
    obtain rfl := hcomment.eq_nil (by decide)
    have hpending := pending_comment later (stop_eq_none_of_nest hnest)
    have hsplit : '#' :: rest.takeWhile continuesComment ++ rest.dropWhile continuesComment
        = '#' :: rest := by
      rw [List.cons_append, List.takeWhile_append_dropWhile]
    rw [List.append_nil] at hs ⊢
    rw [List.nil_append, ← hsplit] at hstack
    rw [← hsplit, ← List.append_assoc]
    refine ih groups toks before _ last ts ?_ hpending hstack (fun h => by cases h) hnest
    rw [cursorAfter_append, ← hs]
    rfl
  | @leaf _ s _ _ leaf _ hleaf _ ih =>
    intro groups toks before comment last ts hs hcomment hstack hlast hnest
    obtain rfl := hcomment.eq_nil hleaf.ne_lineFeed
    obtain rfl := hlast rfl
    rw [List.append_nil] at hs ⊢
    have htext : StackRead groups toks before (leaf.used ++ leaf.rest) s.separated := by
      rwa [leaf.used_append]
    have hread := htext.append_token (hleaf.readAt (locate_isOf hs _))
    rw [← hleaf.separates_eq] at hread
    have hsource := ih.past (by rw [cursorAfter_append, ← hs]; rfl) hread hnest
    rwa [List.append_assoc, leaf.used_append] at hsource
  | @opens _ s bracket rest _ _ _ ih =>
    intro groups toks before comment last ts hs hcomment hstack _ hnest
    obtain rfl := hcomment.eq_nil bracket.opener_ne_lineFeed
    rw [List.append_nil] at hs ⊢
    rw [List.nil_append] at hstack
    rw [← List.singleton_append, ← List.append_assoc]
    refine ih.past (by rw [cursorAfter_append, ← hs]; rfl) ?_ hnest
    exact ⟨before, [], last, rfl, .nil .nil, locate_isOf hs _, hstack⟩
  | @closes _ s bracket rest _ _ _ ih =>
    intro groups toks before comment last ts hs hcomment hstack _ hnest
    obtain rfl := hcomment.eq_nil bracket.closer_ne_lineFeed
    rw [List.append_nil] at hs ⊢
    rw [List.nil_append] at hstack
    rw [← List.singleton_append, ← List.append_assoc]
    obtain ⟨group, outer, rfl, rfl, hlater⟩ := nest_closes_ok hnest
    obtain ⟨start, inner, last', rfl, hinner, hopener, houter⟩ := hstack
    refine ih.past (by rw [cursorAfter_append, ← hs]; rfl) ?_ hlater
    have hstack : StackRead outer group.before start
        (group.bracket.opener :: inner ++ [group.bracket.closer] ++ rest) last' := by
      rwa [List.append_assoc]
    rw [List.append_assoc]
    exact hstack.append_token (.group hinner (hopener.join (locate_isOf hs _)))

end Scanner

/-- A source text is read as its token trees. -/
theorem source_read {source : String} {ts : List Token} (h : Token.ofSource source = .ok ts) :
    SourceRead source.toList ts := by
  have hstack : StackRead [] [] [] source.toList true := Token.ReadAll.nil .nil
  rw [Token.ofSource_eq_trees] at h
  exact (Scanner.scans false .initial source.toList).yields [] [] [] [] _ ts
    (cursorAfter_eq []).symm (.inl rfl) hstack (fun _ => rfl) h

end Offside
