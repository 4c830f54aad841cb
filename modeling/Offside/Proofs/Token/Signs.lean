import Offside.Proofs.Lexeme.Runs
import Offside.Proofs.Token.Readings

/-!
# Operators that become words

A minus sign, an asterisk or an ampersand becomes a word where it is separated from what is before
it and attached to what follows.

* `Reserved.sign?`: the sign that becomes a word.
* `Token.Place`: a token among its siblings. `Token.Place.In`: where it stands in token trees.
  `Token.Place.In.read`: what the text around it is read as.
* `IsSpacing`, `Token.ReadAll.separated_iff`: the last character of a text tells whether what
  follows is separated from it.
* `Token.IsOperand`, `Token.ReadAt.beginsOperand_iff`: the first character of a token tells whether
  it can be an operand.
* `Token.Place.Preceded`, `Token.Place.Followed`, `Token.Place.EndsBackticks`: what is before a
  token and after it.
* `sign_iff`: which runs become words. Apart from those with an operand it is the signs right before
  the backtick that ends their group, since a backtick looks like the opener of an operand.
-/

namespace Offside

/-! ## Signs -/

/-- The sign that becomes a word. -/
def Reserved.sign? : Reserved → Option Char
  | negate => some '-'
  | valueAt => some '*'
  | addressOf => some '&'
  | _ => none

/-- An operator becomes a word if it is the sign of the word alone. -/
theorem Reserved.ofAttached?_eq_some {operator : List Char} {word : Reserved} :
    ofAttached? (String.ofList operator) = some word ↔
      ∃ c, word.sign? = some c ∧ operator = [c] := by
  have hsign : ∀ c, String.ofList operator = String.ofList [c] ↔ operator = [c] :=
    fun c => String.ofList_inj
  unfold ofAttached?
  rw [show "-" = String.ofList ['-'] from rfl, show "*" = String.ofList ['*'] from rfl,
    show "&" = String.ofList ['&'] from rfl]
  simp only [hsign]
  constructor
  · intro h
    split at h
    · cases h
      exact ⟨_, rfl, ‹_›⟩
    · split at h
      · cases h
        exact ⟨_, rfl, ‹_›⟩
      · split at h
        · cases h
          exact ⟨_, rfl, ‹_›⟩
        · cases h
  · rintro ⟨c, hc, rfl⟩
    cases word <;> cases hc <;> rfl

/-- A keyword has no sign. -/
theorem Reserved.sign?_keyword : ∀ word ∈ keywords, word.sign? = none := by decide

/-- The word that the token of an operator is. -/
theorem operatorToken_reserved? {operator : List Char} {separated attached : Bool} {l : Location}
    {word : Reserved} {c : Char} (hc : word.sign? = some c) :
    (operatorToken (String.ofList operator) separated attached l).reserved? = some word
      ↔ operator = [c] ∧ separated = true ∧ attached = true := by
  have hattached : Reserved.ofAttached? (String.ofList operator) = some word ↔ operator = [c] := by
    rw [Reserved.ofAttached?_eq_some, hc]
    simp
  rw [← hattached, ← Bool.and_eq_true]
  unfold operatorToken
  split
  · rename_i other hother hboth
    rw [Token.leaf_reserved?, hother, hboth]
    simp
  · rename_i hnot
    have hfalse : ¬ (Reserved.ofAttached? (String.ofList operator) = some word
        ∧ (separated && attached) = true) := fun h => hnot word h.1 h.2
    refine iff_of_false ?_ hfalse
    split
    · rw [Token.leaf_reserved?]
      rintro ⟨⟩
      cases hc
    · exact fun h => nomatch h

/-- The token of an operator is no keyword. -/
theorem operatorToken_keyword {operator : List Char} {separated attached : Bool} {l : Location}
    {word : Reserved} (hword : word ∈ Reserved.keywords) :
    (operatorToken (String.ofList operator) separated attached l).reserved? ≠ some word := by
  unfold operatorToken
  split
  · rename_i other hother _
    rw [Token.leaf_reserved?]
    rintro ⟨⟩
    obtain ⟨c, hc, -⟩ := Reserved.ofAttached?_eq_some.1 hother
    rw [Reserved.sign?_keyword word hword] at hc
    cases hc
  · split
    · rw [Token.leaf_reserved?]
      rintro ⟨⟩
      exact absurd hword (by decide)
    · exact fun h => nomatch h

/-! ## Places -/

/-- A place of a token among its siblings. -/
structure Token.Place where
  /-- The group that holds the siblings, if any. -/
  around : Option Token
  /-- The siblings before the token. -/
  left : List Token
  /-- The token. -/
  token : Token
  /-- The siblings after the token. -/
  right : List Token

/-- The places in token trees. -/
inductive Token.Place.In (ts : List Token) : Token.Place → Prop
  /-- That of a tree. -/
  | tree {left right : List Token} {t : Token} (h : ts = left ++ t :: right) :
      Token.Place.In ts ⟨none, left, t, right⟩
  /-- That of a token in the interior of another one. -/
  | inside {p : Token.Place} {left right : List Token} {t : Token} (hp : p.In ts)
      (h : p.token.children = left ++ t :: right) : Token.Place.In ts ⟨some p.token, left, t, right⟩

namespace Token

/-- What the siblings in a group, or the trees of a source text, stand between. -/
inductive Bounds : (around : Option Token) → (start rest : List Char) → Prop
  /-- The whole text, perhaps up to a comment on the last line. -/
  | text {rest : List Char} (h : rest = [] ∨ IsComment rest) : Bounds none [] rest
  /-- The brackets of a group. -/
  | brackets {group : Token} {bracket : Bracket} {front rest : List Char}
      (kind : group.blockKind? = some (.bracketed bracket))
      (start : group.loc.start = cursorAfter front) :
      Bounds (some group) (front ++ [bracket.opener]) (bracket.closer :: rest)

/-- Only a group has an interior. -/
theorem ReadAt.group_of_children {before word after : List Char} {separated : Bool}
    {group t : Token} (h : group.ReadAt before separated word after) (ht : t ∈ group.children) :
    ∃ inner bracket last, word = bracket.opener :: inner ++ [bracket.closer] ∧
      group.blockKind? = some (.bracketed bracket) ∧ group.loc.start = cursorAfter before ∧
      ReadAll (before ++ [bracket.opener]) true group.children inner (bracket.closer :: after)
        last := by
  cases h with
  | word =>
    rw [wordToken_children] at ht
    cases ht
  | number => cases ht
  | operator =>
    rw [operatorToken_children] at ht
    cases ht
  | separator => cases ht
  | group interior located =>
    exact ⟨_, _, _, rfl, block_blockKind? _ _ _, located.1, interior⟩

/-- A token is where it is read. -/
theorem ReadAt.isOf {before word after : List Char} {separated : Bool} {t : Token}
    (h : t.ReadAt before separated word after) : t.loc.IsOf before word := by
  cases h with
  | word _ _ located => rwa [wordToken_loc]
  | number _ located => exact located
  | operator _ located => rwa [operatorToken_loc]
  | separator _ located => exact located
  | group _ located => exact located

end Token

/-- Texts that one text begins with are told apart by the cursors after them. -/
theorem eq_of_cursorAfter {a b x y : List Char} (h : a ++ x = b ++ y)
    (hcursor : cursorAfter a = cursorAfter b) : a = b := by
  have hempty : ∀ {a c : List Char}, cursorAfter a = cursorAfter (a ++ c) → c = [] := by
    intro a c hac
    by_contra hne
    refine Cursor.not_after_le (cursorAfter a) hne ?_
    rw [← cursorAfter_append, ← hac]
    exact Cursor.le_refl _
  rcases List.append_eq_append_iff.1 h with ⟨c, rfl, -⟩ | ⟨c, rfl, -⟩
  · rw [hempty hcursor, List.append_nil]
  · rw [hempty hcursor.symm, List.append_nil]

namespace Token.Place

/-- What the siblings of a token are read as, between their bounds. -/
theorem In.readAll {source : String} {ts : List Token} {p : Place}
    (h : Token.ofSource source = .ok ts) (hp : p.In ts) :
    ∃ start text rest last, source.toList = start ++ text ++ rest ∧
      Token.Bounds p.around start rest ∧
      Token.ReadAll start true (p.left ++ p.token :: p.right) text rest last := by
  induction hp with
  | tree hts =>
    subst hts
    obtain ⟨text, comment, last, hsource, hcomment, hread⟩ := source_read h
    exact ⟨[], text, comment, last, hsource, .text hcomment, hread⟩
  | @inside p left right t hp hchildren ih =>
    obtain ⟨start, text, rest, last, hsource, -, hread⟩ := ih
    obtain ⟨before, word, after, separated, rfl, -, hgroup, -⟩ := hread.split
    have ht : t ∈ p.token.children := by
      rw [hchildren]
      exact List.mem_append_cons_self
    obtain ⟨inner, bracket, last', rfl, hkind, hstart, hinner⟩ := hgroup.group_of_children ht
    rw [hchildren] at hinner
    refine ⟨_, inner, _, last', ?_, .brackets hkind hstart, hinner⟩
    simpa using hsource

/-- What the text before a token, the token and the text after it are read as. -/
theorem In.read {source : String} {ts : List Token} {p : Place} {before run after : List Char}
    (h : Token.ofSource source = .ok ts) (hsource : source.toList = before ++ run ++ after)
    (hp : p.In ts) (located : p.token.loc.IsOf before run) :
    ∃ start text text' rest separated last, before = start ++ text ∧ after = text' ++ rest ∧
      Token.Bounds p.around start rest ∧
      Token.ReadAll start true p.left text (run ++ after) separated ∧
      p.token.ReadAt before separated run after ∧
      Token.ReadAll (before ++ run) p.token.separates p.right text' rest last := by
  obtain ⟨start, text, rest, last, hread, hbounds, hall⟩ := hp.readAll h
  obtain ⟨text, word, text', separated, rfl, hleft, ht, hright⟩ := hall.split
  have hsplit : before ++ (run ++ after) = start ++ text ++ (word ++ (text' ++ rest)) := by
    rw [← List.append_assoc, ← hsource, hread]
    simp
  obtain rfl : before = start ++ text :=
    eq_of_cursorAfter hsplit (located.1.symm.trans ht.isOf.1)
  have hrest := List.append_cancel_left hsplit
  have hstop : cursorAfter (start ++ text ++ run) = cursorAfter (start ++ text ++ word) :=
    located.2.symm.trans ht.isOf.2
  obtain rfl : run = word := by
    rw [← List.append_assoc, ← List.append_assoc (start ++ text)] at hsplit
    exact List.append_cancel_left (eq_of_cursorAfter hsplit hstop)
  obtain rfl := List.append_cancel_left hrest
  rw [List.append_assoc] at hleft
  exact ⟨start, text, text', rest, separated, last, rfl, rfl, hbounds, hleft, ht, hright⟩

end Token.Place

/-! ## What is before a run -/

/-- A blank, a comma or a semicolon. -/
def IsSpacing (c : Char) : Prop :=
  CharClass.of? c = some .blank ∨ CharClass.of? c = some .separator

instance (c : Char) : Decidable (IsSpacing c) :=
  inferInstanceAs (Decidable (CharClass.of? c = some .blank ∨ CharClass.of? c = some .separator))

/-- A character of a class is spacing if the class is. -/
theorem isSpacing_iff {c : Char} {k : CharClass} (h : CharClass.of? c = some k) :
    IsSpacing c ↔ k = .blank ∨ k = .separator := by
  rw [IsSpacing, h, Option.some_inj, Option.some_inj]

theorem not_isSpacing_of_isDigit {c : Char} (h : c.isDigit = true) : ¬ IsSpacing c := by
  simp [isSpacing_iff (CharClass.of?_digit h)]

theorem not_isSpacing_of_isWordChar {c : Char} (h : isWordChar c = true) : ¬ IsSpacing c := by
  rcases Bool.or_eq_true_iff.1 h with h | h
  · simp [isSpacing_iff (CharClass.of?_wordStart h)]
  · exact not_isSpacing_of_isDigit h

theorem not_isSpacing_of_isOperatorChar {c : Char} (h : isOperatorChar c = true) :
    ¬ IsSpacing c := by
  simp [isSpacing_iff (CharClass.of?_operator h)]

/-- A gap ends in spacing. -/
theorem IsGap.isSpacing {gap : List Char} {c : Char} (h : IsGap gap) (hc : gap.getLast? = some c) :
    IsSpacing c := by
  induction h with
  | nil => cases hc
  | @blank d rest hd _ ih =>
    rw [List.getLast?_cons] at hc
    cases hrest : rest.getLast? with
    | none =>
      rw [hrest] at hc
      cases hc
      rcases hd with rfl | rfl | rfl <;> decide
    | some e =>
      rw [hrest] at hc
      exact ih (hrest.trans hc)
  | @comment text rest _ _ ih =>
    rw [List.getLast?_append, List.getLast?_cons] at hc
    cases hrest : rest.getLast? with
    | none =>
      rw [hrest] at hc
      cases hc
      decide
    | some e =>
      rw [hrest] at hc
      exact ih (hrest.trans hc)

namespace Token

/-- A token ends in spacing if it is a separator. -/
theorem ReadAt.isSpacing_iff {before word after : List Char} {separated : Bool} {t : Token}
    (h : t.ReadAt before separated word after) :
    ∃ c, word.getLast? = some c ∧ (IsSpacing c ↔ t.separates = true) := by
  have hplain : t.separates = false → word ≠ [] → (∀ c ∈ word, ¬ IsSpacing c) →
      ∃ c, word.getLast? = some c ∧ (IsSpacing c ↔ t.separates = true) := by
    intro hfalse hne hword
    have hlast : ¬ IsSpacing (word.getLast hne) := hword _ (List.getLast_mem hne)
    exact ⟨_, List.getLast?_eq_some_getLast hne, iff_of_false hlast (by simp [hfalse])⟩
  cases h with
  | word hc hcs =>
    refine hplain (wordToken_separates _ _) (List.cons_ne_nil _ _) (List.forall_mem_cons.2 ⟨?_, ?_⟩)
    · exact not_isSpacing_of_isWordChar (Bool.or_eq_true_iff.2 (.inl hc))
    · exact fun d hd => not_isSpacing_of_isWordChar (hcs d hd)
  | number numeral =>
    obtain ⟨c, cs, h, hc, hcs⟩ := numeral
    have hdigits : ∀ d ∈ c :: cs, ¬ IsSpacing d := List.forall_mem_cons.2
      ⟨not_isSpacing_of_isDigit hc, fun d hd => not_isSpacing_of_isDigit (hcs d hd)⟩
    rw [String.toList_ofList] at h
    rcases h with rfl | rfl
    · exact hplain rfl (List.cons_ne_nil _ _) hdigits
    · exact hplain rfl (List.cons_ne_nil _ _) (List.forall_mem_cons.2 ⟨by decide, hdigits⟩)
  | operator hrun =>
    exact hplain (operatorToken_separates _ _ _ _) (List.cons_ne_nil _ _)
      fun d hd => not_isSpacing_of_isOperatorChar (hrun d hd)
  | separator hc =>
    refine ⟨_, rfl, iff_of_true ?_ (separatorToken_separates _ _)⟩
    rcases hc with rfl | rfl <;> decide
  | @group _ inner _ _ _ bracket _ _ interior _ =>
    refine ⟨bracket.closer, List.getLast?_concat, iff_of_false ?_ (by simp [separates, block])⟩
    cases bracket <;> decide

/-- What follows some siblings is separated from them if their text ends in spacing. -/
theorem ReadAll.separated_iff {before text after : List Char} {separated last : Bool}
    {ts : List Token} (h : ReadAll before separated ts text after last) :
    last = true ↔ (text = [] ∧ separated = true) ∨ ∃ c, text.getLast? = some c ∧ IsSpacing c := by
  induction ts generalizing before separated text with
  | nil =>
    cases h with
    | nil hgap =>
      cases text with
      | nil => simp
      | cons c cs =>
        have hc := List.getLast?_eq_some_getLast (List.cons_ne_nil c cs)
        exact iff_of_true (by simp) (.inr ⟨_, hc, hgap.isSpacing hc⟩)
  | cons t ts ih =>
    cases h with
    | @cons _ gap word rest _ _ _ _ _ hgap first others =>
      obtain ⟨c, hc, hspacing⟩ := first.isSpacing_iff
      have hne : word ≠ [] := by
        rintro rfl
        cases hc
      rw [ih others, List.getLast?_append]
      cases rest with
      | nil => simp [hc, hne, hspacing]
      | cons d ds => simp

end Token

/-- A token after the text `before` is preceded by the start of the text, by spacing, or by the
opener of the group that it is in. A comment before it ends in a line feed, which is spacing. -/
def Token.Place.Preceded (before : List Char) (p : Token.Place) : Prop :=
  before = [] ∨ (∃ c, before.getLast? = some c ∧ IsSpacing c) ∨
    ∃ group bracket front, p.around = some group ∧
      group.blockKind? = some (.bracketed bracket) ∧ before = front ++ [bracket.opener] ∧
      group.loc.start = cursorAfter front

/-- What follows some siblings is separated from them if it is preceded so. -/
theorem Token.Place.preceded_iff {p : Token.Place} {start text after rest : List Char}
    {separated : Bool} (hbounds : Token.Bounds p.around start rest)
    (hleft : Token.ReadAll start true p.left text after separated) :
    separated = true ↔ p.Preceded (start ++ text) := by
  obtain ⟨around, left, t, right⟩ := p
  rw [hleft.separated_iff]
  constructor
  · rintro (⟨rfl, -⟩ | ⟨c, hc, hspacing⟩)
    · cases hbounds with
      | text => exact .inl rfl
      | brackets kind hstart =>
        exact .inr (.inr ⟨_, _, _, rfl, kind, List.append_nil _, hstart⟩)
    · exact .inr (.inl ⟨c, by rw [List.getLast?_append, hc, Option.some_or], hspacing⟩)
  · rintro (hnil | ⟨c, hc, hspacing⟩ | ⟨group, bracket, front, hgroup, -, hbefore, hfront⟩)
    · exact .inl ⟨(List.append_eq_nil_iff.1 hnil).2, rfl⟩
    · rw [List.getLast?_append] at hc
      cases hlast : text.getLast? with
      | none => exact .inl ⟨List.getLast?_eq_none_iff.1 hlast, rfl⟩
      | some d =>
        rw [hlast] at hc
        exact .inr ⟨c, hc, hspacing⟩
    · cases hgroup
      cases hbounds with
      | @brackets _ _ front' _ kind hstart =>
        rw [List.append_assoc] at hbefore
        obtain rfl := eq_of_cursorAfter hbefore (hstart.symm.trans hfront)
        have hlength := congrArg List.length (List.append_cancel_left hbefore)
        rw [List.length_append, List.length_singleton, List.length_singleton] at hlength
        exact .inl ⟨List.eq_nil_of_length_eq_zero (by omega), rfl⟩

/-! ## What is after a run -/

/-- An operand of a sign begins with a name, a keyword or a block. -/
def Token.IsOperand (t : Token) : Prop :=
  t.kind = .identifier ∨ (∃ word ∈ Reserved.keywords, t.reserved? = some word) ∨ t.kind = .block

/-- What begins an operand is a letter or an opener. -/
theorem beginsOperand_iff {c : Char} {k : CharClass} (h : CharClass.of? c = some k) :
    beginsOperand c = true ↔ k = .letter ∨ ∃ bracket, k = .opener bracket := by
  rw [beginsOperand, h]
  cases k <;> simp

/-- No gap begins an operand. -/
theorem IsGap.not_beginsOperand {gap : List Char} {c : Char} (h : IsGap gap)
    (hc : gap.head? = some c) : beginsOperand c = false := by
  cases h with
  | nil => cases hc
  | blank hd _ =>
    cases hc
    rcases hd with rfl | rfl | rfl <;> decide
  | comment htext _ =>
    obtain ⟨cs, rfl, -⟩ := htext
    cases hc
    decide

/-- The token of a word can be an operand. -/
theorem wordToken_isOperand (word : String) (l : Location) : (wordToken word l).IsOperand := by
  unfold wordToken
  split
  · exact .inr (.inr rfl)
  · split
    · rename_i hkey
      obtain ⟨r, hr⟩ := Option.isSome_iff_exists.1 hkey
      have htext : r.text = word := by simpa using List.find?_some hr
      refine .inr (.inl ⟨r, List.mem_of_find?_eq_some hr, ?_⟩)
      rw [← htext, Token.leaf_reserved?]
    · exact .inl rfl

/-- A token without interior cannot be an operand, unless it is a name or a reserved word. -/
theorem Token.leaf_not_isOperand {kind : TokenKind} {text : String} {l : Location}
    (hname : kind ≠ .identifier) (hword : kind ≠ .reserved) (hblock : kind ≠ .block) :
    ¬ (leaf kind text l).IsOperand := by
  rintro (h | ⟨word, -, h⟩ | h)
  · exact hname h
  · exact hword (kind_of_reserved? h)
  · exact hblock h

/-- The token of an operator cannot be an operand. -/
theorem operatorToken_not_isOperand (operator : List Char) (separated attached : Bool)
    (l : Location) : ¬ (operatorToken (String.ofList operator) separated attached l).IsOperand := by
  have hkind : (operatorToken (String.ofList operator) separated attached l).kind = .reserved ∨
      (operatorToken (String.ofList operator) separated attached l).kind = .operator := by
    unfold operatorToken
    split
    · exact .inl rfl
    · split
      · exact .inl rfl
      · exact .inr rfl
  rintro (h | ⟨word, hword, h⟩ | h)
  · simp [h] at hkind
  · exact operatorToken_keyword hword h
  · simp [h] at hkind

/-- The token of a separator cannot be an operand. -/
theorem separatorToken_not_isOperand (c : Char) (l : Location) :
    ¬ (separatorToken c l).IsOperand := by
  unfold separatorToken
  split <;> exact Token.leaf_not_isOperand (by decide) (by decide) (by decide)

namespace Token

/-- The first character of a token begins an operand if the token can be one. -/
theorem ReadAt.beginsOperand_iff {before word after : List Char} {separated : Bool} {t : Token}
    (h : t.ReadAt before separated word after) :
    ∃ c, word.head? = some c ∧ (beginsOperand c = true ↔ t.IsOperand) := by
  have hdigit : ∀ {c : Char}, c.isDigit = true → ¬ beginsOperand c = true := fun hc => by
    simp [Offside.beginsOperand_iff (CharClass.of?_digit hc)]
  cases h with
  | word hc =>
    refine ⟨_, rfl, iff_of_true ?_ (wordToken_isOperand _ _)⟩
    exact (Offside.beginsOperand_iff (CharClass.of?_wordStart hc)).2 (.inl rfl)
  | number numeral =>
    have hnot : ∀ {text l}, ¬ (leaf .number text l).IsOperand :=
      leaf_not_isOperand (by decide) (by decide) (by decide)
    obtain ⟨c, cs, h, hc, -⟩ := numeral
    rw [String.toList_ofList] at h
    rcases h with rfl | rfl
    · exact ⟨_, rfl, iff_of_false (hdigit hc) hnot⟩
    · exact ⟨_, rfl, iff_of_false (by decide) hnot⟩
  | operator hrun =>
    refine ⟨_, rfl, iff_of_false ?_ (operatorToken_not_isOperand _ _ _ _)⟩
    have hc := CharClass.of?_operator (hrun _ List.mem_cons_self)
    simp [Offside.beginsOperand_iff hc]
  | separator hc =>
    refine ⟨_, rfl, iff_of_false ?_ (separatorToken_not_isOperand _ _)⟩
    rcases hc with rfl | rfl <;> decide
  | @group _ inner _ _ _ bracket _ _ interior _ =>
    refine ⟨_, rfl, iff_of_true ?_ (.inr (.inr rfl))⟩
    cases bracket <;> decide

end Token

namespace Token.Place

/-- The next sibling of a token starts right at its end and can be an operand. -/
def Followed (p : Place) : Prop :=
  ∃ u others, p.right = u :: others ∧ u.loc.start = p.token.loc.stop ∧ u.IsOperand

/-- The text `after` a token is the backtick that ends its group, and what follows it. -/
def EndsBackticks (after : List Char) (p : Place) : Prop :=
  p.right = [] ∧ after.head? = some '\x60' ∧
    ∃ group, p.around = some group ∧ group.blockKind? = some (.bracketed .backtick)

/-- A token with an operand is not the last one of its group. -/
theorem Followed.not_endsBackticks {p : Place} {after : List Char} (h : p.Followed) :
    ¬ p.EndsBackticks after := by
  obtain ⟨u, others, hright, -⟩ := h
  rintro ⟨hnil, -⟩
  rw [hnil] at hright
  cases hright

/-- What begins an operand after a token is the operand, or the backtick that ends its group. -/
theorem followed_iff {p : Place} {start before text rest : List Char} {separated last : Bool}
    (hbounds : Token.Bounds p.around start rest)
    (hright : Token.ReadAll before separated p.right text rest last)
    (ht : p.token.loc.stop = cursorAfter before) :
    (text ++ rest).head?.any beginsOperand = true ↔
      p.Followed ∨ p.EndsBackticks (text ++ rest) := by
  obtain ⟨around, left, t, right⟩ := p
  dsimp only at hbounds hright ht
  cases hright with
  | nil hgap =>
    have hnot : ¬ Followed ⟨around, left, t, []⟩ := fun ⟨_, _, h, _⟩ => nomatch h
    rw [or_iff_right hnot]
    cases text with
    | cons c cs =>
      have hc := hgap.not_beginsOperand (c := c) rfl
      refine iff_of_false (by simp [hc]) ?_
      rintro ⟨-, h, -⟩
      cases h
      exact absurd hc (by decide)
    | nil =>
      rw [List.nil_append]
      cases hbounds with
      | text hrest =>
        refine iff_of_false ?_ fun ⟨_, _, _, h, _⟩ => nomatch h
        rcases hrest with rfl | ⟨cs, rfl, -⟩
        · decide
        · simp [show beginsOperand '#' = false by decide]
      | @brackets group bracket _ _ kind =>
        have hbracket : beginsOperand bracket.closer = true ↔ bracket = .backtick := by
          cases bracket <;> decide
        have hcloser : bracket.closer = '\x60' ↔ bracket = .backtick := by
          cases bracket <;> decide
        simp [EndsBackticks, kind, hbracket, hcloser]
  | @cons _ gap word others _ _ _ u right hgap first _ =>
    have hnot : ¬ EndsBackticks (gap ++ word ++ others ++ rest) ⟨around, left, t, u :: right⟩ :=
      fun ⟨h, _⟩ => nomatch h
    rw [or_iff_left hnot]
    cases gap with
    | nil =>
      obtain ⟨c, hc, hoperand⟩ := first.beginsOperand_iff
      have hstart : u.loc.start = t.loc.stop := by
        rw [first.isOf.1, ht, List.append_nil]
      have hhead : ([] ++ word ++ others ++ rest).head? = some c := by simp [hc]
      rw [hhead, Option.any_some, hoperand]
      constructor
      · exact fun h => ⟨u, right, rfl, hstart, h⟩
      · rintro ⟨_, _, hright, -, h⟩
        cases hright
        exact h
    | cons d ds =>
      have hd := hgap.not_beginsOperand (c := d) rfl
      refine iff_of_false (by simp [hd]) ?_
      rintro ⟨_, _, hright, hstart, -⟩
      cases hright
      rw [first.isOf.1, ht, cursorAfter_append] at hstart
      refine Cursor.not_after_le (cursorAfter before) (List.cons_ne_nil d ds) ?_
      rw [hstart]
      exact Cursor.le_refl _

end Token.Place

/-! ## Words -/

/-- What is read from operator characters is an operator. -/
theorem Token.ReadAt.operatorToken_of_run {before run after : List Char} {separated : Bool}
    {t : Token} (h : t.ReadAt before separated run after)
    (hrun : ∀ c ∈ run, isOperatorChar c = true) :
    ∃ l, t = operatorToken (String.ofList run) separated (after.head?.any beginsOperand) l := by
  have hclass : ∀ c ∈ run, CharClass.of? c = some .operator :=
    fun c hc => CharClass.of?_operator (hrun c hc)
  cases h with
  | word hc =>
    have hfirst := hclass _ List.mem_cons_self
    rw [CharClass.of?_wordStart hc] at hfirst
    cases hfirst
  | number numeral =>
    obtain ⟨c, cs, h, hc, -⟩ := numeral
    have hmem : c ∈ run := by
      rw [String.toList_ofList] at h
      rcases h with rfl | rfl <;> simp
    have hdigit := hclass c hmem
    rw [CharClass.of?_digit hc] at hdigit
    cases hdigit
  | operator => exact ⟨_, rfl⟩
  | separator hc =>
    have hfirst := hclass _ List.mem_cons_self
    rcases hc with rfl | rfl <;> exact absurd hfirst (by decide)
  | @group _ inner _ _ _ bracket _ _ interior _ =>
    have hfirst := hclass bracket.opener List.mem_cons_self
    cases bracket <;> exact absurd hfirst (by decide)

section Words

variable {source : String} {ts : List Token} {before run after : List Char} {word : Reserved}
  {sign : Char}

/-- The token of a run of operator characters is the word of a sign exactly if the run is that sign
alone, is preceded by what separates it, and is followed by what looks like an operand. -/
theorem Token.Place.In.reserved?_iff {p : Token.Place} (h : Token.ofSource source = .ok ts)
    (hsource : source.toList = before ++ run ++ after)
    (hrun : ∀ c ∈ run, isOperatorChar c = true) (hsign : word.sign? = some sign) (hp : p.In ts)
    (located : p.token.loc.IsOf before run) :
    p.token.reserved? = some word ↔
      run = [sign] ∧ p.Preceded before ∧ (p.Followed ∨ p.EndsBackticks after) := by
  obtain ⟨start, text, text', rest, separated, last, rfl, rfl, hbounds, hleft, ht, hright⟩ :=
    hp.read h hsource located
  rw [← preceded_iff hbounds hleft, ← followed_iff hbounds hright located.2]
  obtain ⟨l, hl⟩ := ht.operatorToken_of_run hrun
  rw [hl]
  exact operatorToken_reserved? hsign

/-- A run of operator characters in a source text becomes the word of a sign exactly if it is that
sign alone, is preceded by what separates it, and is followed by an operand or by the backtick that
ends its group. So having an operand decides it, except for the signs before such a backtick. A run
in a comment, or before the digits of a number, has no token of its own and becomes no word. -/
theorem sign_iff (h : Token.ofSource source = .ok ts)
    (hsource : source.toList = before ++ run ++ after)
    (hrun : ∀ c ∈ run, isOperatorChar c = true) (hsign : word.sign? = some sign) :
    ((∃ p : Token.Place, p.In ts ∧ p.token.loc.IsOf before run ∧ p.token.reserved? = some word) ↔
      run = [sign] ∧ ∃ p : Token.Place, p.In ts ∧ p.token.loc.IsOf before run ∧ p.Preceded before ∧
        (p.Followed ∨ p.EndsBackticks after)) ∧
    ∀ p : Token.Place, p.In ts → p.token.loc.IsOf before run →
      ((p.token.reserved? = some word ↔ run = [sign] ∧ p.Preceded before ∧ p.Followed) ↔
        ¬ (run = [sign] ∧ p.Preceded before ∧ p.EndsBackticks after)) := by
  refine ⟨⟨?_, ?_⟩, fun p hp located => ?_⟩
  · rintro ⟨p, hp, located, hword⟩
    obtain ⟨hone, hrest⟩ := (hp.reserved?_iff h hsource hrun hsign located).1 hword
    exact ⟨hone, p, hp, located, hrest⟩
  · rintro ⟨hone, p, hp, located, hrest⟩
    exact ⟨p, hp, located, (hp.reserved?_iff h hsource hrun hsign located).2 ⟨hone, hrest⟩⟩
  · rw [hp.reserved?_iff h hsource hrun hsign located]
    have hnot : p.Followed → ¬ p.EndsBackticks after := Token.Place.Followed.not_endsBackticks
    tauto

end Words

/-- The sign has the name as its operand. -/
theorem sign_iff_group : ∃ ts, Token.ofSource "(-a)" = .ok ts ∧
    "(-a)".toList = ['('] ++ ['-'] ++ ['a', ')'] ∧ (∀ c ∈ ['-'], isOperatorChar c = true) ∧
    Reserved.negate.sign? = some '-' ∧ ∃ p : Token.Place, p.In ts ∧ p.token.loc.IsOf ['('] ['-'] ∧
      p.Preceded ['('] ∧ p.Followed ∧ p.token.reserved? = some .negate := by
  let sign := Token.leaf .reserved "negate" (.one ⟨1, 2⟩)
  let name := Token.leaf .identifier "a" (.one ⟨1, 3⟩)
  let group := Token.block (.bracketed .paren) (.ofText ⟨1, 1⟩ "(-a)".toList) [sign, name]
  have hts : Token.ofSource "(-a)" = .ok [group] := by
    rw [Token.ofSource_eq_trees]
    cbv
  have hsource : "(-a)".toList = ['('] ++ ['-'] ++ ['a', ')'] := by decide
  have hrun : ∀ c ∈ ['-'], isOperatorChar c = true := List.forall_mem_singleton.2 rfl
  let p : Token.Place := ⟨some group, [], sign, [name]⟩
  have hp : p.In [group] := .inside (p := ⟨none, [], group, []⟩) (.tree rfl) rfl
  have located : p.token.loc.IsOf ['('] ['-'] := ⟨rfl, rfl⟩
  have hpreceded : p.Preceded ['('] := .inr (.inr ⟨group, .paren, [], rfl, rfl, rfl, rfl⟩)
  have hfollowed : p.Followed := ⟨name, [], rfl, rfl, .inl rfl⟩
  have hsign : Reserved.negate.sign? = some '-' := rfl
  have hiff := (sign_iff hts hsource hrun hsign).2 p hp located
  have hword := hiff.2 (fun h => hfollowed.not_endsBackticks h.2.2)
  exact ⟨_, hts, hsource, hrun, hsign, p, hp, located, hpreceded, hfollowed,
    hword.2 ⟨rfl, hpreceded, hfollowed⟩⟩

/-- A sign alone between backticks has no operand and still becomes a word: the backtick that ends
the group looks like an opener. -/
theorem sign_before_backtick : ∃ ts, Token.ofSource "\x60-\x60" = .ok ts ∧
    (∃ p : Token.Place, p.In ts ∧ p.token.loc.IsOf ['\x60'] ['-'] ∧
      p.token.reserved? = some .negate) ∧
    ¬ ∃ p : Token.Place, p.In ts ∧ p.token.loc.IsOf ['\x60'] ['-'] ∧ p.Followed := by
  let sign := Token.leaf .reserved "negate" (.one ⟨1, 2⟩)
  let group := Token.block (.bracketed .backtick) (.ofText ⟨1, 1⟩ "\x60-\x60".toList) [sign]
  have hts : Token.ofSource "\x60-\x60" = .ok [group] := by
    rw [Token.ofSource_eq_trees]
    cbv
  have hp : Token.Place.In [group] ⟨some group, [], sign, []⟩ :=
    .inside (p := ⟨none, [], group, []⟩) (.tree rfl) rfl
  have hone : ∀ {x t : Token} {left right}, [x] = left ++ t :: right → right = [] ∧ t = x := by
    intro x t left right h
    cases left with
    | nil =>
      cases h
      exact ⟨rfl, rfl⟩
    | cons y ys => simp at h
  -- both tokens are alone among their siblings
  have halone : ∀ p : Token.Place, p.In [group] →
      p.right = [] ∧ (p.token = group ∨ p.token = sign) := by
    intro p hp
    induction hp with
    | tree h => exact ⟨(hone h).1, .inl (hone h).2⟩
    | inside _ h ih =>
      rcases ih.2 with htoken | htoken
      · rw [htoken] at h
        exact ⟨(hone h).1, .inr (hone h).2⟩
      · rw [htoken] at h
        simp [sign, Token.leaf] at h
  refine ⟨_, hts, ⟨_, hp, ⟨rfl, rfl⟩, rfl⟩, ?_⟩
  rintro ⟨p, hp, -, u, others, hright, -⟩
  rw [(halone p hp).1] at hright
  cases hright

end Offside
