import Mathlib
import Offside.Proofs.Token.Nesting

/-!
# Token trees spell their source text

Reading a source text as token trees loses nothing of it and adds nothing to it.

* `IsComment`, `IsGap`: what may stand between tokens.
* `Token.written`: how a token without interior is written. The words that stand for a sign are
  written as the sign, every other token as its text.
* `Token.SpelledAt`, `Token.SpelledAll`: a text is what a token, what some tokens with gaps between
  them are written as, and each token is located where its part of the text is.
* `Lexeme.Spelled`: the same of lexemes. `Scanner.Scans.spells`: scanning yields such lexemes.
* `StackSpelled`: what the open groups and the tokens in them spell while brackets are matched.
  `nest_spelled`: one lexeme after another keeps it.
* `source_spelled`: a source text is what its token trees are written as.
-/

namespace Offside

/-! ## Gaps -/

/-- A comment: a number sign and what follows it on its line. It has no tab. -/
def IsComment (text : List Char) : Prop :=
  ∃ cs, text = '#' :: cs ∧ ∀ c ∈ cs, c ≠ '\n' ∧ c ≠ '\t'

/-- What may stand between tokens: spaces, line ends, and comments, each up to the end of its
line. -/
inductive IsGap : List Char → Prop
  /-- Nothing. -/
  | nil : IsGap []
  /-- A space, a carriage return or a line feed. -/
  | blank {c : Char} {rest : List Char} (hc : c = ' ' ∨ c = '\r' ∨ c = '\n') (h : IsGap rest) :
    IsGap (c :: rest)
  /-- A comment and the line feed that ends it. -/
  | comment {text rest : List Char} (hc : IsComment text) (h : IsGap rest) :
    IsGap (text ++ '\n' :: rest)

/-- One gap after another is a gap. -/
theorem IsGap.append {a b : List Char} (ha : IsGap a) (hb : IsGap b) : IsGap (a ++ b) := by
  induction ha with
  | nil => exact hb
  | blank hc _ ih => exact .blank hc ih
  | comment hc _ ih =>
    rw [List.append_assoc, List.cons_append]
    exact .comment hc ih

/-! ## Texts of tokens -/

/-- The cursor after a text that a source text begins with. -/
def cursorAfter (text : List Char) : Cursor := (sourceSpan (String.ofList text)).stop

/-- A source text is read from its origin. -/
theorem cursorAfter_eq (text : List Char) : cursorAfter text = Cursor.origin.after text := by
  rw [cursorAfter, sourceSpan, String.toList_ofList]
  rfl

/-- Reading on from where a text ends. -/
theorem cursorAfter_append (a b : List Char) :
    cursorAfter (a ++ b) = (cursorAfter a).after b := by
  rw [cursorAfter_eq, cursorAfter_eq, Cursor.after_append]

/-- A location is that of `text` in a source text that begins with `before` and then `text`. -/
def Location.IsOf (l : Location) (before text : List Char) : Prop :=
  l.start = cursorAfter before ∧ l.stop = cursorAfter (before ++ text)

/-- The location of a text, of what follows it and of what ends there. -/
theorem Location.IsOf.join {a b : Location} {before first inner last : List Char}
    (ha : a.IsOf before first) (hb : b.IsOf (before ++ (first ++ inner)) last) :
    (a.join b).IsOf before (first ++ inner ++ last) := by
  have hstart : a.stop ≤ b.start := by
    rw [ha.2, hb.1, ← List.append_assoc, cursorAfter_append (before ++ first)]
    exact Cursor.le_after _ _
  refine ⟨?_, ?_⟩
  · rw [join_start (Cursor.le_trans a.start_le_stop hstart), ha.1]
  · rw [join_stop (Cursor.le_trans hstart b.start_le_stop), hb.2, List.append_assoc]

/-- How a token without interior is written. -/
def Token.written (t : Token) : List Char :=
  match t.reserved? with
  | some .negate => ['-']
  | some .valueAt => ['*']
  | some .addressOf => ['&']
  | some .asType => [':']
  | _ => t.text.toList

mutual

/-- A token is written as `text` where `before` comes before it, and it is located there. -/
inductive Token.SpelledAt : (before : List Char) → Token → (text : List Char) → Prop
  /-- A token that is no block. -/
  | leaf {before : List Char} {t : Token} (kind : t.kind ≠ .block) (children : t.children = [])
      (nonempty : t.written ≠ []) (located : t.loc.IsOf before t.written) :
      Token.SpelledAt before t t.written
  /-- A `do`, which is still without interior. -/
  | indented {before : List Char} {l : Location} (located : l.IsOf before blockWord.toList) :
      Token.SpelledAt before (Token.block .indented l []) blockWord.toList
  /-- A group: its opener, its interior and its closer. -/
  | group {before inner : List Char} {bracket : Bracket} {l : Location} {ts : List Token}
      (interior : Token.SpelledAll (before ++ [bracket.opener]) ts inner)
      (located : l.IsOf before (bracket.opener :: inner ++ [bracket.closer])) :
      Token.SpelledAt before (Token.block (.bracketed bracket) l ts)
        (bracket.opener :: inner ++ [bracket.closer])

/-- Tokens are written as `text`, with gaps before, between and after them, where `before` comes
before them. -/
inductive Token.SpelledAll : (before : List Char) → List Token → (text : List Char) → Prop
  /-- No token, and a gap. -/
  | nil {before gap : List Char} (hgap : IsGap gap) : Token.SpelledAll before [] gap
  /-- A gap, a token and what follows it. -/
  | cons {before gap text rest : List Char} {t : Token} {ts : List Token} (hgap : IsGap gap)
      (first : Token.SpelledAt (before ++ gap) t text)
      (others : Token.SpelledAll (before ++ gap ++ text) ts rest) :
      Token.SpelledAll before (t :: ts) (gap ++ text ++ rest)

end

namespace Token

/-- A gap after some tokens. -/
theorem SpelledAll.append_gap {before text gap : List Char} {ts : List Token}
    (h : SpelledAll before ts text) (hgap : IsGap gap) : SpelledAll before ts (text ++ gap) := by
  induction ts generalizing before text with
  | nil =>
    cases h with
    | nil hgap' => exact .nil (hgap'.append hgap)
  | cons t ts ih =>
    cases h with
    | cons hgap' first others =>
      rw [List.append_assoc]
      exact .cons hgap' first (ih others)

/-- One more token after some tokens. -/
theorem SpelledAll.append_token {before text word : List Char} {ts : List Token} {t : Token}
    (h : SpelledAll before ts text) (ht : SpelledAt (before ++ text) t word) :
    SpelledAll before (ts ++ [t]) (text ++ word) := by
  induction ts generalizing before text with
  | nil =>
    cases h with
    | nil hgap =>
      have hone := SpelledAll.cons hgap ht (.nil .nil)
      rwa [List.append_nil] at hone
  | cons u ts ih =>
    cases h with
    | cons hgap first others =>
      rw [List.append_assoc]
      exact .cons hgap first (ih others (by simpa only [List.append_assoc] using ht))

end Token

/-! ## Lexemes -/

/-- Lexemes are written as `text`, with gaps among them and perhaps a comment on the last line,
where `before` comes before them. -/
inductive Lexeme.Spelled : (before : List Char) → List Lexeme → (text : List Char) → Prop
  /-- Nothing but perhaps a comment. -/
  | nil {before comment : List Char} (h : comment = [] ∨ IsComment comment) :
    Lexeme.Spelled before [] comment
  /-- A gap. -/
  | gap {before gap rest : List Char} {lexemes : List Lexeme} (hgap : IsGap gap)
      (h : Lexeme.Spelled (before ++ gap) lexemes rest) :
      Lexeme.Spelled before lexemes (gap ++ rest)
  /-- A token without interior. -/
  | leaf {before text rest : List Char} {t : Token} {lexemes : List Lexeme}
      (ht : t.SpelledAt before text) (h : Lexeme.Spelled (before ++ text) lexemes rest) :
      Lexeme.Spelled before (.leaf t :: lexemes) (text ++ rest)
  /-- The opener of a group. -/
  | opens {before rest : List Char} {bracket : Bracket} {l : Location} {lexemes : List Lexeme}
      (located : l.IsOf before [bracket.opener])
      (h : Lexeme.Spelled (before ++ [bracket.opener]) lexemes rest) :
      Lexeme.Spelled before (.opens bracket l :: lexemes) (bracket.opener :: rest)
  /-- The closer of a group. -/
  | closes {before rest : List Char} {bracket : Bracket} {l : Location} {lexemes : List Lexeme}
      (located : l.IsOf before [bracket.closer])
      (h : Lexeme.Spelled (before ++ [bracket.closer]) lexemes rest) :
      Lexeme.Spelled before (.closes bracket l :: lexemes) (bracket.closer :: rest)

namespace Token

/-- A token without interior that is no block. -/
theorem SpelledAt.of_written {before word : List Char} {kind : TokenKind} {text : String}
    {l : Location} (hkind : kind ≠ .block) (hwritten : (Token.leaf kind text l).written = word)
    (hword : word ≠ []) (hl : l.IsOf before word) :
    (Token.leaf kind text l).SpelledAt before word := by
  subst hwritten
  exact .leaf hkind rfl hword hl

/-- A token that is no reserved word is written as its text. -/
theorem written_of_kind {kind : TokenKind} {text : String} {l : Location}
    (hkind : kind ≠ .reserved) : (leaf kind text l).written = text.toList := by
  rw [written, reserved?, if_neg (show (leaf kind text l).kind ≠ .reserved from hkind)]
  rfl

/-- A keyword is written as its text. -/
theorem written_keyword {word : Reserved} (hword : word ∈ Reserved.keywords) (l : Location) :
    (leaf .reserved word.text l).written = word.text.toList := by
  rw [written, leaf_reserved?]
  simp only [Reserved.keywords, List.mem_cons, List.not_mem_nil, or_false] at hword
  rcases hword with rfl | rfl | rfl | rfl | rfl | rfl | rfl | rfl <;> rfl

end Token

/-- The token of a word. -/
theorem wordToken_spelledAt {before word : List Char} {l : Location} (hword : word ≠ [])
    (hl : l.IsOf before word) : (wordToken (String.ofList word) l).SpelledAt before word := by
  unfold wordToken
  split
  · rename_i hblock
    have htext : word = blockWord.toList := by rw [← hblock, String.toList_ofList]
    subst htext
    exact .indented hl
  · split
    · rename_i hkey
      obtain ⟨r, hr⟩ := Option.isSome_iff_exists.1 hkey
      have htext : r.text = String.ofList word := by simpa using List.find?_some hr
      rw [← htext]
      refine .of_written (by decide) ?_ hword hl
      rw [Token.written_keyword (List.mem_of_find?_eq_some hr), htext, String.toList_ofList]
    · refine .of_written (by decide) ?_ hword hl
      rw [Token.written_of_kind (by decide), String.toList_ofList]

/-- The token of an operator. A sign that has become a word is written as the sign. -/
theorem operatorToken_spelledAt {before op : List Char} {l : Location} (separated attached : Bool)
    (hop : op ≠ []) (hl : l.IsOf before op) :
    (operatorToken (String.ofList op) separated attached l).SpelledAt before op := by
  have hsign : ∀ {text : String}, String.ofList op = text → text.toList = op := by
    intro text htext
    rw [← htext, String.toList_ofList]
  unfold operatorToken
  split
  · rename_i word hattached _
    refine .of_written (by decide) ?_ hop hl
    unfold Reserved.ofAttached? at hattached
    rw [Token.written, Token.leaf_reserved?]
    split at hattached
    · cases hattached
      exact hsign ‹_›
    · split at hattached
      · cases hattached
        exact hsign ‹_›
      · split at hattached
        · cases hattached
          exact hsign ‹_›
        · cases hattached
  · split
    · refine .of_written (by decide) ?_ hop hl
      rw [Token.written, Token.leaf_reserved?]
      exact hsign ‹_›
    · refine .of_written (by decide) ?_ hop hl
      rw [Token.written_of_kind (by decide), String.toList_ofList]

/-- The token of a separator. -/
theorem separatorToken_spelledAt {before : List Char} {c : Char} {l : Location}
    (hl : l.IsOf before [c]) : (separatorToken c l).SpelledAt before [c] := by
  refine .of_written ?_ ?_ (List.cons_ne_nil _ _) hl
  · split <;> decide
  · rw [Token.written_of_kind]
    · simp
    · split <;> decide

/-! ## Scanning -/

namespace Scanner

/-- A comment that is read up to the end of its line, or none. -/
def Pending (comment rest : List Char) : Prop :=
  comment = [] ∨ IsComment comment ∧ (rest = [] ∨ rest.head? = some '\n')

/-- Where no line feed follows, no comment has just ended. -/
theorem Pending.eq_nil {comment rest : List Char} {c : Char} (h : Pending comment (c :: rest))
    (hc : c ≠ '\n') : comment = [] := by
  rcases h with h | ⟨-, h | h⟩
  · exact h
  · cases h
  · exact absurd (Option.some.inj h) hc

/-- A comment before a blank ends with it. -/
theorem Pending.isGap {comment rest : List Char} {c : Char} (h : Pending comment (c :: rest))
    (hc : CharClass.of? c = some .blank) : IsGap (comment ++ [c]) := by
  rcases h with rfl | ⟨hcomment, h | h⟩
  · exact .blank (CharClass.contains_of_of? hc) .nil
  · cases h
  · cases h
    exact .comment hcomment .nil

/-- The characters up to the end of a line are a comment that ends there, if the scan of what
follows them does not stop at a tab. -/
theorem pending_comment {inBackticks : Bool} {s : Scanner} {rest : List Char} {scan : Scan}
    (h : s.Scans inBackticks (rest.dropWhile continuesComment) scan) (hstop : scan.stop? = none) :
    Pending ('#' :: rest.takeWhile continuesComment) (rest.dropWhile continuesComment) := by
  refine .inr ⟨⟨_, rfl, fun d hd => ?_⟩, ?_⟩
  · have hall := List.all_eq_true.1 (List.all_takeWhile (l := rest) (p := continuesComment)) d hd
    simpa [continuesComment] using hall
  · cases hrest : rest.dropWhile continuesComment with
    | nil => exact .inl rfl
    | cons d ds =>
      have hd := List.head_dropWhile_not continuesComment (l := rest) (by simp [hrest])
      simp only [hrest, List.head_cons, continuesComment, Bool.and_eq_false_iff,
        bne_eq_false_iff_eq] at hd
      rcases hd with rfl | rfl
      · exact .inr rfl
      · rw [hrest] at h
        rw [← h.eq, scan_stops (.tab (by decide))] at hstop
        cases hstop

/-- Where the next text is. -/
theorem locate_isOf {s : Scanner} {before : List Char} (hs : s.cursor = cursorAfter before)
    (text : List Char) : (s.locate text).IsOf before text := by
  refine ⟨hs, ?_⟩
  rw [cursorAfter_append, ← hs]
  rfl

/-- The lexemes of a scan spell the text from some place on, after a comment that may just have
ended there. -/
def Spells (s : Scanner) (text : List Char) (scan : Scan) : Prop :=
  ∀ before comment, s.cursor = cursorAfter (before ++ comment) → Pending comment text →
    scan.stop? = none → Lexeme.Spelled before scan.lexemes (comment ++ text)

/-- A scan spells a text past the part that is read. -/
theorem Spells.past {s s' : Scanner} {word rest before : List Char} {scan : Scan}
    (h : Spells s' rest scan) (hs' : s'.cursor = s.cursor.after word)
    (hs : s.cursor = cursorAfter before) (hstop : scan.stop? = none) :
    Lexeme.Spelled (before ++ word) scan.lexemes rest := by
  refine h (before ++ word) [] ?_ (.inl rfl) hstop
  rw [List.append_nil, cursorAfter_append, ← hs]
  exact hs'

/-- A token without interior is written as the text that it is read from. -/
theorem LeafOf.spelledAt {s : Scanner} {c : Char} {rest before : List Char}
    {leaf : Leaf (c :: rest)} (h : s.LeafOf c rest leaf)
    (hl : (s.locate leaf.used).IsOf before leaf.used) : leaf.token.SpelledAt before leaf.used := by
  cases h with
  | word => exact wordToken_spelledAt (List.cons_ne_nil _ _) hl
  | number =>
    refine .of_written (by decide) ?_ (List.cons_ne_nil _ _) hl
    rw [Token.written_of_kind (by decide), String.toList_ofList]
    rfl
  | operator => exact operatorToken_spelledAt _ _ (List.cons_ne_nil _ _) hl
  | separator => exact separatorToken_spelledAt hl

/-- Scanning goes through the whole of a text, and its lexemes spell the text. -/
theorem Scans.spells {inBackticks : Bool} {s : Scanner} {text : List Char} {scan : Scan}
    (h : s.Scans inBackticks text scan) : Spells s text scan := by
  induction h with
  | nil =>
    intro before comment _ hcomment _
    rw [List.append_nil]
    exact .nil (hcomment.imp_right And.left)
  | stops =>
    intro before comment _ _ hstop
    cases hstop
  | @blank _ s c rest _ hc _ ih =>
    intro before comment hs hcomment hstop
    have hnext : (s.past [c] true).cursor = cursorAfter (before ++ (comment ++ [c]) ++ []) := by
      rw [List.append_nil, ← List.append_assoc, cursorAfter_append, ← hs]
      rfl
    rw [show comment ++ c :: rest = comment ++ [c] ++ rest by simp]
    exact .gap (hcomment.isGap hc) (ih _ [] hnext (.inl rfl) hstop)
  | @comment _ s rest _ later ih =>
    intro before comment hs hcomment hstop
    obtain rfl := hcomment.eq_nil (by decide)
    have hnext : (s.past ('#' :: rest.takeWhile continuesComment) true).cursor
        = cursorAfter (before ++ '#' :: rest.takeWhile continuesComment) := by
      rw [cursorAfter_append, ← List.append_nil before, ← hs]
      rfl
    have hspelled := ih before _ hnext (pending_comment later hstop) hstop
    rwa [List.cons_append, List.takeWhile_append_dropWhile] at hspelled
  | @leaf _ s _ _ leaf _ hleaf _ ih =>
    intro before comment hs hcomment hstop
    obtain rfl := hcomment.eq_nil hleaf.ne_lineFeed
    rw [List.append_nil] at hs
    have hspelled := Lexeme.Spelled.leaf (hleaf.spelledAt (locate_isOf hs _)) (ih.past rfl hs hstop)
    rwa [leaf.used_append] at hspelled
  | @opens _ s bracket _ _ _ _ ih =>
    intro before comment hs hcomment hstop
    obtain rfl := hcomment.eq_nil bracket.opener_ne_lineFeed
    rw [List.append_nil] at hs
    exact .opens (locate_isOf hs _) (ih.past rfl hs hstop)
  | @closes _ s bracket _ _ _ _ ih =>
    intro before comment hs hcomment hstop
    obtain rfl := hcomment.eq_nil bracket.closer_ne_lineFeed
    rw [List.append_nil] at hs
    exact .closes (locate_isOf hs _) (ih.past rfl hs hstop)

end Scanner

/-! ## Matching brackets -/

/-- The open groups, innermost first, and the tokens in them are written as `text`. -/
def StackSpelled : List OpenGroup → List Token → (text : List Char) → Prop
  | [], before, text => Token.SpelledAll [] before.reverse text
  | group :: outer, before, text =>
    ∃ start inner, text = start ++ group.bracket.opener :: inner ∧
      Token.SpelledAll (start ++ [group.bracket.opener]) before.reverse inner ∧
      group.opener.IsOf start [group.bracket.opener] ∧ StackSpelled outer group.before start

/-- A gap inside the innermost group. -/
theorem StackSpelled.append_gap {groups : List OpenGroup} {before : List Token}
    {text gap : List Char} (h : StackSpelled groups before text) (hgap : IsGap gap) :
    StackSpelled groups before (text ++ gap) := by
  cases groups with
  | nil => exact Token.SpelledAll.append_gap h hgap
  | cons group outer =>
    obtain ⟨start, inner, rfl, hinner, hrest⟩ := h
    exact ⟨start, inner ++ gap, by simp, hinner.append_gap hgap, hrest⟩

/-- One more token inside the innermost group. -/
theorem StackSpelled.append_token {groups : List OpenGroup} {before : List Token}
    {text word : List Char} {t : Token} (h : StackSpelled groups before text)
    (ht : t.SpelledAt text word) : StackSpelled groups (t :: before) (text ++ word) := by
  cases groups with
  | nil =>
    rw [StackSpelled, List.reverse_cons]
    exact Token.SpelledAll.append_token h ht
  | cons group outer =>
    obtain ⟨start, inner, rfl, hinner, hrest⟩ := h
    refine ⟨start, inner ++ word, by simp, ?_, hrest⟩
    rw [List.reverse_cons]
    exact hinner.append_token (by simpa using ht)

/-- Matching brackets keeps what is spelled. -/
theorem nest_spelled {groups : List OpenGroup} {before : List Token} {text rest : List Char}
    {lexemes : List Lexeme} {ts : List Token} (hlex : Lexeme.Spelled text lexemes rest)
    (hstack : StackSpelled groups before text) (h : nest none groups before lexemes = .ok ts) :
    ∃ spelled comment, text ++ rest = spelled ++ comment ∧ (comment = [] ∨ IsComment comment) ∧
      Token.SpelledAll [] ts spelled := by
  induction hlex generalizing groups before with
  | @nil text comment hcomment =>
    cases groups with
    | cons group outer => cases h
    | nil =>
      cases h
      exact ⟨text, comment, rfl, hcomment, hstack⟩
  | gap hgap _ ih =>
    rw [← List.append_assoc]
    exact ih (hstack.append_gap hgap) h
  | leaf ht _ ih =>
    rw [← List.append_assoc]
    exact ih (hstack.append_token ht) h
  | @opens text rest bracket l lexemes located _ ih =>
    rw [← List.singleton_append, ← List.append_assoc]
    refine ih ?_ h
    exact ⟨text, [], rfl, .nil .nil, located, hstack⟩
  | @closes text rest bracket l lexemes located _ ih =>
    rw [← List.singleton_append, ← List.append_assoc]
    obtain ⟨group, outer, rfl, rfl, hrest⟩ := nest_closes_ok h
    obtain ⟨start, inner, rfl, hinner, hopener, houter⟩ := hstack
    refine ih ?_ hrest
    rw [List.append_assoc]
    exact houter.append_token (.group hinner (hopener.join located))

/-- A scan that stopped yields no trees. -/
theorem stop_eq_none_of_nest {stop? : Option (Located LexicalError)} {groups : List OpenGroup}
    {before : List Token} {lexemes : List Lexeme} {ts : List Token}
    (h : nest stop? groups before lexemes = .ok ts) : stop? = none := by
  fun_induction nest stop? groups before lexemes with
  | case1 => cases h
  | case2 => assumption
  | case3 => assumption
  | case4 _ _ _ _ ih => exact ih h
  | case5 _ _ _ _ _ ih => exact ih h
  | case6 => cases h
  | case7 _ _ _ _ _ ih => exact ih h
  | case8 => cases h

/-- A source text that has token trees has lexemes that spell it. -/
theorem Token.ofSource_lexemes {source : String} {ts : List Token}
    (h : Token.ofSource source = .ok ts) :
    ∃ lexemes, Lexeme.Spelled [] lexemes source.toList ∧ nest none [] [] lexemes = .ok ts := by
  rw [ofSource_eq_trees] at h
  have hstop := stop_eq_none_of_nest h
  have hlex := (Scanner.scans false .initial source.toList).spells [] [] (cursorAfter_eq []).symm
    (.inl rfl) hstop
  unfold Scanner.trees at h
  rw [hstop] at h
  exact ⟨_, hlex, h⟩

/-- A source text is what its token trees are written as, perhaps with a comment after them on the
last line. -/
theorem source_spelled {source : String} {ts : List Token} (h : Token.ofSource source = .ok ts) :
    ∃ text comment, source.toList = text ++ comment ∧ (comment = [] ∨ IsComment comment) ∧
      Token.SpelledAll [] ts text := by
  obtain ⟨lexemes, hlex, hnest⟩ := Token.ofSource_lexemes h
  have hstack : StackSpelled [] [] [] := .nil .nil
  exact nest_spelled hlex hstack hnest

/-- A text with groups, signs, a `do` and comments between lines and at the end. -/
theorem source_spelled_groups : ∃ ts,
    Token.ofSource "f(-a, [3]) # one\n\x60g\x60 :b do -1 # two" = .ok ts ∧
      ∃ text comment, "f(-a, [3]) # one\n\x60g\x60 :b do -1 # two".toList = text ++ comment ∧
        (comment = [] ∨ IsComment comment) ∧ Token.SpelledAll [] ts text := by
  have hlex :
      (Token.ofSource "f(-a, [3]) # one\n\x60g\x60 :b do -1 # two").toOption.isSome = true := by
    decide +kernel
  cases h : Token.ofSource "f(-a, [3]) # one\n\x60g\x60 :b do -1 # two" with
  | error e =>
    rw [h] at hlex
    cases hlex
  | ok ts => exact ⟨ts, rfl, source_spelled h⟩

end Offside
