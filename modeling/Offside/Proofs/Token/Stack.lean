import Offside.Proofs.Lexeme.Scan
import Offside.Proofs.Diagnostic.Outcomes
import Offside.Proofs.Source.Order
import Offside.Token.Nesting

/-!
# Token trees with a stack

The functions that read runs and groups call each other. In one pass over the lexemes of a text,
brackets are matched with a stack of the groups that are open, innermost first.

* `OpenGroup`: a group that is open, with the tokens before it.
* `nest`: the token trees of a scan. The first bracket out of place is reported; then what stopped
  the scan; then the innermost group still open at the end. `nest_nil_ok`, `nest_nil_error`,
  `nest_closes_ok`, `nest_closes_error`: the steps that can fail.
* `Scanner.trees`: the token trees of a text from some place on, inside the groups that are open.
  `Scanner.trees_leaf` and its siblings: one step, for each thing that can come first.
* `Scanner.Halts`, `Scanner.readRun_halts`: what a run ends before. `Scanner.trees_stuck`: the error
  that is made of it.
* `Scanner.readRun_trees`, `Scanner.readGroup_trees`: to read a run, a group, is to read on with the
  stack, whatever groups are open below. `Token.ofSource_eq_trees`: so the token trees of a source
  text are those of its scan.
-/

namespace Offside

/-! ## Matching brackets -/

/-- A group that is open. -/
structure OpenGroup where
  /-- The brackets of the group. -/
  bracket : Bracket
  /-- Where it was opened. -/
  opener : Location
  /-- The tokens beside the group that come before it, latest first. -/
  before : List Token

/-- The error of a group that is open at the end of the input. -/
def OpenGroup.unclosed (group : OpenGroup) : Located LexicalError :=
  ⟨if group.bracket = .brace then .cutOffBrace else .unclosed group.bracket, group.opener⟩

/-- A group with its interior, given where it is closed. -/
def OpenGroup.close (group : OpenGroup) (closer : Location) (interior : List Token) : Token :=
  Token.block (.bracketed group.bracket) (group.opener.join closer) interior

/-- The token trees of a sequence of lexemes, inside the open groups and after the tokens `before`
(latest first) of the innermost. -/
def nest (stop? : Option (Located LexicalError)) (groups : List OpenGroup) (before : List Token) :
    List Lexeme → Except (Located LexicalError) (List Token)
  | [] =>
    match stop?, groups with
    | some error, _ => .error error
    | none, group :: _ => .error group.unclosed
    | none, [] => .ok before.reverse
  | .leaf token :: rest => nest stop? groups (token :: before) rest
  | .opens bracket loc :: rest => nest stop? (⟨bracket, loc, before⟩ :: groups) [] rest
  | .closes bracket loc :: rest =>
    match groups with
    | [] => .error ⟨.unmatched bracket, loc⟩
    | group :: outer =>
      if group.bracket = bracket then
        nest stop? outer (group.close loc before.reverse :: group.before) rest
      else .error ⟨.unmatched bracket, loc⟩

section Steps

variable {stop? : Option (Located LexicalError)} {groups : List OpenGroup} {before ts : List Token}
  {lexemes : List Lexeme} {bracket : Bracket} {loc : Location} {e : Located LexicalError}

/-- All groups are closed at the end of a scan that has not stopped. -/
theorem nest_nil_ok (h : nest stop? groups before [] = .ok ts) :
    stop? = none ∧ groups = [] ∧ ts = before.reverse := by
  rw [nest.eq_def] at h
  dsimp only at h
  split at h
  · cases h
  · cases h
  · cases h
    exact ⟨rfl, rfl, rfl⟩

/-- At the end of a scan it is reported what has stopped it, or which group is open. -/
theorem nest_nil_error (h : nest stop? groups before [] = .error e) :
    stop? = some e ∨ ∃ group outer, groups = group :: outer ∧ e = group.unclosed := by
  rw [nest.eq_def] at h
  dsimp only at h
  split at h
  · cases h
    exact .inl rfl
  · rename_i group outer
    cases h
    exact .inr ⟨group, outer, rfl, rfl⟩
  · cases h

/-- A closer closes the innermost group. -/
theorem nest_closes {group : OpenGroup} (h : group.bracket = bracket) :
    nest stop? (group :: groups) before (.closes bracket loc :: lexemes)
      = nest stop? groups (group.close loc before.reverse :: group.before) lexemes :=
  (nest.eq_def ..).trans (if_pos h)

/-- A closer closes the innermost group, whose bracket it matches. -/
theorem nest_closes_ok (h : nest stop? groups before (.closes bracket loc :: lexemes) = .ok ts) :
    ∃ group outer, groups = group :: outer ∧ group.bracket = bracket ∧
      nest stop? outer (group.close loc before.reverse :: group.before) lexemes = .ok ts := by
  rw [nest.eq_def] at h
  dsimp only at h
  split at h
  · cases h
  · rename_i group outer
    split at h
    · rename_i hbracket
      exact ⟨group, outer, rfl, hbracket, h⟩
    · cases h

/-- A closer is reported that matches no bracket; otherwise it is something later. -/
theorem nest_closes_error
    (h : nest stop? groups before (.closes bracket loc :: lexemes) = .error e) :
    e = ⟨.unmatched bracket, loc⟩ ∨ ∃ group outer, groups = group :: outer ∧
      nest stop? outer (group.close loc before.reverse :: group.before) lexemes = .error e := by
  rw [nest.eq_def] at h
  dsimp only at h
  split at h
  · cases h
    exact .inl rfl
  · rename_i group outer
    split at h
    · exact .inr ⟨group, outer, rfl, h⟩
    · cases h
      exact .inl rfl

/-- A closer is out of place if the innermost group has other brackets. -/
theorem nest_closes_unmatched
    (h : ∀ group outer, groups = group :: outer → group.bracket ≠ bracket) :
    nest stop? groups before (.closes bracket loc :: lexemes)
      = .error ⟨.unmatched bracket, loc⟩ := by
  rw [nest.eq_def]
  cases groups with
  | nil => rfl
  | cons group outer => exact if_neg (h group outer rfl)

end Steps

namespace Scanner

/-- A character other than a line feed takes up one column. -/
theorem locate_one {s : Scanner} {c : Char} (hc : c ≠ '\n') :
    s.locate [c] = Location.one s.cursor := by
  refine Location.eq_of_ends rfl ?_
  show s.cursor.step c = _
  rw [Cursor.step, if_neg hc]
  rfl

/-! ## Token trees from some place on -/

/-- The token trees of a text from some place on. -/
def trees (inBackticks : Bool) (s : Scanner) (groups : List OpenGroup) (before : List Token)
    (text : List Char) : Except (Located LexicalError) (List Token) :=
  nest (s.scan inBackticks text).stop? groups before (s.scan inBackticks text).lexemes

section Trees

variable {inBackticks : Bool} {s : Scanner} {groups : List OpenGroup} {before : List Token}
  {c : Char} {rest : List Char} {bracket : Bracket}

theorem trees_nil : s.trees inBackticks [] before [] = .ok before.reverse := by
  rw [trees, scan_nil]
  rfl

theorem trees_unclosed (group : OpenGroup) :
    s.trees inBackticks (group :: groups) before [] = .error group.unclosed := by
  rw [trees, scan_nil]
  rfl

theorem trees_leaf {leaf : Leaf (c :: rest)} (h : s.LeafOf c rest leaf) :
    s.trees inBackticks groups before (c :: rest)
      = (s.past leaf.used leaf.separates).trees inBackticks groups (leaf.token :: before)
        leaf.rest := by
  rw [trees, scan_leaf h]
  exact nest.eq_def ..

theorem trees_opens (hb : bracket = .backtick → inBackticks = false) :
    s.trees inBackticks groups before (bracket.opener :: rest)
      = (s.past [bracket.opener] true).trees (inBackticks || bracket == .backtick)
        (⟨bracket, s.locate [bracket.opener], before⟩ :: groups) [] rest := by
  rw [trees, scan_opens hb]
  exact nest.eq_def ..

theorem trees_closes (group : OpenGroup) (hb : group.bracket = .backtick → inBackticks = true) :
    s.trees inBackticks (group :: groups) before (group.bracket.closer :: rest)
      = (s.past [group.bracket.closer] false).trees (inBackticks && group.bracket != .backtick)
        groups (group.close (s.locate [group.bracket.closer]) before.reverse :: group.before)
        rest := by
  rw [trees, scan_closes hb]
  exact nest_closes rfl

theorem trees_unmatched (hb : bracket = .backtick → inBackticks = true)
    (h : ∀ group outer, groups = group :: outer → group.bracket ≠ bracket) :
    s.trees inBackticks groups before (bracket.closer :: rest)
      = .error ⟨.unmatched bracket, s.locate [bracket.closer]⟩ := by
  rw [trees, scan_closes hb]
  exact nest_closes_unmatched h

theorem trees_stops {cause : LexicalError} (h : Stops c cause) :
    s.trees inBackticks groups before (c :: rest) = .error ⟨cause, Location.one s.cursor⟩ := by
  rw [trees, scan_stops h]
  rfl

theorem trees_blank (hc : CharClass.of? c = some .blank) :
    s.trees inBackticks groups before (c :: rest)
      = (s.past [c] true).trees inBackticks groups before rest := by
  rw [trees, scan_blank hc]
  rfl

theorem trees_comment : s.trees inBackticks groups before ('#' :: rest)
    = (s.past ('#' :: rest.takeWhile continuesComment) true).trees inBackticks groups before
      (rest.dropWhile continuesComment) := by
  rw [trees, scan_comment]
  rfl

end Trees

/-! ## Blanks and comments -/

/-- Reading on past the blanks that are next. -/
theorem skipBlank_trees (inBackticks : Bool) (s : Scanner) (groups : List OpenGroup)
    (before : List Token) (text : List Char) :
    s.trees inBackticks groups before text = (do
      let stand ← s.skipBlank text
      stand.scanner.trees inBackticks groups before stand.rest) := by
  fun_induction skipBlank s text with
  | case1 => rfl
  | case2 s c rest hc ih =>
    rw [trees_blank hc, ih, bind_assoc]
    rfl
  | case3 s c rest hc ih =>
    obtain rfl : c = '#' := CharClass.contains_of_of? hc
    rw [trees_comment]
    by_cases htab : (rest.dropWhile continuesComment).head? = some '\t'
    · have hcomment : s.skipComment '#' rest = .error ⟨.tab, Location.one
          (s.past ('#' :: rest.takeWhile continuesComment) true).cursor⟩ := if_pos htab
      have htrees (s' : Scanner) :
          s'.trees inBackticks groups before (rest.dropWhile continuesComment)
            = .error ⟨.tab, Location.one s'.cursor⟩ := by
        obtain ⟨after, hafter⟩ := List.head?_eq_some_iff.1 htab
        rw [hafter]
        exact trees_stops (.tab (by decide))
      rw [hcomment, htrees]
      rfl
    · have hcomment : s.skipComment '#' rest
          = pure (s.past ('#' :: rest.takeWhile continuesComment) true) := if_neg htab
      rw [hcomment, pure_bind, ih, bind_assoc]
      rfl
  | case4 s c rest hc => exact trees_stops (.tab hc)
  | case5 => rfl

/-- Neither a blank nor a comment is next after them. -/
theorem skipBlank_head? {s : Scanner} {text : List Char} {stand : Stand text}
    (h : s.skipBlank text = .ok stand) {c : Char} (hc : stand.rest.head? = some c) :
    CharClass.of? c ∉ [some .blank, some .comment, some .tab] := by
  fun_induction skipBlank s text with
  | case1 =>
    cases h
    cases hc
  | case2 s d rest hd ih =>
    obtain ⟨next, hnext, heq⟩ := bind_ok_iff.1 h
    cases heq
    exact ih hnext hc
  | case3 s d rest hd ih =>
    obtain ⟨next, -, hlater⟩ := bind_ok_iff.1 h
    obtain ⟨last, hlast, heq⟩ := bind_ok_iff.1 hlater
    cases heq
    exact ih next hlast hc
  | case4 => cases h
  | case5 s d rest hblank hcomment htab =>
    cases h
    cases hc
    simp only [List.mem_cons, List.not_mem_nil, or_false, not_or]
    exact ⟨hblank, hcomment, htab⟩

/-! ## Runs and groups -/

/-- A run ends at the end of a text or before a closer or a character of no class. -/
def Halts (inBackticks : Bool) (rest : List Char) : Prop :=
  ∀ c, rest.head? = some c → closed? inBackticks c ≠ none ∨ CharClass.of? c = none

/-- What a run ends before. -/
theorem readRun_halts {inBackticks : Bool} {s : Scanner} {text : List Char} {ts : List Token}
    {stand : Stand text} (h : readRun inBackticks s text = .ok (ts, stand)) :
    Halts inBackticks stand.rest := by
  rw [readRun] at h
  obtain ⟨⟨s', rest, hrest⟩, hskip, h⟩ := bind_ok_iff.1 h
  cases rest with
  | nil =>
    cases h
    exact nofun
  | cons c rest =>
    have htext : rest.length < text.length := Nat.lt_of_succ_le hrest.length_le
    dsimp only at h
    split at h
    · rename_i leaf _
      obtain ⟨⟨us, last⟩, hlast, h⟩ := bind_ok_iff.1 h
      have hleaf : leaf.rest.length < text.length :=
        Nat.lt_of_lt_of_le leaf.length_lt hrest.length_le
      have hhalts : Halts inBackticks last.rest := readRun_halts hlast
      cases h
      exact hhalts
    · rename_i hleaf
      split at h
      · rename_i bracket hc
        split at h
        · rename_i hb
          cases h
          obtain ⟨rfl, rfl⟩ := hb
          intro d hd
          cases hd
          refine .inl ?_
          rw [closed?, hc]
          simp
        · obtain ⟨⟨group, inner⟩, -, h⟩ := bind_ok_iff.1 h
          obtain ⟨⟨us, last⟩, hlast, h⟩ := bind_ok_iff.1 h
          have hinner : inner.rest.length < text.length :=
            Nat.lt_of_le_of_lt inner.rest_suffix.length_le htext
          have hhalts : Halts inBackticks last.rest := readRun_halts hlast
          cases h
          exact hhalts
      · rename_i hopener
        cases h
        intro d hd
        cases hd
        have hgap := skipBlank_head? hskip rfl
        refine (closer_or_none (leaf?_eq_none_iff.1 hleaf) hopener hgap).imp_left ?_
        rintro ⟨bracket, hc⟩
        rw [closed?, hc]
        simp
termination_by text.length

/-- The error that is made of the character before which a run ends. -/
theorem trees_stuck {inBackticks : Bool} {s : Scanner} {groups : List OpenGroup}
    {before : List Token} {c : Char} {rest : List Char} (h : Halts inBackticks (c :: rest))
    (hgroups : ∀ group outer, groups = group :: outer → group.bracket.closer ≠ c) :
    s.trees inBackticks groups before (c :: rest) = .error (s.stuck inBackticks (c :: rest)) := by
  cases hclosed : closed? inBackticks c with
  | some bracket =>
    obtain ⟨rfl, hb⟩ := closed?_eq_some_iff.1 hclosed
    rw [trees_unmatched hb fun group outer h heq => hgroups group outer h (heq ▸ rfl),
      locate_one bracket.closer_ne_lineFeed, stuck]
    simp only [hclosed]
  | none =>
    have hc : CharClass.of? c = none := (h c rfl).resolve_left (absurd hclosed)
    rw [trees_stops (.unrecognized hc), stuck]
    simp only [hclosed]

/-- To read a group is to read on with the stack, if that holds of its interior. -/
theorem readGroup_trees {inBackticks : Bool} {s : Scanner} {groups : List OpenGroup}
    {before : List Token} {bracket : Bracket} {rest : List Char}
    (hb : bracket = .backtick → inBackticks = false)
    (hrun : ∀ inBackticks (s : Scanner) groups before, s.trees inBackticks groups before rest = (do
      let (ts, stand) ← readRun inBackticks s rest
      stand.scanner.trees inBackticks groups (ts.reverse ++ before) stand.rest)) :
    s.trees inBackticks groups before (bracket.opener :: rest) = (do
      let (group, stand) ← readGroup inBackticks bracket s bracket.opener rest
      stand.scanner.trees inBackticks groups (group :: before) stand.rest) := by
  rw [trees_opens hb, hrun, readGroup]
  generalize hinside : (inBackticks || bracket == .backtick) = inside
  cases hread : readRun inside (s.past [bracket.opener] true) rest with
  | error e => rfl
  | ok read =>
    obtain ⟨ts, last, after, hafter⟩ := read
    show last.trees inside _ (ts.reverse ++ []) after = _
    rw [List.append_nil]
    cases after with
    | nil =>
      rw [trees_unclosed, OpenGroup.unclosed, locate_one bracket.opener_ne_lineFeed]
      rfl
    | cons d after =>
      show _ = (if d = bracket.closer then pure _ else throw _) >>= _
      by_cases hd : d = bracket.closer
      · subst hd
        have hopen : bracket = .backtick → inside = true := by
          rintro rfl
          rw [← hinside, beq_self_eq_true, Bool.or_true]
        have houtside : (inside && bracket != .backtick) = inBackticks := by
          rw [← hinside]
          by_cases hbacktick : bracket = .backtick
          · subst hbacktick
            rw [hb rfl]
            rfl
          · simp [bne, beq_eq_false_iff_ne.2 hbacktick]
        rw [trees_closes ⟨bracket, s.locate [bracket.opener], before⟩ hopen, houtside,
          List.reverse_reverse, if_pos rfl]
        rfl
      · rw [if_neg hd, trees_stuck (readRun_halts hread)]
        · rfl
        · rintro _ _ ⟨⟩ heq
          exact hd heq.symm

/-- To read a run is to read on with the stack, whatever groups are open. -/
theorem readRun_trees (inBackticks : Bool) (s : Scanner) (text : List Char)
    (groups : List OpenGroup) (before : List Token) :
    s.trees inBackticks groups before text = (do
      let (ts, stand) ← readRun inBackticks s text
      stand.scanner.trees inBackticks groups (ts.reverse ++ before) stand.rest) := by
  rw [skipBlank_trees, readRun, bind_assoc]
  refine bind_congr fun stand => ?_
  obtain ⟨s', rest, hrest⟩ := stand
  cases rest with
  | nil => rfl
  | cons c rest =>
    have htext : rest.length < text.length := Nat.lt_of_succ_le hrest.length_le
    dsimp only
    cases hread : s'.leaf? c rest with
    | some leaf =>
      have hleaf : leaf.rest.length < text.length :=
        Nat.lt_of_lt_of_le leaf.length_lt hrest.length_le
      rw [trees_leaf (leaf?_eq_some_iff.1 hread), readRun_trees, bind_assoc]
      refine bind_congr fun read => ?_
      obtain ⟨ts, stand⟩ := read
      show _ = stand.scanner.trees inBackticks groups ((leaf.token :: ts).reverse ++ before)
        stand.rest
      rw [List.reverse_cons, List.append_assoc]
      rfl
    | none =>
      dsimp only
      split
      · rename_i bracket hc
        by_cases hb : bracket = .backtick ∧ inBackticks = true
        · rw [if_pos hb]
          rfl
        · obtain rfl : c = bracket.opener := CharClass.contains_of_of? hc
          have hopens : bracket = .backtick → inBackticks = false :=
            fun hbracket => Bool.eq_false_iff.2 fun hopen => hb ⟨hbracket, hopen⟩
          rw [if_neg hb, bind_assoc,
            readGroup_trees hopens fun inBackticks s => readRun_trees inBackticks s rest]
          refine bind_congr fun read => ?_
          obtain ⟨group, inner⟩ := read
          have hinner : inner.rest.length < text.length :=
            Nat.lt_of_le_of_lt inner.rest_suffix.length_le htext
          dsimp only
          rw [readRun_trees, bind_assoc]
          refine bind_congr fun later => ?_
          obtain ⟨ts, stand⟩ := later
          show _ = stand.scanner.trees inBackticks groups ((group :: ts).reverse ++ before)
            stand.rest
          rw [List.reverse_cons, List.append_assoc]
          rfl
      · rfl
termination_by text.length

end Scanner

/-- The token trees of a source text are those of its scan. -/
theorem Token.ofSource_eq_trees (source : String) :
    Token.ofSource source = Scanner.initial.trees false [] [] source.toList := by
  rw [Scanner.readRun_trees, ofSource]
  cases hread : Scanner.readRun false .initial source.toList with
  | error e => rfl
  | ok read =>
    obtain ⟨ts, last, rest, hrest⟩ := read
    show _ = last.trees false [] (ts.reverse ++ []) rest
    cases rest with
    | nil =>
      rw [List.append_nil, Scanner.trees_nil, List.reverse_reverse]
      rfl
    | cons c rest =>
      rw [Scanner.trees_stuck (Scanner.readRun_halts hread) (by simp)]
      rfl

end Offside
