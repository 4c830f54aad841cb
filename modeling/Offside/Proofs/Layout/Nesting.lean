import Offside.Proofs.Layout.StatementRuns
import Offside.Proofs.Token.Typesetting

/-!
# Laid-out tokens are nested

Layout moves tokens into `do` blocks, lets these blocks grow over them and puts semicolons between
tokens. The token tree stays nested all the same.

* `Token.Between`: tokens that follow one another between two cursors. `Token.Nested`: a token whose
  interior lies between what opens and what closes it.
* `Token.ofSource_fresh`: the tokens of a source text are nested, and a `do` is still only its word.
* `Layout.Rules.enter_nested`, `Layout.arrange_nested`: a laid-out block is nested, and so are all
  laid-out tokens.
* `layout_nested`: the laid-out tokens of a source text follow one another and are nested.
* `Layout.layout_fills`: each run of statements in a block fills a block of the result, and a `do`
  ends where the last token of its region does.
-/

namespace Offside

namespace Token

/-! ## Interiors -/

/-- Each of the tokens ends no later than the next ones start, the first starts no earlier than `a`,
and the last ends no later than `b`. -/
def Between (a b : Cursor) (ts : List Token) : Prop :=
  ts.Pairwise (fun t u => t.loc.stop ≤ u.loc.start) ∧
    ∀ t ∈ ts, a ≤ t.loc.start ∧ t.loc.stop ≤ b

/-- The end of what opens a block. -/
def opened (t : Token) : Cursor := t.loc.start.after t.text.toList

/-- A token with its interior where it belongs. -/
structure Nested (t : Token) : Prop where
  /-- Only blocks have an interior. -/
  bare : t.blockKind? = none → t.children = []
  /-- The interior of a group lies between its opener and its closer. -/
  group : ∀ bracket, t.blockKind? = some (.bracketed bracket) →
    ∃ close : Cursor, close.step bracket.closer = t.loc.stop ∧ t.opened ≤ close ∧
      Between t.opened close t.children
  /-- The interior of a `do` lies between the word and the end of the block. -/
  indented : t.blockKind? = some .indented →
    t.opened ≤ t.loc.stop ∧ Between t.opened t.loc.stop t.children

/-- Tokens in order follow one another. -/
theorem InOrder.between {a b : Cursor} {ts : List Token} (h : InOrder a b ts) : Between a b ts := by
  induction ts generalizing a with
  | nil => exact ⟨.nil, fun t ht => absurd ht List.not_mem_nil⟩
  | cons t ts ih =>
    obtain ⟨ha, -, hts⟩ := inOrder_cons.1 h
    obtain ⟨hpairs, hinside⟩ := ih hts
    refine ⟨List.pairwise_cons.2 ⟨fun u hu => (hinside u hu).1, hpairs⟩,
      List.forall_mem_cons.2 ⟨⟨ha, hts.le⟩, fun u hu => ⟨?_, (hinside u hu).2⟩⟩⟩
    exact Cursor.le_trans ha (Cursor.le_trans t.loc.start_le_stop (hinside u hu).1)

/-- Tokens in order are in order between any two cursors that they lie between. -/
theorem InOrder.narrow {a b a' b' : Cursor} {ts : List Token} (h : InOrder a b ts) (hab : a' ≤ b')
    (hts : ∀ t ∈ ts, a' ≤ t.loc.start ∧ t.loc.stop ≤ b') : InOrder a' b' ts := by
  induction ts generalizing a a' with
  | nil => exact inOrder_nil.2 hab
  | cons t ts ih =>
    obtain ⟨-, ht, hrest⟩ := inOrder_cons.1 h
    obtain ⟨⟨hstart, hstop⟩, hothers⟩ := List.forall_mem_cons.1 hts
    exact inOrder_cons.2 ⟨hstart, ht,
      ih hrest hstop fun u hu => ⟨(hrest.between.2 u hu).1, (hothers u hu).2⟩⟩

/-! ## Tokens of a source text -/

/-- Tokens that a text spells lie where it is. -/
theorem SpelledAll.bounds {before text : List Char} {ts : List Token}
    (h : SpelledAll before ts text) :
    ∀ t ∈ ts, cursorAfter before ≤ t.loc.start ∧ t.loc.stop ≤ cursorAfter (before ++ text) := by
  induction ts generalizing before text with
  | nil => exact fun t ht => absurd ht List.not_mem_nil
  | cons u ts ih =>
    cases h with
    | @cons _ gap word rest _ _ _ first others =>
      have hle (s w : List Char) : cursorAfter s ≤ cursorAfter (s ++ w) := by
        rw [cursorAfter_append]
        exact Cursor.le_after _ _
      refine List.forall_mem_cons.2 ⟨⟨?_, ?_⟩, fun t ht => ⟨?_, ?_⟩⟩
      · rw [first.isOf.1.1]
        exact hle before gap
      · rw [first.isOf.1.2, ← List.append_assoc, ← List.append_assoc]
        exact hle _ rest
      · refine Cursor.le_trans ?_ (ih others t ht).1
        exact Cursor.le_trans (hle before gap) (hle _ word)
      · simpa only [List.append_assoc] using (ih others t ht).2

/-- A token as layout finds it: nested, and if it is a `do`, only the word. -/
structure Fresh (t : Token) : Prop where
  /-- The interior is where it belongs. -/
  nested : t.Nested
  /-- A `do` has no interior yet. -/
  word : t.blockKind? = some .indented → t.children = [] ∧ t.opened = t.loc.stop

/-- A token that is no block is fresh if it has no interior. -/
theorem fresh_bare {t : Token} (hkind : t.blockKind? = none) (hchildren : t.children = []) :
    t.Fresh := by
  have hother (k : BlockKind) : t.blockKind? ≠ some k := by
    rw [hkind]
    nofun
  exact ⟨⟨fun _ => hchildren, fun _ h => absurd h (hother _), fun h => absurd h (hother _)⟩,
    fun h => absurd h (hother _)⟩

/-- A `do` is fresh if it is located as its word. -/
theorem fresh_word {l : Location} (h : l.start.after blockWord.toList = l.stop) :
    (block .indented l []).Fresh := by
  have hopened : (block .indented l []).opened = l.stop := h
  refine ⟨⟨fun _ => rfl, fun bracket hgroup => ?_, fun _ => ⟨?_, ?_⟩⟩, fun _ => ⟨rfl, hopened⟩⟩
  · rw [block_blockKind?] at hgroup
    cases hgroup
  · rw [hopened]
    exact Cursor.le_refl _
  · exact ⟨.nil, fun u hu => absurd hu List.not_mem_nil⟩

/-- A group is fresh if its interior is between its opener and its closer. -/
theorem fresh_group {bracket : Bracket} {l : Location} {ts : List Token} {close : Cursor}
    (hclose : close.step bracket.closer = l.stop) (hle : l.start.step bracket.opener ≤ close)
    (hts : Between (l.start.step bracket.opener) close ts) :
    (block (.bracketed bracket) l ts).Fresh := by
  have hopened : (block (.bracketed bracket) l ts).opened = l.start.step bracket.opener := by
    show l.start.after bracket.opener.toString.toList = _
    rw [Char.toString_eq_singleton, String.toList_singleton]
    rfl
  refine ⟨⟨fun hnone => ?_, fun bracket' hgroup => ?_, fun hindented => ?_⟩, fun hindented => ?_⟩
  · rw [block_blockKind?] at hnone
    cases hnone
  · rw [block_blockKind?] at hgroup
    cases hgroup
    rw [hopened]
    exact ⟨close, hclose, hle, hts⟩
  · rw [block_blockKind?] at hindented
    cases hindented
  · rw [block_blockKind?] at hindented
    cases hindented

/-- A token that a text spells is fresh, and so are all tokens in it. -/
theorem SpelledAt.fresh {before text : List Char} {t : Token} (h : t.SpelledAt before text)
    (ht : t.Proper) : t.Every Fresh := by
  induction t using induction_children generalizing before text with
  | step t ih =>
    cases h with
    | leaf kind children =>
      refine .intro (fresh_bare (if_neg kind) children) fun u hu => ?_
      rw [children] at hu
      exact absurd hu List.not_mem_nil
    | indented located =>
      refine .intro (fresh_word ?_) fun u hu => absurd hu List.not_mem_nil
      rw [located.1, located.2, cursorAfter_append]
    | @group _ inner bracket l ts interior located =>
      refine .intro ?_ fun u hu => ?_
      · have hopened : l.start.step bracket.opener = cursorAfter (before ++ [bracket.opener]) := by
          rw [located.1, cursorAfter_append]
          rfl
        have hle : cursorAfter (before ++ [bracket.opener])
            ≤ cursorAfter (before ++ [bracket.opener] ++ inner) := by
          rw [cursorAfter_append (before ++ [bracket.opener])]
          exact Cursor.le_after _ _
        have hclose : (cursorAfter (before ++ [bracket.opener] ++ inner)).step bracket.closer
            = l.stop := by
          rw [located.2, ← List.append_assoc, cursorAfter_append _ [bracket.closer]]
          simp
        refine fresh_group hclose ?_ ?_
        · rw [hopened]
          exact hle
        · rw [hopened]
          exact (ht.interior.narrow hle interior.bounds).between
      · obtain ⟨between, word, hword⟩ := interior.exists_spelledAt hu
        exact ih u hu hword (ht.interior.proper hu)

/-- The tokens of a source text are fresh. -/
theorem ofSource_fresh {source : String} {ts : List Token} (h : ofSource source = .ok ts) :
    ∀ t ∈ ts, t.Every Fresh := by
  intro t ht
  obtain ⟨before, text, hspelled⟩ := ofSource_spelledAt h t ht
  exact hspelled.fresh ((ofSource_inOrder h).proper ht)

end Token

namespace Layout

open Token

/-! ## Laid-out blocks -/

/-- What has been laid out inside a block is in order where it was before. -/
theorem Interior.close_inOrder {a b : Cursor} {interior : Interior} {t : Token}
    {run : List Placed} (h : InOrder a b interior.tokens)
    (hrun : arrange interior.rules interior.tokens = .ok run) :
    InOrder a b (interior.close t run).children := by
  have hplaced := arrange_inOrder h hrun
  show InOrder a b (if interior.holdsStatements then punctuate interior.rules.column run
    else run.map Placed.token)
  split
  · exact punctuate_inOrder hplaced
  · exact hplaced.1

/-- A laid-out block is opened where it was. -/
theorem Interior.close_opened {interior : Interior} {t : Token}
    (h : interior.loc.start = t.loc.start) (run : List Placed) :
    (interior.close t run).opened = t.opened :=
  congrArg (·.after t.text.toList) h

section Blocks

variable {r : Rules} {t : Token} {rest : List Token} {run : List Placed}

/-- A `do` is laid out from its region. -/
theorem enterIndented_tokens (r : Rules) (rest : List Token)
    (hindented : t.blockKind? = some .indented) (ht : t.Fresh) :
    (r.enterIndented t rest).tokens = (splitRegion r.column t.loc.stop.row rest).1 := by
  show t.children ++ _ = _
  rw [(ht.word hindented).1, List.nil_append]

/-- A laid-out `do` is nested. It has grown up to the end of its region. -/
theorem do_nested {b : Cursor} (hindented : t.blockKind? = some .indented) (ht : t.Fresh)
    (hproper : t.Proper) (hrest : InOrder t.loc.stop b rest)
    (hrun : arrange (r.enterIndented t rest).rules (r.enterIndented t rest).tokens = .ok run) :
    ((r.enterIndented t rest).close t run).Nested := by
  obtain ⟨-, hopened⟩ := ht.word hindented
  have henter : r.enter t rest = .ok (r.enterIndented t rest) := by rw [Rules.enter, hindented]
  obtain ⟨hstart, hstop, hall, -⟩ := Rules.enter_inOrder henter hproper hrest
  obtain ⟨m, hregion, -⟩ := splitRegion_inOrder r.column t.loc.stop.row hrest
  rw [← enterIndented_tokens r rest hindented ht] at hregion
  -- the region begins after the word, and the block has been made to end with it
  have hinside : InOrder t.opened (r.enterIndented t rest).loc.stop
      (r.enterIndented t rest).tokens := by
    rw [hopened]
    exact hregion.narrow hstop fun u hu => ⟨(hregion.between.2 u hu).1, (hall.between.2 u hu).2⟩
  refine ⟨fun hnone => ?_, fun bracket hgroup => ?_, fun _ => ⟨?_, ?_⟩⟩
  · exact absurd (hindented.symm.trans hnone) nofun
  · exact absurd (hindented.symm.trans hgroup) nofun
  · rw [Interior.close_opened hstart, hopened]
    exact hstop
  · rw [Interior.close_opened hstart]
    exact (Interior.close_inOrder hinside hrun).between

/-- A laid-out group is nested, with its own tokens in it. -/
theorem group_nested {rules : Rules} {holdsStatements : Bool}
    (hkind : t.blockKind? ≠ some .indented) (ht : t.Nested) (hproper : t.Proper)
    (hrun : arrange rules t.children = .ok run) :
    ((⟨rules, t.children, rest, t.loc, holdsStatements⟩ : Interior).close t run).Nested := by
  have hinside {a b : Cursor} (hab : a ≤ b) (h : Between a b t.children) :
      InOrder a b
        ((⟨rules, t.children, rest, t.loc, holdsStatements⟩ : Interior).close t run).children :=
    Interior.close_inOrder (hproper.interior.narrow hab h.2) hrun
  refine ⟨fun hnone => ?_, fun bracket hgroup => ?_, fun hindented => absurd hindented hkind⟩
  · have hempty : t.children = [] := ht.bare hnone
    rw [hempty] at hrun
    cases hrun.symm.trans (arrange_nil rules)
    cases holdsStatements <;> rfl
  · obtain ⟨close, hclose, hopened, hbetween⟩ := ht.group bracket hgroup
    exact ⟨close, hclose, hopened, (hinside hopened hbetween).between⟩

end Blocks

/-- A block that has been laid out is nested. -/
theorem Rules.enter_nested {r : Rules} {t : Token} {rest : List Token} {interior : Interior}
    {b : Cursor} {run : List Placed} (h : r.enter t rest = .ok interior) (ht : t.Fresh)
    (hproper : t.Proper) (hrest : InOrder t.loc.stop b rest)
    (hrun : arrange interior.rules interior.tokens = .ok run) :
    (interior.close t run).Nested := by
  rcases enter_cases h with ⟨hbrace, -, rfl⟩ | ⟨hindented, rfl⟩ | ⟨hkind, -, rfl⟩
  · refine group_nested ?_ ht.nested hproper hrun
    rw [hbrace]
    nofun
  · exact do_nested hindented ht hproper hrest hrun
  · exact group_nested hkind ht.nested hproper hrun

/-- A semicolon has no interior. -/
theorem semicolon_nested (c : Cursor) : (Token.semicolon (Location.point c)).Nested :=
  ⟨fun _ => rfl, nofun, nofun⟩

/-- Laid-out tokens are nested. -/
theorem arrange_nested {r : Rules} {ts : List Token} {a b : Cursor} {run : List Placed}
    (horder : InOrder a b ts) (hts : ∀ t ∈ ts, t.Every Fresh) (h : arrange r ts = .ok run) :
    ∀ p ∈ run, p.token.Every Nested := by
  induction h using arrange_induction generalizing a b with
  | nil => exact fun p hp => absurd hp List.not_mem_nil
  | leaf _ _ _ ih =>
    obtain ⟨-, -, hrest⟩ := inOrder_cons.1 horder
    obtain ⟨ht, hfresh⟩ := List.forall_mem_cons.1 hts
    exact List.forall_mem_cons.2 ⟨ht.mono fun u hu => hu.nested, ih hrest hfresh⟩
  | block _ _ henter hinner _ ihinner ihothers =>
    obtain ⟨-, hproper, hrest⟩ := inOrder_cons.1 horder
    obtain ⟨ht, hfresh⟩ := List.forall_mem_cons.1 hts
    obtain ⟨-, -, htokens, hafter⟩ := Rules.enter_inOrder henter hproper hrest
    obtain ⟨hin, hout⟩ := Rules.enter_every henter ht hfresh
    have hinside := ihinner htokens hin
    refine List.forall_mem_cons.2 ⟨.intro ?_ (Interior.close_every fun p hp => ?_), ?_⟩
    · exact Rules.enter_nested henter ht.here hproper hrest hinner
    · exact ⟨hinside p hp, semicolon_nested p.start⟩
    · exact ihothers hafter hout

/-! ## The ends of `do` blocks -/

end Layout

/-- The laid-out tokens of a source text follow one another, those inside each token do so as well,
and they lie inside it: in a group after its opener and before its closer, in a `do` after the word
and up to the end of the block. -/
theorem layout_nested {source : String} {ts laidOut : List Token}
    (hts : Token.ofSource source = .ok ts) (h : Layout.layout ts = .ok laidOut) :
    Token.Between Cursor.origin (sourceSpan source).stop laidOut ∧
      ∀ t ∈ laidOut, t.Every Token.Nested := by
  have horder := Token.ofSource_inOrder hts
  refine ⟨(Layout.layout_inOrder horder h).between, ?_⟩
  obtain ⟨run, hrun, rfl⟩ := Layout.layout_ok h
  exact Layout.punctuate_every fun p hp =>
    ⟨Layout.arrange_nested horder (Token.ofSource_fresh hts) hrun p hp,
      Layout.semicolon_nested p.start⟩

/-- A `do` in braces, with a group, a line of its own and another `do` in it. -/
theorem layout_nested_blocks : ∃ ts laidOut,
    Token.ofSource "\x7b if a do\n    f (b, c)\n    g do x; \x7d\nd" = .ok ts ∧
      Layout.layout ts = .ok laidOut ∧
      Token.Between Cursor.origin
        (sourceSpan "\x7b if a do\n    f (b, c)\n    g do x; \x7d\nd").stop laidOut ∧
      ∀ t ∈ laidOut, t.Every Token.Nested := by
  have hlaid : ((Token.ofSource "\x7b if a do\n    f (b, c)\n    g do x; \x7d\nd").toOption.bind
      fun ts => (Layout.layout ts).toOption).isSome = true := by decide +kernel
  cases hts : Token.ofSource "\x7b if a do\n    f (b, c)\n    g do x; \x7d\nd" with
  | error e =>
    rw [hts] at hlaid
    cases hlaid
  | ok ts =>
    cases h : Layout.layout ts with
    | error e =>
      rw [hts] at hlaid
      simp [Except.toOption, h] at hlaid
    | ok laidOut => exact ⟨ts, laidOut, rfl, h, layout_nested hts h⟩

end Offside
