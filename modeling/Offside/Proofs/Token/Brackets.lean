import Offside.Proofs.Token.Nesting

/-!
# Brackets in one pass

Whether a source text has token trees, and if not, what is wrong with it first, is decided by one
pass over its characters that builds no tokens and keeps a stack of the brackets that are open.

* `BracketPass`: where such a pass stands; `BracketPass.step`: what one character does to it;
  `BracketPass.finish`: what the end of the text makes of it.
* `BracketPass.run`: the whole pass. `BracketPass.run_plain`, `BracketPass.run_comment`: what it
  does on a run of characters that are no brackets, on a comment.
* `BracketPass.inside`: the pass where some groups are open. `BracketPass.run_eq_nest`: from there
  on, scanning and matching brackets end as the pass does.
* `ofSource_eq_run`: reading a source text succeeds and fails exactly as the pass does.
-/

namespace Offside

/-- Where a pass over the characters of a text stands. -/
structure BracketPass where
  /-- The cursor of the next character. -/
  cursor : Cursor
  /-- Whether the next character belongs to a comment. -/
  inComment : Bool
  /-- The brackets that are open, innermost first, with the locations of their openers. -/
  stack : List (Bracket × Location)

namespace BracketPass

/-- Where the pass begins. -/
def initial : BracketPass := ⟨Cursor.origin, false, []⟩

/-- The pass fails at the next character. -/
def fail (p : BracketPass) (cause : LexicalError) : Except (Located LexicalError) BracketPass :=
  .error ⟨cause, Location.one p.cursor⟩

/-- The pass after the next character, with the brackets that are open then. -/
def pass (p : BracketPass) (c : Char) (stack : List (Bracket × Location)) : BracketPass :=
  { p with cursor := p.cursor.step c, stack := stack }

/-- The next character opens a group. -/
def push (p : BracketPass) (c : Char) (bracket : Bracket) : BracketPass :=
  p.pass c ((bracket, Location.one p.cursor) :: p.stack)

/-- The innermost bracket that is open. -/
def top? (p : BracketPass) : Option Bracket := p.stack.head?.map Prod.fst

/-- What one character does. A comment goes on to the end of its line. A backtick closes the
innermost group if that is one of backticks, is out of place if such a group is open further out,
and opens a group otherwise. -/
def step (p : BracketPass) (c : Char) : Except (Located LexicalError) BracketPass :=
  if c = '\t' then p.fail .tab
  else if p.inComment then .ok { p.pass c p.stack with inComment := c != '\n' }
  else
    match CharClass.of? c with
    | none => p.fail (.unrecognized c)
    | some .comment => .ok { p.pass c p.stack with inComment := true }
    | some (.opener .backtick) =>
      if p.top? = some .backtick then .ok (p.pass c p.stack.tail)
      else if p.stack.any (·.1 == .backtick) then p.fail (.unmatched .backtick)
      else .ok (p.push c .backtick)
    | some (.opener bracket) => .ok (p.push c bracket)
    | some (.closer bracket) =>
      if p.top? = some bracket then .ok (p.pass c p.stack.tail) else p.fail (.unmatched bracket)
    | some _ => .ok (p.pass c p.stack)

/-- What the end of the text makes of the brackets that are still open. -/
def finish (p : BracketPass) : Except (Located LexicalError) Unit :=
  match p.stack with
  | [] => .ok ()
  | (.brace, opener) :: _ => .error ⟨.cutOffBrace, opener⟩
  | (bracket, opener) :: _ => .error ⟨.unclosed bracket, opener⟩

/-- A pass over a whole text. -/
def run (p : BracketPass) (text : List Char) : Except (Located LexicalError) Unit :=
  text.foldlM step p >>= finish

theorem run_cons (p : BracketPass) (c : Char) (text : List Char) :
    p.run (c :: text) = p.step c >>= (run · text) := by
  rw [run, List.foldlM_cons]
  cases p.step c <;> rfl

/-- A character that the pass gets over. -/
theorem run_of_step {p q : BracketPass} {c : Char} (h : p.step c = .ok q) (text : List Char) :
    p.run (c :: text) = q.run text := by
  rw [run_cons, h]
  rfl

/-- A character that the pass stops at. -/
theorem run_of_fail {p : BracketPass} {c : Char} {e : Located LexicalError}
    (h : p.step c = .error e) (text : List Char) : p.run (c :: text) = .error e := by
  rw [run_cons, h]
  rfl

/-! ## Runs of characters -/

/-- A character of a class that means nothing for brackets. -/
theorem step_passes {p : BracketPass} {c : Char} {k : CharClass} (hp : p.inComment = false)
    (hc : CharClass.of? c = some k)
    (hk : k ∈ [CharClass.letter, .digit, .operator, .separator, .blank]) :
    p.step c = .ok (p.pass c p.stack) := by
  have htab : c ≠ '\t' := by
    rintro rfl
    revert hk
    cases hc.symm.trans (show CharClass.of? '\t' = some .tab by decide)
    decide
  rw [step, if_neg htab, hp, hc]
  simp only [List.mem_cons, List.not_mem_nil, or_false] at hk
  rcases hk with rfl | rfl | rfl | rfl | rfl <;> rfl

/-- A blank. -/
theorem run_blank {c : Char} (hc : CharClass.of? c = some .blank) (a : Cursor)
    (stack : List (Bracket × Location)) (rest : List Char) :
    run ⟨a, false, stack⟩ (c :: rest) = run ⟨a.step c, false, stack⟩ rest :=
  run_of_step (step_passes rfl hc (by decide)) rest

/-- A run of characters that are no brackets. -/
theorem run_plain {cs : List Char} (hcs : ∀ c ∈ cs, IsPlain c) (a : Cursor)
    (stack : List (Bracket × Location)) (rest : List Char) :
    run ⟨a, false, stack⟩ (cs ++ rest) = run ⟨a.after cs, false, stack⟩ rest := by
  induction cs generalizing a with
  | nil => rfl
  | cons c cs ih =>
    obtain ⟨hc, hcs⟩ := List.forall_mem_cons.1 hcs
    obtain ⟨k, hk, hclass⟩ := hc
    have hpasses : k ∈ [CharClass.letter, .digit, .operator, .separator, .blank] :=
      List.mem_append_left [CharClass.blank] hk
    rw [List.cons_append, run_of_step (step_passes rfl hclass hpasses)]
    exact ih hcs (a.step c)

/-- A comment up to the end of its line. -/
theorem run_inComment {cs : List Char} (hcs : ∀ c ∈ cs, Scanner.continuesComment c = true)
    (a : Cursor) (stack : List (Bracket × Location)) (rest : List Char) :
    run ⟨a, true, stack⟩ (cs ++ rest) = run ⟨a.after cs, true, stack⟩ rest := by
  induction cs generalizing a with
  | nil => rfl
  | cons c cs ih =>
    obtain ⟨hc, hcs⟩ := List.forall_mem_cons.1 hcs
    simp only [Scanner.continuesComment, Bool.and_eq_true, bne_iff_ne] at hc
    have hstep : step ⟨a, true, stack⟩ c = .ok ⟨a.step c, true, stack⟩ := by
      simp [step, pass, hc]
    rw [List.cons_append, run_of_step hstep]
    exact ih hcs (a.step c)

/-- Where a line ends, or the text does, a comment makes no difference any more. -/
theorem run_endComment (a : Cursor) (stack : List (Bracket × Location)) {rest : List Char}
    (hrest : ∀ c, rest.head? = some c → Scanner.continuesComment c = false) :
    run ⟨a, true, stack⟩ rest = run ⟨a, false, stack⟩ rest := by
  cases rest with
  | nil => rfl
  | cons c rest =>
    have hc := hrest c rfl
    simp only [Scanner.continuesComment, Bool.and_eq_false_iff, bne_eq_false_iff_eq] at hc
    rcases hc with rfl | rfl
    · have hstep : step ⟨a, true, stack⟩ '\n' = .ok ⟨a.step '\n', false, stack⟩ := rfl
      rw [run_of_step hstep, run_blank (by decide)]
    · rw [run_cons, run_cons]
      rfl

/-- A comment, from its number sign to the end of its line. -/
theorem run_comment (a : Cursor) (stack : List (Bracket × Location)) (rest : List Char) :
    run ⟨a, false, stack⟩ ('#' :: rest)
      = run ⟨a.after ('#' :: rest.takeWhile Scanner.continuesComment), false, stack⟩
        (rest.dropWhile Scanner.continuesComment) := by
  have hstep : step ⟨a, false, stack⟩ '#' = .ok ⟨a.step '#', true, stack⟩ := rfl
  have hends : ∀ c, (rest.dropWhile Scanner.continuesComment).head? = some c →
      Scanner.continuesComment c = false := by
    intro c hc
    have hhead := List.head?_dropWhile_not Scanner.continuesComment rest
    rw [hc] at hhead
    exact hhead
  calc run ⟨a, false, stack⟩ ('#' :: rest)
      = run ⟨a.step '#', true, stack⟩ rest := run_of_step hstep rest
    _ = run ⟨a.step '#', true, stack⟩ (rest.takeWhile Scanner.continuesComment
          ++ rest.dropWhile Scanner.continuesComment) := by
        rw [List.takeWhile_append_dropWhile]
    _ = run ⟨(a.step '#').after (rest.takeWhile Scanner.continuesComment), true, stack⟩
          (rest.dropWhile Scanner.continuesComment) :=
        run_inComment (List.all_eq_true.1 List.all_takeWhile) _ _ _
    _ = run ⟨(a.step '#').after (rest.takeWhile Scanner.continuesComment), false, stack⟩
          (rest.dropWhile Scanner.continuesComment) := run_endComment _ _ hends

/-! ## The pass and the token trees -/

/-- The pass inside some open groups. -/
def inside (a : Cursor) (groups : List OpenGroup) : BracketPass :=
  ⟨a, false, groups.map fun group => (group.bracket, group.opener)⟩

/-- At the end of the text the innermost open group is reported. -/
theorem finish_inside (a : Cursor) (groups : List OpenGroup) (before : List Token) :
    (nest none groups before []).map (fun _ => ()) = (inside a groups).finish := by
  cases groups with
  | nil => rfl
  | cons group outer =>
    obtain ⟨bracket, opener, before⟩ := group
    cases bracket <;> rfl

/-- Only a tab has the class of tabs. -/
theorem ne_tab {c : Char} (hc : CharClass.of? c ≠ some .tab) : c ≠ '\t' := by
  rintro rfl
  exact hc (by decide)

/-- A group of backticks is open if one of the groups is. -/
theorem any_backtick_iff (a : Cursor) (groups : List OpenGroup) :
    (inside a groups).stack.any (·.1 == .backtick) = true ↔
      0 < groups.countP (·.bracket == .backtick) := by
  rw [inside, List.any_map]
  exact List.any_eq_true.trans List.countP_pos_iff.symm

/-- An opener opens a group, unless it is a backtick where a group of these is open. -/
theorem step_opener {a : Cursor} {groups : List OpenGroup} {inBackticks : Bool}
    (hknows : Knows inBackticks groups) {bracket : Bracket}
    (hb : bracket = .backtick → inBackticks = false) :
    (inside a groups).step bracket.opener
      = .ok ((inside a groups).push bracket.opener bracket) := by
  have htab : bracket.opener ≠ '\t' := by cases bracket <;> decide
  rw [step, if_neg htab, CharClass.of?_opener]
  cases bracket with
  | paren | square | brace => rfl
  | backtick =>
    have hopen : ¬ (inside a groups).stack.any (·.1 == .backtick) = true := by
      rw [any_backtick_iff, hknows, hb rfl]
      exact Nat.lt_irrefl 0
    have htop : (inside a groups).top? ≠ some .backtick := by
      intro htop
      obtain ⟨⟨bracket, opener⟩, hhead, rfl⟩ := Option.map_eq_some_iff.1 htop
      exact hopen (List.any_eq_true.2 ⟨_, List.mem_of_head? hhead, rfl⟩)
    simp only [htop, hopen, if_false]
    rfl

/-- A closer closes the innermost group, if that is one of its brackets. -/
theorem step_closer {a : Cursor} {groups : List OpenGroup} {inBackticks : Bool}
    (hknows : Knows inBackticks groups) {bracket : Bracket}
    (hb : bracket = .backtick → inBackticks = true) :
    (inside a groups).step bracket.closer =
      if (inside a groups).top? = some bracket then
        .ok ((inside a groups).pass bracket.closer (inside a groups).stack.tail)
      else (inside a groups).fail (.unmatched bracket) := by
  cases bracket with
  | paren | square | brace => rfl
  | backtick =>
    have hopen : (inside a groups).stack.any (·.1 == .backtick) = true := by
      rw [any_backtick_iff, hknows, hb rfl]
      decide
    have hclass : CharClass.of? Bracket.backtick.closer = some (.opener .backtick) := by decide
    rw [step, if_neg (by decide), hclass]
    simp only [hopen, if_true]
    rfl

/-- Scanning and matching brackets from some place on ends as the pass does. -/
theorem run_eq_nest {inBackticks : Bool} {s : Scanner} {text : List Char} {scan : Scan}
    (h : s.Scans inBackticks text scan) (groups : List OpenGroup) (before : List Token)
    (hknows : Knows inBackticks groups) :
    (nest scan.stop? groups before scan.lexemes).map (fun _ => ())
      = (inside s.cursor groups).run text := by
  induction h generalizing groups before with
  | nil => exact finish_inside _ _ _
  | @stops _ s c _ cause hstops =>
    have hstep : (inside s.cursor groups).step c = .error ⟨cause, Location.one s.cursor⟩ := by
      cases hstops with
      | tab hc =>
        obtain rfl : c = '\t' := CharClass.contains_of_of? hc
        rfl
      | unrecognized hc =>
        rw [step, if_neg (ne_tab (by simp [hc])), hc]
        rfl
    rw [run_of_fail hstep]
    rfl
  | blank hc _ ih =>
    rw [ih groups before hknows, inside, inside, run_blank hc]
    rfl
  | comment _ ih =>
    rw [ih groups before hknows]
    exact (run_comment _ _ _).symm
  | @leaf _ s _ _ leaf _ hleaf _ ih =>
    refine (ih groups _ hknows).trans ((run_plain hleaf.plain _ _ _).symm.trans ?_)
    rw [leaf.used_append]
    rfl
  | @opens _ s bracket _ _ hb _ ih =>
    rw [Scanner.locate_one bracket.opener_ne_lineFeed, run_of_step (step_opener hknows hb)]
    exact ih (⟨bracket, Location.one s.cursor, before⟩ :: groups) [] (hknows.opens hb)
  | @closes _ s bracket _ _ hb _ ih =>
    have hstep := step_closer (a := s.cursor) hknows hb
    rw [Scanner.locate_one bracket.closer_ne_lineFeed]
    by_cases hmatch : ∃ group outer, groups = group :: outer ∧ group.bracket = bracket
    · obtain ⟨group, outer, rfl, rfl⟩ := hmatch
      rw [run_of_step (hstep.trans (if_pos rfl))]
      exact (congrArg (Except.map _) (nest_closes rfl)).trans (ih outer _ (hknows.closes hb))
    · have htop : (inside s.cursor groups).top? ≠ some bracket := by
        intro htop
        cases groups with
        | nil => cases htop
        | cons group outer => exact hmatch ⟨group, outer, rfl, Option.some.inj htop⟩
      rw [run_of_fail (hstep.trans (if_neg htop))]
      exact congrArg (Except.map _) (nest_closes_unmatched fun group outer hgroups hbracket =>
        hmatch ⟨group, outer, hgroups, hbracket⟩)

end BracketPass

/-- Reading a source text as token trees succeeds exactly if one pass over its brackets does, and
otherwise both report the same at the same place. -/
theorem ofSource_eq_run (source : String) :
    (Token.ofSource source).map (fun _ => ()) = BracketPass.initial.run source.toList := by
  rw [Token.ofSource_eq_trees]
  exact BracketPass.run_eq_nest (Scanner.scans false .initial source.toList) [] [] rfl

end Offside
