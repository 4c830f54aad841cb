import Mathlib.Data.List.Forall2
import Offside.Proofs.Layout.Closers

/-!
# Runs of statements

Layout separates statements in the whole input, in braces and in the region of a `do`. Each such run
has a column of its own, and each becomes the interior of one block of the result.

* `Layout.StatementRun`: a run with the rules that hold in it. `Layout.runsInside`: the runs in the
  blocks among some tokens; `Layout.statementRuns`: those of a whole input.
* `Token.statementRuns`, `Token.statementRunsAll`: the interiors of the blocks of statements in a
  tree, in some trees. `Token.statementBlocks`, `Token.statementBlocksAll`: these blocks themselves.
* `Layout.runsInside_enter`: the runs in a block that is entered, and in what follows it.
* `Layout.runsInside_hereditary`: what sequences of tokens hand on to their parts, with the
  interiors of their blocks, holds of the tokens of all runs.
* `Layout.arrange_blocks`, `Layout.layout_blocks`: the runs in the blocks of the input correspond to
  the blocks of the result, one by one and in the same order. `Layout.layout_runs`: so the runs of
  the input become those of the result.
-/

namespace Offside

/-! ## Runs of the input -/

namespace Layout

open Token

/-- A run of statements that is to be laid out. -/
structure StatementRun where
  /-- The rules that hold in the run; their column is that of its statements. -/
  rules : Rules
  /-- The tokens of the run. -/
  tokens : List Token

/-- A region is no larger than the tokens that it is taken from. -/
theorem splitRegion_weight (column row : Nat) (ts : List Token) :
    totalWeight (splitRegion column row ts).1 + totalWeight (splitRegion column row ts).2
      = totalWeight ts := by
  rw [← totalWeight_append, splitRegion_append]

/-- The runs of statements in the blocks among some tokens, where statements begin in `column`. The
run of a brace begins in the column of its first token, and so does that of a `do`, unless that is
to the left of `column`. -/
def runsInside (column : Nat) : List Token → List StatementRun
  | [] => []
  | t :: rest =>
    match t.blockKind? with
    | some (.bracketed .brace) =>
      let inner := Rules.columnOf column t.children
      ⟨⟨inner, none⟩, t.children⟩ :: (runsInside inner t.children ++ runsInside column rest)
    | some .indented =>
      let tokens := t.children ++ (splitRegion column t.loc.stop.row rest).1
      let inner := max (Rules.columnOf column tokens) column
      ⟨⟨inner, some column⟩, tokens⟩ ::
        (runsInside inner tokens ++ runsInside column (splitRegion column t.loc.stop.row rest).2)
    | _ => (if t.kind = .block then runsInside column t.children else []) ++ runsInside column rest
  termination_by tokens => totalWeight tokens
  decreasing_by
    all_goals
      have := splitRegion_weight column t.loc.stop.row rest
      simp only [totalWeight_cons, totalWeight_append, weight_eq]
      omega

/-- All runs of statements of an input: the input itself and those in its blocks. -/
def statementRuns (tokens : List Token) : List StatementRun :=
  let column := Rules.columnOf 1 tokens
  ⟨⟨column, none⟩, tokens⟩ :: runsInside column tokens

/-- The statements `out` are what becomes of a run. -/
def StatementRun.Becomes (run : StatementRun) (out : List Token) : Prop :=
  ∃ placed, arrange run.rules run.tokens = .ok placed ∧ out = punctuate run.rules.column placed

end Layout

/-! ## Runs of the result -/

namespace Token

mutual

/-- The interiors of the blocks of statements in a token tree, from left to right. -/
def statementRuns : Token → List (List Token)
  | ⟨kind, text, loc, children⟩ =>
    if kind = .block then
      (if (⟨kind, text, loc, children⟩ : Token).blockKind?.any BlockKind.holdsStatements then
          [children] else [])
        ++ statementRunsAll children
    else []

/-- The interiors of the blocks of statements in some token trees, from left to right. -/
def statementRunsAll : List Token → List (List Token)
  | [] => []
  | t :: ts => statementRuns t ++ statementRunsAll ts

end

mutual

/-- The blocks of statements in a token tree, from left to right. -/
def statementBlocks : Token → List Token
  | ⟨kind, text, loc, children⟩ =>
    if kind = .block then
      (if (⟨kind, text, loc, children⟩ : Token).blockKind?.any BlockKind.holdsStatements then
          [⟨kind, text, loc, children⟩] else [])
        ++ statementBlocksAll children
    else []

/-- The blocks of statements in some token trees, from left to right. -/
def statementBlocksAll : List Token → List Token
  | [] => []
  | t :: ts => statementBlocks t ++ statementBlocksAll ts

end

mutual

/-- The runs of a token tree are the interiors of its blocks. -/
theorem statementRuns_eq : (t : Token) → t.statementRuns = t.statementBlocks.map children
  | ⟨kind, text, loc, ts⟩ => by
    rw [statementRuns, statementBlocks]
    split
    · rw [List.map_append, statementRunsAll_eq ts]
      split <;> rfl
    · rfl

/-- The runs of some token trees are the interiors of their blocks. -/
theorem statementRunsAll_eq :
    (ts : List Token) → statementRunsAll ts = (statementBlocksAll ts).map children
  | [] => by rw [statementRunsAll, statementBlocksAll, List.map_nil]
  | t :: ts => by
    rw [statementRunsAll, statementBlocksAll, List.map_append, statementRuns_eq t,
      statementRunsAll_eq ts]

end

theorem statementBlocksAll_eq (ts : List Token) :
    statementBlocksAll ts = ts.flatMap statementBlocks := by
  induction ts with
  | nil => rw [statementBlocksAll, List.flatMap_nil]
  | cons t ts ih => rw [statementBlocksAll, List.flatMap_cons, ih]

theorem statementBlocks_leaf {t : Token} (h : t.kind ≠ .block) : t.statementBlocks = [] := by
  cases t
  rw [statementBlocks, if_neg h]

theorem statementBlocks_block {t : Token} (h : t.kind = .block) :
    t.statementBlocks = (if t.blockKind?.any BlockKind.holdsStatements then [t] else [])
      ++ statementBlocksAll t.children := by
  cases t
  rw [statementBlocks, if_pos h]

end Token

namespace Layout

open Token

/-- Punctuating a run of statements does not change the blocks in it. -/
theorem punctuate_blocks (column : Nat) (run : List Placed) :
    statementBlocksAll (punctuate column run) = statementBlocksAll (run.map Placed.token) := by
  rw [statementBlocksAll_eq, statementBlocksAll_eq, punctuate_flatMap]
  intro t ht
  exact statementBlocks_leaf (by rw [ht]; decide)

/-- Whether the interior of a block is a run of statements depends on its kind. -/
theorem Rules.enter_holdsStatements {r : Rules} {t : Token} {rest : List Token}
    {interior : Interior} (h : r.enter t rest = .ok interior) :
    interior.holdsStatements = t.blockKind?.any BlockKind.holdsStatements := by
  unfold enter at h
  split at h
  · rename_i hkind
    obtain ⟨-, -, rfl⟩ := map_ok_iff.1 h
    rw [hkind]
    rfl
  · rename_i hkind
    cases h
    rw [hkind]
    rfl
  · rename_i hbrace hindented
    have hother : t.blockKind?.any BlockKind.holdsStatements = false := by
      rcases hkind : t.blockKind? with _ | ((_ | _ | _ | _) | _)
      case some.bracketed.brace => exact absurd hkind hbrace
      case some.indented => exact absurd hkind hindented
      all_goals rfl
    obtain ⟨-, -, rfl⟩ := map_ok_iff.1 h
    exact hother.symm

/-- The runs among some tokens that begin with a block. -/
theorem runsInside_enter {r : Rules} {t : Token} {rest : List Token} {interior : Interior}
    (ht : t.kind = .block) (h : r.enter t rest = .ok interior) :
    runsInside r.column (t :: rest)
      = (if interior.holdsStatements then [⟨interior.rules, interior.tokens⟩] else [])
        ++ (runsInside interior.rules.column interior.tokens
          ++ runsInside r.column interior.rest) := by
  have hholds := Rules.enter_holdsStatements h
  rw [runsInside]
  rcases Rules.enter_cases h with ⟨hkind, -, rfl⟩ | ⟨hkind, rfl⟩ | ⟨hkind, -, rfl⟩
  · simp only [hkind, if_true, List.singleton_append]
  · simp only [hkind]
    rfl
  · -- the block is no brace, since it holds no statements
    split
    · rename_i hbrace
      rw [hbrace] at hholds
      cases hholds
    · rename_i hindented
      exact absurd hindented hkind
    · simp only [ht, if_true, Bool.false_eq_true, if_false, List.nil_append]

theorem runsInside_leaf {column : Nat} {t : Token} {rest : List Token} (ht : t.kind ≠ .block) :
    runsInside column (t :: rest) = runsInside column rest := by
  have hkind : t.blockKind? = none := by rw [blockKind?, if_neg ht]
  rw [runsInside]
  simp only [hkind, ht, if_false, List.nil_append]

/-- What a sequence of tokens hands on to its parts, and to the interior of its first token with
what follows that, it hands on to its runs. -/
theorem runsInside_hereditary {Q : List Token → Prop}
    (happend : ∀ {s t : List Token}, Q (s ++ t) → Q s ∧ Q t)
    (hinterior : ∀ {t : Token} {rest : List Token}, Q (t :: rest) → Q (t.children ++ rest))
    {column : Nat} {ts : List Token} (h : Q ts) : ∀ run ∈ runsInside column ts, Q run.tokens := by
  fun_induction runsInside column ts with
  | case1 => exact fun run hrun => absurd hrun List.not_mem_nil
  | case2 column t rest hkind inner ihinner ihrest =>
    obtain ⟨hchildren, hrest⟩ := happend (hinterior h)
    refine List.forall_mem_cons.2 ⟨hchildren, List.forall_mem_append.2 ⟨?_, ?_⟩⟩
    · exact ihinner hchildren
    · exact ihrest hrest
  | case3 column t rest hkind tokens inner ihtokens ihrest =>
    have hsplit := splitRegion_append column t.loc.stop.row rest
    have hall := hinterior h
    rw [← hsplit, ← List.append_assoc] at hall
    obtain ⟨htokens, hafter⟩ := happend hall
    refine List.forall_mem_cons.2 ⟨htokens, List.forall_mem_append.2 ⟨?_, ?_⟩⟩
    · exact ihtokens htokens
    · exact ihrest hafter
  | case4 column t rest hbrace hindented ihchildren ihrest =>
    obtain ⟨hchildren, hrest⟩ := happend (hinterior h)
    refine List.forall_mem_append.2 ⟨?_, ihrest hrest⟩
    split
    · exact ihchildren hchildren
    · exact fun run hrun => absurd hrun List.not_mem_nil

/-! ## From the input to the result -/

/-- The blocks of statements of a laid-out block are the block, if it holds statements, and those in
its interior. -/
theorem Interior.close_blocks {interior : Interior} {t : Token} {run : List Placed}
    (ht : t.kind = .block)
    (hholds : interior.holdsStatements = t.blockKind?.any BlockKind.holdsStatements) :
    (interior.close t run).statementBlocks
      = (if interior.holdsStatements then [interior.close t run] else [])
        ++ statementBlocksAll (run.map Placed.token) := by
  have hkind : (interior.close t run).blockKind? = t.blockKind? := rfl
  have hinside : statementBlocksAll (interior.close t run).children
      = statementBlocksAll (run.map Placed.token) := by
    show statementBlocksAll (if interior.holdsStatements then punctuate interior.rules.column run
      else run.map Placed.token) = _
    split
    · exact punctuate_blocks _ run
    · rfl
  rw [statementBlocks_block (show (interior.close t run).kind = .block from ht), hkind, ← hholds,
    hinside]

/-- The runs among some tokens correspond to the blocks of their arrangement, if each block that is
closed corresponds to the run that it was entered for. Of the tokens may be assumed what they hand
on to the interior of a block and to what follows it. -/
theorem arrange_blocks {I : List Token → Prop} {P : StatementRun → Token → Prop}
    (htail : ∀ {t rest}, I (t :: rest) → I rest)
    (henter : ∀ {r : Rules} {t rest interior}, r.enter t rest = .ok interior → I (t :: rest) →
      I interior.tokens ∧ I interior.rest)
    (hblock : ∀ {r : Rules} {t rest interior run}, r.enter t rest = .ok interior →
      I (t :: rest) → arrange interior.rules interior.tokens = .ok run →
      interior.holdsStatements = true →
      P ⟨interior.rules, interior.tokens⟩ (interior.close t run))
    {r : Rules} {ts : List Token} {run : List Placed} (hts : I ts) (h : arrange r ts = .ok run) :
    List.Forall₂ P (runsInside r.column ts) (statementBlocksAll (run.map Placed.token)) := by
  induction h using arrange_induction with
  | nil =>
    rw [runsInside, List.map_nil, statementBlocksAll]
    exact .nil
  | leaf _ hkind _ ih =>
    rw [runsInside_leaf hkind, List.map_cons, statementBlocksAll, statementBlocks_leaf hkind,
      List.nil_append]
    exact ih (htail hts)
  | block _ hkind hentered hinner _ ihinner ihothers =>
    obtain ⟨htokens, hafter⟩ := henter hentered hts
    rw [runsInside_enter hkind hentered, List.map_cons, statementBlocksAll,
      Interior.close_blocks hkind (Rules.enter_holdsStatements hentered), List.append_assoc]
    refine List.rel_append ?_ (List.rel_append (ihinner htokens) (ihothers hafter))
    split
    · rename_i hholds
      exact .cons (hblock hentered hts hinner hholds) .nil
    · exact .nil

/-- The runs in the blocks of an input correspond to the blocks of its layout, if each block that is
closed corresponds to the run that it was entered for. -/
theorem layout_blocks {I : List Token → Prop} {P : StatementRun → Token → Prop}
    (htail : ∀ {t rest}, I (t :: rest) → I rest)
    (henter : ∀ {r : Rules} {t rest interior}, r.enter t rest = .ok interior → I (t :: rest) →
      I interior.tokens ∧ I interior.rest)
    (hblock : ∀ {r : Rules} {t rest interior run}, r.enter t rest = .ok interior →
      I (t :: rest) → arrange interior.rules interior.tokens = .ok run →
      interior.holdsStatements = true →
      P ⟨interior.rules, interior.tokens⟩ (interior.close t run))
    {ts laid : List Token} (hts : I ts) (h : layout ts = .ok laid) :
    List.Forall₂ P (runsInside (Rules.columnOf 1 ts) ts) (statementBlocksAll laid) := by
  obtain ⟨run, hrun, rfl⟩ := layout_ok h
  rw [punctuate_blocks]
  exact arrange_blocks htail henter hblock hts hrun

/-- The runs of an input become those of its layout. -/
theorem layout_runs {ts laid : List Token} (h : layout ts = .ok laid) :
    List.Forall₂ StatementRun.Becomes (statementRuns ts) (laid :: statementRunsAll laid) := by
  obtain ⟨run, hrun, hlaid⟩ := layout_ok h
  refine .cons ⟨run, hrun, hlaid⟩ ?_
  rw [statementRunsAll_eq, List.forall₂_map_right_iff]
  refine layout_blocks (I := fun _ => True) (fun _ => trivial) (fun _ _ => ⟨trivial, trivial⟩)
    (fun {_ t _ interior run} _ _ hinner hholds => ⟨run, hinner, ?_⟩) trivial h
  show (if interior.holdsStatements then _ else _) = _
  rw [if_pos hholds]

end Layout

end Offside
