import Mathlib
import Offside.Frontend
import Offside.Proofs.Token.Stack

/-!
# Paths through a function body

What control can do in a list of statements, said without the check of `Offside.Check.Returns`, and
what that check makes of it.

* `Exit`: how a path ends; `Statement.Runs`, `Statement.RunsAll`: the paths through a statement, a
  list. A branch goes either way, and a loop repeats its body until an iteration returns or breaks
  out of it. A path that never ends has no exit.
* `Statement.exits`, `Statement.exitsAll`: all exits of a statement, a list, as data.
  `Statement.mem_exitsAll_iff`: these are the exits of its paths, no more and no fewer.
* `Statement.UnmaskedAll`: in no list does a break stand before a statement whose verdict is lower
  and yet not that control passes on. `Statement.rank_le_of_unmaskedAll`: then the verdict of the
  check ranks at least as high as every exit.

The check keeps only the last verdict of a list, so a break before it is forgotten. An accepted
function can therefore fall off its end (`accepted_loop_falls`). It does so exactly if falling is
among its exits, and never if no verdict is masked (`accepted_falls_iff`).
-/

namespace Offside

/-- How a path through statements ends. -/
inductive Exit where
  /-- By returning from the function. -/
  | returns
  /-- By running past the last statement. -/
  | falls
  /-- By a break that leaves the loop `depth` loops outside the innermost one. -/
  | breaks (depth : Nat)
deriving DecidableEq

namespace Exit

/-- The same order as that of `Escape.rank`. -/
def rank : Exit → Int
  | returns => -1
  | falls => 0
  | breaks depth => depth + 1

/-- How a loop is left when an iteration ends so; an iteration that falls is followed by another. -/
def ofLoop : Exit → Option Exit
  | returns => some returns
  | falls => none
  | breaks 0 => some falls
  | breaks (depth + 1) => some (breaks depth)

/-- A verdict on the body that ranks as high as its exits gives one on the loop that does. -/
theorem rank_le_ofLoop {x o : Exit} {e : Escape} (h : x.rank ≤ e.rank) (ho : x.ofLoop = some o) :
    o.rank ≤ e.ofLoop.rank := by
  rcases x with _ | _ | (_ | d)
  · simp only [ofLoop, Option.some.injEq] at ho
    subst ho
    rcases e with _ | _ | (_ | d) <;> simp [rank, Escape.ofLoop, Escape.rank]
    omega
  · simp [ofLoop] at ho
  all_goals
    simp only [ofLoop, Option.some.injEq] at ho
    subst ho
    rcases e with _ | _ | (_ | d') <;> simp [rank, Escape.ofLoop, Escape.rank] at h ⊢ <;> omega

end Exit

/-- The worse of two verdicts ranks at least as high as the first. -/
theorem Escape.rank_le_worse_left (a b : Escape) : a.rank ≤ (a.worse b).rank := by
  unfold worse
  split
  · assumption
  · exact Int.le_refl _

/-- The worse of two verdicts ranks at least as high as the second. -/
theorem Escape.rank_le_worse_right (a b : Escape) : b.rank ≤ (a.worse b).rank := by
  unfold worse
  split
  · exact Int.le_refl _
  · omega

namespace Statement

/-! ## Paths -/

mutual

/-- There is a path through the statement that ends so. -/
inductive Runs : Statement → Exit → Prop
  /-- An assignment passes control on. -/
  | assign (loc : Location) (target : Place) (value : Expr) : Runs (assign loc target value) .falls
  /-- A call passes control on. -/
  | call (loc : Location) (style : CallStyle) (function : Expr) (args : List Expr) :
    Runs (call loc style function args) .falls
  /-- A binding passes control on. -/
  | letBind (loc : Location) (bindings : List Binding) : Runs (letBind loc bindings) .falls
  /-- A return ends the function. -/
  | returnValue (loc : Location) (value : Expr) : Runs (returnValue loc value) .returns
  /-- A break leaves its loop. -/
  | breakLoop (loc : Location) (depth : Nat) : Runs (breakLoop loc depth) (.breaks depth)
  /-- A block ends as its body does. -/
  | nested {loc : Location} {body : List Statement} {o : Exit} :
    RunsAll body o → Runs (nested loc body) o
  /-- A branch can go the first way. -/
  | yes {loc : Location} {condition : Expr} {yes no : List Statement} {o : Exit} :
    RunsAll yes o → Runs (branch loc condition yes no) o
  /-- A branch can go the second way. -/
  | no {loc : Location} {condition : Expr} {yes no : List Statement} {o : Exit} :
    RunsAll no o → Runs (branch loc condition yes no) o
  /-- An iteration that falls is followed by another. -/
  | again {loc : Location} {label? : Option String} {body : List Statement} {o : Exit} :
    RunsAll body .falls → Runs (forever loc label? body) o → Runs (forever loc label? body) o
  /-- An iteration that returns or breaks ends the loop. -/
  | leave {loc : Location} {label? : Option String} {body : List Statement} {x o : Exit} :
    RunsAll body x → x.ofLoop = some o → Runs (forever loc label? body) o

/-- There is a path through the statements that ends so. -/
inductive RunsAll : List Statement → Exit → Prop
  /-- Where there is nothing to run, control passes on. -/
  | nil : RunsAll [] .falls
  /-- A statement that passes control on is followed by the next. -/
  | next {s : Statement} {ss : List Statement} {o : Exit} :
    Runs s .falls → RunsAll ss o → RunsAll (s :: ss) o
  /-- Otherwise the statements after it are not reached. -/
  | stop {s : Statement} {ss : List Statement} {o : Exit} :
    Runs s o → o ≠ .falls → RunsAll (s :: ss) o

end

/-- The paths through a block are those through its body. -/
theorem runs_nested_iff {loc : Location} {body : List Statement} {o : Exit} :
    Runs (nested loc body) o ↔ RunsAll body o := by
  constructor
  · rintro (⟨⟩ : Runs _ _)
    assumption
  · exact .nested

/-- The paths through a branch are those through either way. -/
theorem runs_branch_iff {loc : Location} {condition : Expr} {yes no : List Statement} {o : Exit} :
    Runs (branch loc condition yes no) o ↔ RunsAll yes o ∨ RunsAll no o := by
  constructor
  · intro h
    cases h with
    | yes h => exact Or.inl h
    | no h => exact Or.inr h
  · rintro (h | h)
    · exact .yes h
    · exact .no h

/-- A loop is left by its last iteration, however often it went round before. -/
theorem Runs.of_forever {s : Statement} {o : Exit} (h : Runs s o) {loc : Location}
    {label? : Option String} {body : List Statement} (hs : s = forever loc label? body) :
    ∃ x, RunsAll body x ∧ x.ofLoop = some o := by
  match h with
  | .again _ h => exact h.of_forever hs
  | .leave hx ho =>
    cases hs
    exact ⟨_, hx, ho⟩

/-- The paths through a loop are those on which an iteration leaves it. -/
theorem runs_forever_iff {loc : Location} {label? : Option String} {body : List Statement}
    {o : Exit} :
    Runs (forever loc label? body) o ↔ ∃ x, RunsAll body x ∧ x.ofLoop = some o := by
  constructor
  · exact fun h => h.of_forever rfl
  · rintro ⟨x, hx, ho⟩
    exact .leave hx ho

/-- Either the first statement ends the path, or it falls and the others are run. -/
theorem runsAll_cons_iff {s : Statement} {ss : List Statement} {o : Exit} :
    RunsAll (s :: ss) o ↔ Runs s o ∧ o ≠ .falls ∨ Runs s .falls ∧ RunsAll ss o := by
  constructor
  · intro h
    cases h with
    | next hs hss => exact Or.inr ⟨hs, hss⟩
    | stop hs ho => exact Or.inl ⟨hs, ho⟩
  · rintro (⟨hs, ho⟩ | ⟨hs, hss⟩)
    · exact .stop hs ho
    · exact .next hs hss

/-! ## All exits -/

mutual

/-- The exits of a statement. -/
def exits : Statement → List Exit
  | returnValue .. => [.returns]
  | breakLoop _ depth => [.breaks depth]
  | forever _ _ body => (exitsAll body).filterMap Exit.ofLoop
  | branch _ _ yes no => exitsAll yes ++ exitsAll no
  | nested _ body => exitsAll body
  | assign .. | call .. | letBind .. => [.falls]

/-- The exits of a list of statements: those of the first, and if it can fall, those of the
others. -/
def exitsAll : List Statement → List Exit
  | [] => [.falls]
  | s :: ss =>
    (exits s).filter (· ≠ .falls) ++ if Exit.falls ∈ exits s then exitsAll ss else []

end

mutual

/-- The exits of a statement are those of its paths. -/
theorem mem_exits_iff : (s : Statement) → ∀ o, o ∈ exits s ↔ Runs s o
  | returnValue loc value, o => by
    rw [exits, List.mem_singleton]
    constructor
    · rintro rfl
      exact .returnValue loc value
    · rintro (⟨⟩ : Runs _ _)
      rfl
  | breakLoop loc depth, o => by
    rw [exits, List.mem_singleton]
    constructor
    · rintro rfl
      exact .breakLoop loc depth
    · rintro (⟨⟩ : Runs _ _)
      rfl
  | assign loc target value, o => by
    rw [exits, List.mem_singleton]
    constructor
    · rintro rfl
      exact .assign loc target value
    · rintro (⟨⟩ : Runs _ _)
      rfl
  | call loc style function args, o => by
    rw [exits, List.mem_singleton]
    constructor
    · rintro rfl
      exact .call loc style function args
    · rintro (⟨⟩ : Runs _ _)
      rfl
  | letBind loc bindings, o => by
    rw [exits, List.mem_singleton]
    constructor
    · rintro rfl
      exact .letBind loc bindings
    · rintro (⟨⟩ : Runs _ _)
      rfl
  | nested loc body, o => by
    rw [exits, runs_nested_iff, mem_exitsAll_iff body o]
  | branch loc condition yes no, o => by
    rw [exits, runs_branch_iff, List.mem_append, mem_exitsAll_iff yes o, mem_exitsAll_iff no o]
  | forever loc label? body, o => by
    rw [exits, runs_forever_iff, List.mem_filterMap]
    simp only [mem_exitsAll_iff body]

/-- The exits of a list of statements are those of its paths. -/
theorem mem_exitsAll_iff : (ss : List Statement) → ∀ o, o ∈ exitsAll ss ↔ RunsAll ss o
  | [], o => by
    rw [exitsAll, List.mem_singleton]
    constructor
    · rintro rfl
      exact .nil
    · rintro ⟨⟩
      rfl
  | s :: ss, o => by
    have hs := mem_exits_iff s
    have hss := mem_exitsAll_iff ss o
    rw [exitsAll, runsAll_cons_iff, List.mem_append, List.mem_filter, decide_eq_true_iff, hs o]
    by_cases hf : Exit.falls ∈ exits s
    · rw [if_pos hf, hss]
      simp only [(hs _).1 hf, true_and]
    · rw [if_neg hf]
      simp only [mt (hs _).2 hf, false_and, List.not_mem_nil]

end

/-! ## Masked breaks -/

mutual

/-- No list inside the statement masks a break. -/
def Unmasked : Statement → Prop
  | forever _ _ body => UnmaskedAll body
  | branch _ _ yes no => UnmaskedAll yes ∧ UnmaskedAll no
  | nested _ body => UnmaskedAll body
  | _ => True

/-- The list masks no break: what is decided after a statement is either that control passes on, or
ranks at least as high as what is decided of the statement. Nor does any list inside it. -/
def UnmaskedAll : List Statement → Prop
  | [] => True
  | s :: ss =>
    Unmasked s ∧ UnmaskedAll ss ∧
      (escapeAll ss = .falls ∨ (escape s).rank ≤ 0 ∨ (escape s).rank ≤ (escapeAll ss).rank)

end

/-- No verdict ranks lower than returning. -/
theorem neg_one_le_rank (e : Escape) : -1 ≤ e.rank := by
  cases e <;> simp only [Escape.rank] <;> omega

/-- An exit other than falling that ranks no higher than it is a return. -/
theorem rank_eq_of_le_zero {o : Exit} (ho : o ≠ .falls) (h : o.rank ≤ 0) : o.rank = -1 := by
  cases o with
  | returns => rfl
  | falls => exact absurd rfl ho
  | breaks d =>
    simp only [Exit.rank] at h
    omega

mutual

/-- If no verdict is masked, that on a statement ranks at least as high as its exits. -/
theorem rank_le_of_unmasked : (s : Statement) → Unmasked s → ∀ o, Runs s o →
    o.rank ≤ (escape s).rank
  | returnValue .., _, o, h => by
    cases h
    rw [escape]
    exact Int.le_refl _
  | breakLoop .., _, o, h => by
    cases h
    rw [escape]
    exact Int.le_refl _
  | assign .., _, o, h => by
    cases h
    rw [escape]
    exact Int.le_refl _
  | call .., _, o, h => by
    cases h
    rw [escape]
    exact Int.le_refl _
  | letBind .., _, o, h => by
    cases h
    rw [escape]
    exact Int.le_refl _
  | nested _ body, hu, o, h => by
    rw [Unmasked] at hu
    rw [escape]
    exact rank_le_of_unmaskedAll body hu o (runs_nested_iff.1 h)
  | branch _ _ yes no, hu, o, h => by
    rw [Unmasked] at hu
    rw [escape]
    rcases runs_branch_iff.1 h with h | h
    · exact Int.le_trans (rank_le_of_unmaskedAll yes hu.1 o h) (Escape.rank_le_worse_left _ _)
    · exact Int.le_trans (rank_le_of_unmaskedAll no hu.2 o h) (Escape.rank_le_worse_right _ _)
  | forever _ _ body, hu, o, h => by
    rw [Unmasked] at hu
    rw [escape]
    obtain ⟨x, hx, ho⟩ := runs_forever_iff.1 h
    exact Exit.rank_le_ofLoop (rank_le_of_unmaskedAll body hu x hx) ho

/-- If no verdict is masked, that on a list ranks at least as high as its exits. -/
theorem rank_le_of_unmaskedAll : (ss : List Statement) → UnmaskedAll ss → ∀ o, RunsAll ss o →
    o.rank ≤ (escapeAll ss).rank
  | [], _, o, h => by
    cases h
    rw [escapeAll]
    exact Int.le_refl _
  | s :: ss, hu, o, h => by
    rw [UnmaskedAll] at hu
    obtain ⟨hs, hss, hmask⟩ := hu
    have ihs := rank_le_of_unmasked s hs
    have ihss := rank_le_of_unmaskedAll ss hss
    rw [escapeAll]
    split
    · -- the others decide nothing, so the first statement does
      rename_i hfalls
      rcases runsAll_cons_iff.1 h with ⟨h, -⟩ | ⟨h, h'⟩
      · exact ihs o h
      · have hle := ihss o h'
        rw [hfalls] at hle
        exact Int.le_trans hle (ihs .falls h)
    · rename_i hfalls
      rcases runsAll_cons_iff.1 h with ⟨h, ho⟩ | ⟨-, h'⟩
      · rcases hmask with hmask | hmask | hmask
        · exact absurd hmask hfalls
        · rw [rank_eq_of_le_zero ho (Int.le_trans (ihs o h) hmask)]
          exact neg_one_le_rank _
        · exact Int.le_trans (ihs o h) hmask
      · exact ihss o h'

end

end Statement

/-! ## Accepted functions -/

/-- The body of an accepted function has the verdict that it returns. -/
theorem escapeAll_eq_settled_of_checkReturns {declarations : List Declaration}
    (h : checkReturns declarations = .ok ()) {loc : Location} {name : String}
    {params : List Reference} {result : TypeExpr} {body : List Statement}
    (hf : Declaration.function loc name params result body ∈ declarations) :
    Statement.escapeAll body = .settled := by
  induction declarations with
  | nil => exact absurd hf List.not_mem_nil
  | cons d rest ih =>
    cases d with
    | letBind =>
      rw [checkReturns] at h
      exact ih h ((List.mem_cons.1 hf).resolve_left (by simp))
    | function =>
      rw [checkReturns] at h
      split at h
      · rename_i hb
        rcases List.mem_cons.1 hf with heq | hf
        · cases heq
          unfold bodyViolation? at hb
          split at hb
          · assumption
          · cases hb
          · cases hb
        · exact ih h hf
      · cases h

/-- An accepted function falls off its end on some path exactly if falling is among its exits, and
on none if no break in it is masked. -/
theorem accepted_falls_iff {declarations : List Declaration}
    (h : checkReturns declarations = .ok ()) {loc : Location} {name : String}
    {params : List Reference} {result : TypeExpr} {body : List Statement}
    (hf : Declaration.function loc name params result body ∈ declarations) :
    (Statement.RunsAll body .falls ↔ Exit.falls ∈ Statement.exitsAll body) ∧
      (Statement.UnmaskedAll body → ¬ Statement.RunsAll body .falls) := by
  refine ⟨(Statement.mem_exitsAll_iff body .falls).symm, fun hu hfalls => ?_⟩
  have hle := Statement.rank_le_of_unmaskedAll body hu .falls hfalls
  rw [escapeAll_eq_settled_of_checkReturns h hf] at hle
  exact absurd hle (by decide)

/-- A loop that is left by its last statement masks nothing, and the function returns after it. -/
theorem accepted_loop_returns :
    checkReturns [.function (.point .origin) "f" [] (.ground (.point .origin) .immutable .unit)
        [.forever (.point .origin) none [.breakLoop (.point .origin) 0],
          .returnValue (.point .origin) (.number (.point .origin) "1")]] = .ok () ∧
      ¬ Statement.RunsAll
        [.forever (.point .origin) none [.breakLoop (.point .origin) 0],
          .returnValue (.point .origin) (.number (.point .origin) "1")] .falls := by
  refine and_iff_left_of_imp (fun h => ?_) |>.2 rfl
  refine (accepted_falls_iff h (List.mem_singleton.2 rfl)).2 ?_
  simp [Statement.UnmaskedAll, Statement.Unmasked, Statement.escapeAll, Statement.escape,
    Escape.ofLoop, Escape.rank]

/-- A return after a break masks it: this function is accepted, and yet it falls off its end. -/
theorem accepted_loop_falls :
    ∃ loc name params result body,
      Frontend.compile false "def f() () \x7b forever \x7b break; return 1 \x7d \x7d"
          = .ok [.function loc name params result body] ∧
        Statement.RunsAll body .falls := by
  refine ⟨⟨⟨1, 1⟩, ⟨1, 43⟩, by decide⟩, "f", [],
    .ground ⟨⟨1, 9⟩, ⟨1, 11⟩, by decide⟩ .immutable .unit,
    [.forever ⟨⟨1, 14⟩, ⟨1, 41⟩, by decide⟩ none
      [.breakLoop ⟨⟨1, 24⟩, ⟨1, 29⟩, by decide⟩ 0,
        .returnValue ⟨⟨1, 31⟩, ⟨1, 39⟩, by decide⟩
          (.number ⟨⟨1, 38⟩, ⟨1, 39⟩, by decide⟩ "1")]], ?_, ?_⟩
  · rw [Frontend.compile, Frontend.tokenize, Token.ofSource_eq_trees]
    cbv
  · rw [← Statement.mem_exitsAll_iff]
    decide

end Offside
