import Offside.Proofs.Frontend.BlockForms

/-!
# Which statements are printed faithfully

Statements are printed one after another, each on lines of its own. They are read back as what they
are unless a call among them, at any depth, begins with a conditional expression.

* `Statement.Inside`: a statement is one of some statements, or stands in a block of one of them, at
  any depth.
* `Statement.IsConditionalCall`: the call of a binary operator whose left operand is a conditional
  expression. `Statement.misreadAny_iff`: these calls are what is misread.
* `Frontend.printed_statements_read_iff`: printing statements that are read is faithful exactly if
  no such call is inside them.
-/

namespace Offside

namespace Statement

/-! ## Calls at any depth -/

/-- A statement is one of some statements, or stands in a block of one of them, at any depth. -/
inductive Inside (x : Statement) : List Statement → Prop
  /-- It is one of them. -/
  | here {xs : List Statement} (h : x ∈ xs) : Inside x xs
  /-- It stands in the body of a loop. -/
  | loop {xs : List Statement} {loc : Location} {label? : Option String} {body : List Statement}
    (hs : forever loc label? body ∈ xs) (h : Inside x body) : Inside x xs
  /-- It stands in the first way of a branch. -/
  | yes {xs : List Statement} {loc : Location} {condition : Expr} {yes no : List Statement}
    (hs : branch loc condition yes no ∈ xs) (h : Inside x yes) : Inside x xs
  /-- It stands in the second way of a branch. -/
  | no {xs : List Statement} {loc : Location} {condition : Expr} {yes no : List Statement}
    (hs : branch loc condition yes no ∈ xs) (h : Inside x no) : Inside x xs
  /-- It stands in a block. -/
  | block {xs : List Statement} {loc : Location} {body : List Statement}
    (hs : nested loc body ∈ xs) (h : Inside x body) : Inside x xs

/-- What is inside some statements is inside more of them. -/
theorem Inside.mono {x : Statement} {xs ys : List Statement} (h : Inside x xs) (hsub : xs ⊆ ys) :
    Inside x ys := by
  cases h with
  | here h => exact .here (hsub h)
  | loop hs h => exact .loop (hsub hs) h
  | yes hs h => exact .yes (hsub hs) h
  | no hs h => exact .no (hsub hs) h
  | block hs h => exact .block (hsub hs) h

/-- The call of a binary operator on two operands, of which the left one is a conditional
expression. -/
def IsConditionalCall (x : Statement) : Prop :=
  ∃ loc nameLoc name condLoc condition yes no right,
    x = call loc .curried (.ident nameLoc name) [.ifThen condLoc condition yes no, right] ∧
      (bindingPower? name).isSome = true

/-- A call is misread if it is the call of an operator on a conditional expression. -/
theorem beginsWithConditional_iff {loc : Location} {style : CallStyle} {function : Expr}
    {args : List Expr} : beginsWithConditional style function args = true ↔
      IsConditionalCall (call loc style function args) := by
  constructor
  · intro h
    unfold beginsWithConditional at h
    split at h
    · rename_i left right
      obtain ⟨hfunction, hleft⟩ := Bool.and_eq_true_iff.1 h
      cases function <;> try cases hfunction
      rename_i nameLoc name
      cases left <;> try cases hleft
      refine ⟨loc, nameLoc, name, _, _, _, _, right, rfl, ?_⟩
      by_contra hname
      rw [Expr.operator?, if_neg hname] at hfunction
      cases hfunction
    · cases h
  · rintro ⟨_, nameLoc, name, condLoc, condition, yes, no, right, heq, hname⟩
    cases heq
    rw [beginsWithConditional, Expr.operator?, if_pos hname]
    rfl

mutual

/-- A statement that is misread is, or holds, the call of an operator on a conditional
expression. -/
theorem exists_inside_of_misread : (s : Statement) → s.misread = true →
    ∃ x, Inside x [s] ∧ x.IsConditionalCall
  | call loc style function args, h => by
    rw [misread] at h
    exact ⟨_, .here List.mem_cons_self, beginsWithConditional_iff.1 h⟩
  | forever loc label? body, h => by
    rw [misread] at h
    obtain ⟨x, hx, hcall⟩ := exists_inside_of_misreadAny body h
    exact ⟨x, .loop List.mem_cons_self hx, hcall⟩
  | branch loc condition yes no, h => by
    rw [misread, Bool.or_eq_true_iff] at h
    rcases h with h | h
    · obtain ⟨x, hx, hcall⟩ := exists_inside_of_misreadAny yes h
      exact ⟨x, .yes List.mem_cons_self hx, hcall⟩
    · obtain ⟨x, hx, hcall⟩ := exists_inside_of_misreadAny no h
      exact ⟨x, .no List.mem_cons_self hx, hcall⟩
  | nested loc body, h => by
    rw [misread] at h
    obtain ⟨x, hx, hcall⟩ := exists_inside_of_misreadAny body h
    exact ⟨x, .block List.mem_cons_self hx, hcall⟩
  | assign .., h | breakLoop .., h | letBind .., h | returnValue .., h => by
    rw [misread] at h
    cases h

/-- Among statements of which one is misread there is, at some depth, the call of an operator on a
conditional expression. -/
theorem exists_inside_of_misreadAny : (ss : List Statement) → misreadAny ss = true →
    ∃ x, Inside x ss ∧ x.IsConditionalCall
  | [], h => by
    rw [misreadAny] at h
    cases h
  | s :: ss, h => by
    rw [misreadAny, Bool.or_eq_true_iff] at h
    rcases h with h | h
    · obtain ⟨x, hx, hcall⟩ := exists_inside_of_misread s h
      exact ⟨x, hx.mono (List.cons_subset_cons s (List.nil_subset ss)), hcall⟩
    · obtain ⟨x, hx, hcall⟩ := exists_inside_of_misreadAny ss h
      exact ⟨x, hx.mono (List.subset_cons_self s ss), hcall⟩

end

/-- One of some statements is misread exactly if a call of an operator on a conditional expression
is inside them. -/
theorem misreadAny_iff {xs : List Statement} :
    misreadAny xs = true ↔ ∃ x, Inside x xs ∧ x.IsConditionalCall := by
  have hany {s : Statement} {ss : List Statement} (hs : s ∈ ss) (h : s.misread = true) :
      misreadAny ss = true := by
    rw [misreadAny_eq]
    exact List.any_eq_true.2 ⟨s, hs, h⟩
  refine ⟨exists_inside_of_misreadAny xs, ?_⟩
  rintro ⟨x, hx, hcall⟩
  induction hx with
  | here hs =>
    refine hany hs ?_
    obtain ⟨_, _, _, _, _, _, _, _, rfl, -⟩ := id hcall
    rw [misread]
    exact beginsWithConditional_iff.2 hcall
  | loop hs _ ih => exact hany hs (by rw [misread]; exact ih)
  | yes hs _ ih => exact hany hs (by rw [misread, ih, Bool.true_or])
  | no hs _ ih => exact hany hs (by rw [misread, ih, Bool.or_true])
  | block hs _ ih => exact hany hs (by rw [misread]; exact ih)

end Statement

/-! ## Whole texts -/

namespace Frontend

/-- Printing statements is faithful exactly if no call of an operator on a conditional expression
is inside them: then, and only then, the text that they are printed as is read to the same
statements up to locations. -/
theorem printed_statements_read_iff {source : String} {xs : List Statement}
    (h : read parseStatements source = .ok xs) :
    (∃ ys, read parseStatements (printStatements xs) = .ok ys ∧
        ys.map Statement.erase = xs.map Statement.erase) ↔
      ¬ ∃ x, Statement.Inside x xs ∧ x.IsConditionalCall := by
  obtain ⟨tokens, laidOut, hlex, hlayout, hparse⟩ := read_ok_iff.1 h
  have hprintable := (statements_from_of_parseStatements (ordered_of_source hlex hlayout)
    hparse).printable fun _ h => absurd h List.not_mem_nil
  obtain ⟨raw, printed, b, hlex', hlayout', hitems⟩ := laidOut_of_printsLines
    (fun x hx => (hprintable x hx).lines) (show Breaks 1 "\n".toList from breaks_lineBreak 0)
  rw [← Statement.printAll_eq] at hlex'
  have hread := read_rereads hlex' hlayout' hitems
  rw [← Statement.misreadAny_iff, Statement.misreadAny_eq, Bool.not_eq_true]
  cases hbad : xs.any Statement.misread with
  | false =>
    rw [hbad] at hread
    exact ⟨fun _ => rfl, fun _ => hread⟩
  | true =>
    rw [hbad] at hread
    obtain ⟨e, he⟩ := hread
    refine ⟨?_, fun hgood => nomatch hgood⟩
    rintro ⟨ys, hys, -⟩
    exact nomatch he.symm.trans hys

/-- Conditional expressions as an argument and as a right operand are read back; as a left operand,
in the second way of a branch, one is not. -/
theorem printed_statements_read_branch :
    (∃ xs, read parseStatements ("forever do\n  f (if c \x7b 1 \x7d else \x7b 2 \x7d)\n"
          ++ "  a + if c \x7b 1 \x7d else \x7b 2 \x7d") = .ok xs ∧
      ∃ ys, read parseStatements (printStatements xs) = .ok ys ∧
        ys.map Statement.erase = xs.map Statement.erase) ∧
    ∃ xs, read parseStatements
        "if p \x7b\x7d else \x7b (if c \x7b 1 \x7d else \x7b 2 \x7d) + a \x7d" = .ok xs ∧
      ¬ ∃ ys, read parseStatements (printStatements xs) = .ok ys ∧
        ys.map Statement.erase = xs.map Statement.erase := by
  constructor
  · obtain ⟨xs, hread, hgood⟩ : ∃ xs, read parseStatements
        ("forever do\n  f (if c \x7b 1 \x7d else \x7b 2 \x7d)\n"
          ++ "  a + if c \x7b 1 \x7d else \x7b 2 \x7d") = .ok xs ∧
        (!Statement.misreadAny xs) = true := exists_ok_of_any (by decide +kernel)
    rw [Bool.not_eq_true', ← Bool.not_eq_true, Statement.misreadAny_iff] at hgood
    exact ⟨xs, hread, (printed_statements_read_iff hread).2 hgood⟩
  · obtain ⟨xs, hread, hbad⟩ : ∃ xs, read parseStatements
        "if p \x7b\x7d else \x7b (if c \x7b 1 \x7d else \x7b 2 \x7d) + a \x7d" = .ok xs ∧
        Statement.misreadAny xs = true := exists_ok_of_any (by decide +kernel)
    exact ⟨xs, hread, fun hfaithful =>
      (printed_statements_read_iff hread).1 hfaithful (Statement.misreadAny_iff.1 hbad)⟩

end Frontend

end Offside
