import Offside.Proofs.Frontend.Concatenation
import Offside.Proofs.Printing.Outlines
import Offside.Proofs.Printing.Programs

/-!
# Braces and indentation

Statements can be written with their blocks in braces or with their blocks indented after a `do`.
Layout and the grammar treat both alike.

* `Statement.outline`, `outlineStatements`: statements as source text with a `do` in place of each
  pair of braces, and each `else` on a line of its own.
* `Statement.Outlined`: a statement is outlined as lines that are laid out and read back as this
  statement up to locations, or not at all if it is misread. One lemma for each form with blocks says
  that the form is outlined if the statements in its blocks are.
* `Frontend.read_rereads`: a text whose tokens are read back as some statements.
* `Frontend.read_blockForms`: both texts of statements that are read are read to these statements up
  to locations, or neither is read.
-/

namespace Offside

open Token Parse Printing Scanner

/-! ## The text -/

namespace Statement

mutual

/-- A statement as source text with indented blocks. -/
def outline (loops : List (Option String)) : Statement → String
  | forever _ label? body =>
    foreverText label? ++ doText ("\n".intercalate (outlineAll (label? :: loops) body))
  | branch _ condition yes no =>
    "if " ++ condition.print ++ " " ++ doText ("\n".intercalate (outlineAll loops yes))
      ++ if no.isEmpty then ""
        else "\nelse " ++ doText ("\n".intercalate (outlineAll loops no))
  | nested _ body => doText ("\n".intercalate (outlineAll loops body))
  | line => print loops line

/-- Some statements as source text with indented blocks. -/
def outlineAll (loops : List (Option String)) : List Statement → List String
  | [] => []
  | x :: xs => outline loops x :: outlineAll loops xs

end

end Statement

/-- Some statements as source text with indented blocks, one after another. -/
def outlineStatements (statements : List Statement) : String :=
  "\n".intercalate (Statement.outlineAll [] statements)

/-! ## Every statement -/

namespace Statement

/-- A statement inside some loops is outlined as lines that are read back, unless it is misread. -/
def Outlined (loops : List (Option String)) (x : Statement) : Prop :=
  OutlinedAnywhere (outline loops) (Rereads loops) x

variable {loops : List (Option String)} {xs ys : List Statement}

theorem outlineAll_eq (loops : List (Option String)) (xs : List Statement) :
    outlineAll loops xs = xs.map (outline loops) := by
  induction xs with
  | nil => rw [outlineAll, List.map_nil]
  | cons x xs ih => rw [outlineAll, List.map_cons, ih]

/-- A statement without blocks has only one form. -/
theorem outline_of_isLine {x : Statement} (h : x.isLine = true) : outline loops x = print loops x := by
  cases x
  case forever | branch | nested => cases h
  all_goals simp only [outline]

/-- The text of an indented block of statements. -/
def doLines (loops : List (Option String)) (xs : List Statement) : List Char :=
  (doText ("\n".intercalate (outlineAll loops xs))).toList

/-- A line that ends with a `do`, and an indented block of statements. -/
theorem doLines_outline (h : ∀ x ∈ xs, Outlined loops x) {n : Nat} {s : Scanner}
    {header : List Char} {ts : List Token} (hheader : Header s header ts)
    (hcol : s.cursor.col = n + 1) :
    ∃ raw block inner b, Outline (n + 1) s (shiftBy n (header ++ doLines loops xs)) raw
        (ts ++ [block]) (ts ++ [block]) ∧
      block.IsBodyOf inner ∧ Separated .semicolon (Rereads loops) b inner xs := by
  rw [doLines, outlineAll_eq, shiftBy_append, shiftBy_oneLine n hheader.piece.line]
  exact do_outlined h hheader hcol

theorem outlined_nested (h : ∀ x ∈ xs, Outlined loops x) (l : Location) :
    Outlined loops (.nested l xs) := by
  intro n s hs hcol
  obtain ⟨raw, block, inner, b, houtline, hblock, hxs⟩ := doLines_outline h (header_nil hs) hcol
  have htext : (outline loops (.nested l xs)).toList = [] ++ doLines loops xs := by
    rw [outline, doLines, List.nil_append]
  rw [← htext] at houtline
  exact ⟨raw, _, _, houtline, rereads_nested hblock hxs l⟩

theorem outlined_forever {label? : Option String}
    (hlabel : ∀ label, label? = some label → IsName label)
    (h : ∀ x ∈ xs, Outlined (label? :: loops) x) (l : Location) :
    Outlined loops (.forever l label? xs) := by
  intro n s hs hcol
  obtain ⟨t, u?, hfragment, ht, hname, hkind⟩ := foreverText_fragment hlabel s
  obtain ⟨raw, block, inner, b, houtline, hblock, hxs⟩ := doLines_outline h hfragment.header hcol
  have htext : (outline loops (.forever l label? xs)).toList
      = Reserved.forever.text.toList ++ (label?.elim [] fun label => ' ' :: label.toList) ++ [' ']
        ++ doLines (label? :: loops) xs := by
    rw [outline, doLines]
    cases label? <;> simp [foreverText, Reserved.text]
  rw [← htext] at houtline
  subst hname
  exact ⟨raw, _, _, houtline, rereads_forever ht hkind hblock hxs l⟩

theorem outlined_branch {condition : Expr} (hcondition : condition.Printable)
    (hyes : ∀ x ∈ xs, Outlined loops x) (hno : ∀ x ∈ ys, Outlined loops x) (l : Location) :
    Outlined loops (.branch l condition xs ys) := by
  intro n s hs hcol
  obtain ⟨t, us, hfragment, ht, htest⟩ := ifText_fragment hcondition s
  obtain ⟨raw, block, inner, b, houtline, hblock, hxs⟩ :=
    doLines_outline hyes hfragment.header hcol
  by_cases hempty : ys = []
  · subst hempty
    have htext : (outline loops (.branch l condition xs [])).toList
        = Reserved.ifThen.text.toList ++ [' '] ++ condition.print.toList ++ [' ']
          ++ doLines loops xs := by
      rw [outline, doLines]
      simp [Reserved.text]
    rw [← htext] at houtline
    exact ⟨raw, _, _, houtline, rereads_branch ht htest hblock hxs l⟩
  · -- layout puts a semicolon before the line of the `else`
    obtain ⟨other, helse, hother⟩ := Fragment.keyword (s.past _ true)
      (show Reserved.otherwise ∈ Reserved.keywords by decide)
    obtain ⟨raw', block', inner', b', houtline', hblock', hys⟩ :=
      doLines_outline hno helse.header
        (show (s.past (_ ++ lineBreak n) true).cursor.col = n + 1 by
          rw [past_cursor, Cursor.after_append, Cursor.after_lineBreak])
    obtain ⟨l', hwhole⟩ := houtline.append houtline'
    have htext : shiftBy n (outline loops (.branch l condition xs ys)).toList
        = shiftBy n (Reserved.ifThen.text.toList ++ [' '] ++ condition.print.toList ++ [' ']
            ++ doLines loops xs) ++ lineBreak n
          ++ shiftBy n (Reserved.otherwise.text.toList ++ [' '] ++ doLines loops ys) := by
      have hsome : ys.isEmpty = false := List.isEmpty_eq_false_iff.2 hempty
      have houtline : (outline loops (.branch l condition xs ys)).toList
          = (Reserved.ifThen.text.toList ++ [' '] ++ condition.print.toList ++ [' ']
              ++ doLines loops xs) ++ lineBreak 0
            ++ (Reserved.otherwise.text.toList ++ [' '] ++ doLines loops ys) := by
        rw [outline, hsome, doLines, doLines]
        simp [Reserved.text, lineBreak, spaces]
      rw [houtline, shiftBy_append, shiftBy_append, shiftBy_lineBreak]
      rfl
    rw [← htext] at hwhole
    refine ⟨_, _, _, hwhole, ?_⟩
    have hrereads := rereads_branchElse ht htest hblock hxs
      ⟨other, isReserved_iff.2 hother, .inr ⟨Token.semicolon l', rfl, rfl⟩⟩ hblock' hys l
    simpa using hrereads

theorem outlined_hereditary : Hereditary Outlined where
  line := by
    intro loops x hline h n s hs hcol
    rw [outline_of_isLine hline]
    exact h.outlined n s hs hcol
  nested := outlined_nested
  forever := outlined_forever
  branch := outlined_branch

end Statement

/-! ## Whole texts -/

namespace Frontend

/-- A text whose tokens are read back as some statements is read to these statements up to locations,
unless one of them is misread; then it is not read. -/
theorem read_rereads {source : String} {raw tokens : List Token} {b : Bool} {xs : List Statement}
    (hlex : Token.ofSource source = .ok raw) (hlayout : Layout.layout raw = .ok tokens)
    (hitems : Separated .semicolon (Statement.Rereads []) b tokens xs) :
    if xs.any Statement.misread then ∃ e, read parseStatements source = .error e
    else ∃ ys, read parseStatements source = .ok ys ∧
      ys.map Statement.erase = xs.map Statement.erase := by
  have hread : read parseStatements source
      = (parseStatements (sourceSpan source) tokens).mapError (Failure.map .parse) := by
    unfold read tokenize layOut
    rw [hlex]
    show ((Layout.layout raw).mapError _).bind _ = _
    rw [hlayout]
    rfl
  have houtcome : Parse.Outcome (xs.any Statement.misread)
      (sequence (Statement.parse 0) (.ofTokens (sourceSpan source) tokens))
      ((Parser.ofTokens (sourceSpan source) tokens).passAll tokens)
      fun ys => ys.map Statement.erase = xs.map Statement.erase := by
    refine sequence_outcome ?_ (fun _ _ h => h.ne_nil) hitems rfl rfl
    intro ts x p rest hrereads hloops hp hrest
    have hweight : totalWeight ts ≤ p.weight := by
      rw [Parser.weight, hp, totalWeight_append]
      exact Nat.le_add_right _ _
    exact hrereads.parse p.weight p rest hweight hloops hp
      (Statement.Rereads.ends_of_follows (fun _ _ h => h) hrest)
  have hresult := houtcome.result
  rw [hread, parseStatements]
  cases hbad : xs.any Statement.misread with
  | true =>
    rw [hbad] at hresult
    obtain ⟨e, he⟩ := hresult
    rw [he]
    exact ⟨_, rfl⟩
  | false =>
    rw [hbad] at hresult
    obtain ⟨ys, hys, herase⟩ := hresult
    rw [hys]
    exact ⟨ys, rfl, herase⟩

/-- Braces and indentation are interchangeable: statements that are read are printed with braces and
outlined with `do` as two texts that are both read to the same statements up to locations, unless one
of the statements is misread; then neither text is read. -/
theorem read_blockForms {source : String} {xs : List Statement}
    (h : read parseStatements source = .ok xs) :
    if xs.any Statement.misread then
      (∃ e, read parseStatements (printStatements xs) = .error e) ∧
        ∃ e, read parseStatements (outlineStatements xs) = .error e
    else ∃ ys zs, read parseStatements (printStatements xs) = .ok ys ∧
      read parseStatements (outlineStatements xs) = .ok zs ∧
      ys.map Statement.erase = zs.map Statement.erase ∧
      ys.map Statement.erase = xs.map Statement.erase := by
  obtain ⟨tokens, laidOut, hlex, hlayout, hparse⟩ := read_ok_iff.1 h
  have hfrom := statements_from_of_parseStatements (ordered_of_source hlex hlayout) hparse
  have hprintable := hfrom.printable fun _ h => absurd h List.not_mem_nil
  have houtlined := hfrom.hereditary Statement.outlined_hereditary fun _ h =>
    absurd h List.not_mem_nil
  obtain ⟨raw₁, tokens₁, b₁, hlex₁, hlayout₁, hitems₁⟩ := laidOut_of_printsLines
    (fun x hx => (hprintable x hx).lines) (show Breaks 1 "\n".toList from breaks_lineBreak 0)
  obtain ⟨raw₂, tokens₂, b₂, hlex₂, hlayout₂, hitems₂⟩ := laidOut_of_outlined houtlined
  rw [← Statement.printAll_eq] at hlex₁
  rw [← Statement.outlineAll_eq] at hlex₂
  have hprinted := read_rereads hlex₁ hlayout₁ hitems₁
  have houtline := read_rereads hlex₂ hlayout₂ hitems₂
  cases hbad : xs.any Statement.misread with
  | true =>
    rw [hbad] at hprinted houtline
    exact ⟨hprinted, houtline⟩
  | false =>
    rw [hbad] at hprinted houtline
    obtain ⟨ys, hys, hy⟩ := hprinted
    obtain ⟨zs, hzs, hz⟩ := houtline
    exact ⟨ys, zs, hys, hzs, hy.trans hz.symm, hy⟩

/-- Loops, a chain of conditions, a labelled break, and bare and empty blocks. -/
theorem read_blockForms_nested : ∃ xs,
    read parseStatements ("forever a do\n  if p \x7b\x7d else if q do\n    "
        ++ "forever \x7b break a \x7d\n  do\nx = if c \x7b 1 \x7d else \x7b 2 \x7d") = .ok xs ∧
      ∃ ys zs, read parseStatements (printStatements xs) = .ok ys ∧
        read parseStatements (outlineStatements xs) = .ok zs ∧
        ys.map Statement.erase = zs.map Statement.erase ∧
        ys.map Statement.erase = xs.map Statement.erase := by
  obtain ⟨xs, hread, hgood⟩ : ∃ xs,
      read parseStatements ("forever a do\n  if p \x7b\x7d else if q do\n    "
        ++ "forever \x7b break a \x7d\n  do\nx = if c \x7b 1 \x7d else \x7b 2 \x7d") = .ok xs ∧
      (!xs.any Statement.misread) = true := exists_ok_of_any (by decide +kernel)
  rw [Bool.not_eq_true'] at hgood
  have hforms := read_blockForms hread
  rw [hgood] at hforms
  exact ⟨xs, hread, hforms⟩

end Frontend

end Offside
