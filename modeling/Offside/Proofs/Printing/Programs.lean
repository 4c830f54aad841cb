import Offside.Proofs.Printing.Passages
import Offside.Proofs.Printing.Statements

/-!
# Printed programs are read back

* `Statement.Printable`: a statement is printed as lines that are laid out and read back as this
  statement up to locations, or not at all if it is misread. One lemma for each form says that the
  form is printable if its parts are.
* `Statement.Hereditary`: a property that goes over from the statements in the blocks of a statement
  to this statement. `Statement.ReadFrom.hereditary`: every statement that is read has it;
  `Statement.ListFrom.printable`: so all statements that are read are printable.
* `Declaration.Printable`, `Declaration.ReadFrom.printable`: the same for declarations.
* `printProgram_parsed`: a program of printable declarations is printed as a text that is parsed to
  this program up to locations, or not at all if one of them is misread.
-/

namespace Offside

open Token Parse Parser Printing Scanner

/-! ## Applications -/

namespace Expr

/-- If an expression is an application, it is one of the three kinds of applications. -/
def Applies : Expr → Prop
  | apply _ style function args => Application style function args
  | _ => True

theorem ReadFrom.applies {s c : List Token} {e : Expr} : ReadFrom s c e → e.Applies
  | @ReadFrom.paren t _ _ e _ _ inner _ => by
    have hsame : (e.relocate t.loc).Applies ↔ e.Applies := by cases e <;> rfl
    exact hsame.2 inner.applies
  | .negate sign inner _ => application_negate sign inner.printable
  | .listCall left _ inside _ => .listed left.printable inside.printable
  | .juxtaposition left hne right _ =>
    .juxtaposed left.operator?_eq_none left.printable hne right.printable
  | .backtick leftFrom _ _ functionFrom rightFrom _ =>
    .juxtaposed functionFrom.operator?_eq_none functionFrom.printable (List.cons_ne_nil _ _)
      (List.forall_mem_cons.2 ⟨leftFrom.printable, List.forall_mem_singleton.2 rightFrom.printable⟩)
  | .operator leftFrom _ binary rightFrom _ _ =>
    .operator binary leftFrom.printable rightFrom.printable
  | .ident .. | .number .. | .tuple .. | .buffer .. | .valueAt .. | .addressOf .. => trivial
  | .ifThen .. | .index .. | .ascription .. => trivial

end Expr

namespace Statement

/-- A statement inside some loops is printed as lines that are read back, unless it is misread. -/
def Printable (loops : List (Option String)) (x : Statement) : Prop :=
  PrintsAnywhere (print loops) (Rereads loops) x

/-! ## Statements on one line -/

section Lines

variable {loops : List (Option String)}

-- makes the equations of `print` once, for all lemmas below
attribute [grind =] print

/-- No place is a conditional expression. -/
theorem isConditional_toExpr (place : Place) : place.toExpr.isConditional = false := by
  cases place <;> rw [Place.toExpr] <;> rfl

theorem printsAs_assign {target : Place} {value : Expr} (htarget : target.toExpr.Printable)
    (hvalue : value.Printable) (l : Location) :
    PrintsAs (print loops) (Rereads loops) (.assign l target value) := by
  intro s hs
  obtain ⟨ts, hleft, htightly, hbegins⟩ := htarget.tokens s fun _ => hs
  obtain ⟨t, us, rfl, ht⟩ := simple_of_begins hbegins (isConditional_toExpr target)
  obtain ⟨vs, hright, htightly', -⟩ := hvalue.tokens (s.past _ true) fun _ => rfl
  obtain ⟨l', hfragment⟩ := hleft.operator (show "=".toList ≠ [] by decide)
    (List.all_eq_true.1 (by decide)) hright
  have htext : (print loops (.assign l target value)).toList = target.toExpr.print.toList
      ++ ' ' :: ("=".toList ++ [' ']) ++ value.print.toList := by
    rw [print, Place.print_eq]
    simp
  rw [← htext] at hfragment
  exact ⟨_, hfragment, rereads_assign ht htightly.rereads rfl htightly'.rereads l⟩

/-- A call is read back unless its text begins with a conditional expression. -/
theorem printsAs_call {style : CallStyle} {function : Expr} {args : List Expr}
    (h : Expr.Application style function args) (l : Location) :
    PrintsAs (print loops) (Rereads loops) (.call l style function args) := by
  have htext : print loops (.call l style function args) = Expr.callText style function args := by
    rw [print, Expr.callText]
  intro s hs
  rw [htext]
  cases h with
  | @operator l' name power left right hbinary hleft hright =>
    obtain ⟨ts, t, us, hfragment, hleftReads, hbegins, hkind, rfl, hrightReads⟩ :=
      Expr.operator_fragment hbinary hleft hright s hs
    refine ⟨_, hfragment, ?_⟩
    have hoperator : (Expr.ident l' t.text).operator? = some t.text := by
      rw [Expr.operator?, hbinary]
      rfl
    have hcase : beginsWithConditional .curried (.ident l' t.text) [left, right]
        = left.isConditional := by
      rw [beginsWithConditional, hoperator]
      rfl
    cases hconditional : left.isConditional with
    | true =>
      cases left <;> cases hconditional
      obtain ⟨c, rfl⟩ := hbegins
      exact rereads_misread c hkind (by rw [misread, hcase]; rfl)
    | false =>
      obtain ⟨u, vs, rfl, hu⟩ := simple_of_begins hbegins hconditional
      exact rereads_call hu (Expr.rereads_operator hleftReads hkind hbinary hrightReads l _)
        (by rw [hcase, hconditional])
  | juxtaposed hplain hfunction hne hargs =>
    obtain ⟨t, us, hfragment, hrereads, hopening⟩ :=
      Expr.juxtaposed_fragment hplain hfunction hne hargs s l
    refine ⟨_, hfragment, rereads_call (simple_of_opening hopening) hrereads ?_⟩
    unfold beginsWithConditional
    split
    · rw [hplain]
      rfl
    · rfl
  | listed hfunction hargs =>
    obtain ⟨t, us, hfragment, htightly, hopening⟩ := Expr.listed_fragment hfunction hargs s l
    exact ⟨_, hfragment, rereads_call (simple_of_opening hopening) htightly.rereads rfl⟩

theorem printsAs_returnValue {value : Expr} (h : value.Printable) (l : Location) :
    PrintsAs (print loops) (Rereads loops) (.returnValue l value) := by
  intro s hs
  obtain ⟨t, hword, ht⟩ :=
    Fragment.keyword s (show Reserved.returnValue ∈ Reserved.keywords by decide)
  obtain ⟨us, hvalue, htightly, -⟩ := h.tokens (s.past _ true) fun _ => rfl
  have hfragment := hword.spaced hvalue
  have htext : (print loops (.returnValue l value)).toList
      = Reserved.returnValue.text.toList ++ [' '] ++ value.print.toList := by
    rw [print, String.toList_append]
    rfl
  rw [← htext] at hfragment
  exact ⟨_, hfragment, rereads_returnValue ht htightly.rereads l⟩

theorem printsAs_letBind {b : Binding} {bs : List Binding} (h : ∀ c ∈ b :: bs, c.Printable)
    (l : Location) : PrintsAs (print loops) (Rereads loops) (.letBind l (b :: bs)) := by
  intro s hs
  obtain ⟨t, ts, us, hfragment, ht, hb, hbs⟩ := Binding.letText_fragment h s
  rw [print]
  exact ⟨_, hfragment, rereads_letBind ht hb hbs l⟩

theorem printsAs_breakInnermost (h : loops ≠ []) (l : Location) :
    PrintsAs (print loops) (Rereads loops) (.breakLoop l 0) := by
  intro s hs
  obtain ⟨t, hword, ht⟩ :=
    Fragment.keyword s (show Reserved.breakLoop ∈ Reserved.keywords by decide)
  have htext : print loops (.breakLoop l 0) = Reserved.breakLoop.text := by
    rw [print, breakText]
    split
    · rfl
    · rfl
  rw [htext]
  exact ⟨_, hword, rereads_breakInnermost ht h l⟩

/-- A break out of the loop with a label is printed with this label, unless it is the innermost
loop. -/
theorem printsAs_breakLabelled {label : String} {depth : Nat} (hname : IsName label)
    (h : loops.findIdx? (· == some label) = some depth) (l : Location) :
    PrintsAs (print loops) (Rereads loops) (.breakLoop l depth) := by
  obtain ⟨hlt, hlabel, -⟩ := List.findIdx?_eq_some_iff_getElem.1 h
  by_cases hdepth : depth = 0
  · subst hdepth
    refine printsAs_breakInnermost ?_ l
    rintro rfl
    cases hlt
  · intro s hs
    obtain ⟨t, hword, ht⟩ :=
      Fragment.keyword s (show Reserved.breakLoop ∈ Reserved.keywords by decide)
    have hfragment := hword.spaced (Fragment.name (s.past _ true) hname)
    have htext : (print loops (.breakLoop l depth)).toList
        = Reserved.breakLoop.text.toList ++ [' '] ++ label.toList := by
      have hat : loops[depth]? = some (some label) := by
        rw [List.getElem?_eq_getElem hlt]
        exact congrArg some (beq_iff_eq.1 hlabel)
      rw [print, breakText, hat]
      dsimp only
      rw [if_pos (Nat.pos_of_ne_zero hdepth), String.toList_append]
      rfl
    rw [← htext] at hfragment
    exact ⟨_, hfragment, rereads_breakLabelled ht rfl h l⟩

end Lines

/-! ## Statements with blocks -/

section Blocks

variable {loops : List (Option String)} {xs ys : List Statement}

theorem printAll_eq (loops : List (Option String)) (xs : List Statement) :
    printAll loops xs = xs.map (print loops) := by
  induction xs with
  | nil => rw [printAll, List.map_nil]
  | cons x xs ih => rw [printAll, List.map_cons, ih]

/-- The text of a block of statements. -/
def bodyText (loops : List (Option String)) (xs : List Statement) : List Char :=
  (blockText ("\n".intercalate (printAll loops xs))).toList

/-- A printed block of statements is read back. -/
theorem bodyText_passage (h : ∀ x ∈ xs, Printable loops x) (n : Nat) (s : Scanner) :
    ∃ t t' inner b, Passage (n + 1) s (shiftBy n (bodyText loops xs)) [t] [t'] ∧
      t'.IsGroup .brace inner ∧ Separated .semicolon (Rereads loops) b inner xs := by
  rw [bodyText, printAll_eq]
  exact block_printed h n s

theorem printable_nested (h : ∀ x ∈ xs, Printable loops x) (l : Location) :
    Printable loops (.nested l xs) := by
  intro n s _ _
  obtain ⟨t, t', inner, b, hpassage, ht', hxs⟩ := bodyText_passage h n s
  have htext : (print loops (.nested l xs)).toList = bodyText loops xs := by rw [print, bodyText]
  rw [← htext] at hpassage
  exact ⟨[t], [t'], hpassage, rereads_nested ht'.isBodyOf hxs l⟩

/-- The beginning of a loop is its word and its label. -/
theorem foreverText_fragment {label? : Option String}
    (h : ∀ label, label? = some label → IsName label) (s : Scanner) :
    ∃ t u?, Fragment s (Reserved.forever.text.toList
        ++ label?.elim [] fun label => ' ' :: label.toList) (t :: Option.toList u?) ∧
      t.reserved? = some .forever ∧ u?.map Token.text = label? ∧
      ∀ u, u? = some u → u.kind = .identifier := by
  obtain ⟨t, hword, ht⟩ := Fragment.keyword s (show Reserved.forever ∈ Reserved.keywords by decide)
  cases label? with
  | none =>
    refine ⟨t, none, ?_, ht, rfl, fun _ h => nomatch h⟩
    rw [Option.elim_none, List.append_nil]
    exact hword
  | some label =>
    have hlabel := hword.spaced (Fragment.name (s.past _ true) (h label rfl))
    rw [List.append_assoc] at hlabel
    refine ⟨t, some _, hlabel, ht, rfl, ?_⟩
    rintro u ⟨⟩
    rfl

theorem printable_forever {label? : Option String}
    (hlabel : ∀ label, label? = some label → IsName label)
    (h : ∀ x ∈ xs, Printable (label? :: loops) x) (l : Location) :
    Printable loops (.forever l label? xs) := by
  intro n s _ _
  obtain ⟨t, u?, hfragment, ht, hname, hkind⟩ := foreverText_fragment hlabel s
  obtain ⟨block, block', inner, b, hbody, hgroup, hxs⟩ := bodyText_passage h n (s.past _ true)
  have hpassage := hfragment.spaced_passage hbody
  have htext : (print loops (.forever l label? xs)).toList
      = Reserved.forever.text.toList ++ (label?.elim [] fun label => ' ' :: label.toList) ++ [' ']
        ++ bodyText (label? :: loops) xs := by
    rw [print, bodyText]
    cases label? <;> simp [foreverText, Reserved.text]
  rw [← htext] at hpassage
  subst hname
  exact ⟨_, _, hpassage, rereads_forever ht hkind hgroup.isBodyOf hxs l⟩

/-- The beginning of a conditional statement. -/
theorem ifText_fragment {condition : Expr} (h : condition.Printable) (s : Scanner) :
    ∃ t us, Fragment s (Reserved.ifThen.text.toList ++ [' '] ++ condition.print.toList) (t :: us) ∧
      t.reserved? = some .ifThen ∧ Expr.Rereads us condition := by
  obtain ⟨t, hword, ht⟩ := Fragment.keyword s (show Reserved.ifThen ∈ Reserved.keywords by decide)
  obtain ⟨us, htest, htightly, -⟩ := h.tokens (s.past _ true) fun _ => rfl
  exact ⟨t, us, hword.spaced htest, ht, htightly.rereads⟩

/-- A conditional statement up to its first block. -/
theorem branch_passage {condition : Expr} (hcondition : condition.Printable)
    (h : ∀ x ∈ xs, Printable loops x) (n : Nat) (s : Scanner) :
    ∃ t us block block' inner b, Passage (n + 1) s
        (shiftBy n (Reserved.ifThen.text.toList ++ [' '] ++ condition.print.toList ++ [' ']
          ++ bodyText loops xs)) (t :: (us ++ [block])) (t :: (us ++ [block'])) ∧
      t.reserved? = some .ifThen ∧ Expr.Rereads us condition ∧ block'.IsGroup .brace inner ∧
      Separated .semicolon (Rereads loops) b inner xs := by
  obtain ⟨t, us, hhead, ht, htest⟩ := ifText_fragment hcondition s
  obtain ⟨block, block', inner, b, hbody, hgroup, hxs⟩ := bodyText_passage h n (s.past _ true)
  exact ⟨t, us, block, block', inner, b, hhead.spaced_passage hbody, ht, htest, hgroup, hxs⟩

theorem printable_branch {condition : Expr} (hcondition : condition.Printable)
    (hyes : ∀ x ∈ xs, Printable loops x) (hno : ∀ x ∈ ys, Printable loops x) (l : Location) :
    Printable loops (.branch l condition xs ys) := by
  intro n s _ _
  obtain ⟨t, us, block, block', inner, b, hpassage, ht, htest, hgroup, hxs⟩ :=
    branch_passage hcondition hyes n s
  by_cases hempty : ys = []
  · subst hempty
    have htext : (print loops (.branch l condition xs [])).toList
        = Reserved.ifThen.text.toList ++ [' '] ++ condition.print.toList ++ [' ']
          ++ bodyText loops xs := by
      rw [print, bodyText]
      simp [Reserved.text]
    rw [← htext] at hpassage
    exact ⟨_, _, hpassage, rereads_branch ht htest hgroup.isBodyOf hxs l⟩
  · obtain ⟨other, helse, hother⟩ := Fragment.keyword (s.past _ true)
      (show Reserved.otherwise ∈ Reserved.keywords by decide)
    obtain ⟨noBlock, noBlock', inner', b', hbody, hgroup', hys⟩ := bodyText_passage hno n
      (s.past _ true)
    have hwhole := (hpassage.spaced (helse.passage (n + 1))).spaced hbody
    have htext : shiftBy n (print loops (.branch l condition xs ys)).toList
        = shiftBy n (Reserved.ifThen.text.toList ++ [' '] ++ condition.print.toList ++ [' ']
          ++ bodyText loops xs) ++ [' '] ++ Reserved.otherwise.text.toList ++ [' ']
          ++ shiftBy n (bodyText loops ys) := by
      have hblank : shiftBy n (" else ".toList)
          = [' '] ++ Reserved.otherwise.text.toList ++ [' '] := shiftBy_oneLine n (by decide)
      have hsome : ys.isEmpty = false := List.isEmpty_eq_false_iff.2 hempty
      have hprint : (print loops (.branch l condition xs ys)).toList
          = (Reserved.ifThen.text.toList ++ [' '] ++ condition.print.toList ++ [' ']
            ++ bodyText loops xs) ++ " else ".toList ++ bodyText loops ys := by
        rw [print, hsome, bodyText, bodyText]
        simp [Reserved.text]
      rw [hprint, shiftBy_append, shiftBy_append _ _ " else ".toList, hblank]
      simp only [List.append_assoc]
    rw [← htext] at hwhole
    refine ⟨_, _, hwhole, ?_⟩
    have hrereads := rereads_branchElse ht htest hgroup.isBodyOf hxs
      ⟨other, isReserved_iff.2 hother, .inl rfl⟩ hgroup'.isBodyOf hys l
    simpa using hrereads

end Blocks

/-! ## Every statement -/

/-- Whether a statement is printed on one line, that is, has no blocks. -/
def isLine : Statement → Bool
  | forever .. | branch .. | nested .. => false
  | assign .. | breakLoop .. | call .. | letBind .. | returnValue .. => true

/-- A property that statements on one line have if they are read back, and statements with blocks if
the statements in their blocks have it. -/
structure Hereditary (P : List (Option String) → Statement → Prop) : Prop where
  line : ∀ {loops x}, x.isLine = true → PrintsAs (print loops) (Rereads loops) x → P loops x
  nested : ∀ {loops xs}, (∀ x ∈ xs, P loops x) → ∀ l, P loops (.nested l xs)
  forever : ∀ {loops label? xs}, (∀ label, label? = some label → IsName label) →
    (∀ x ∈ xs, P (label? :: loops) x) → ∀ l, P loops (.forever l label? xs)
  branch : ∀ {loops condition xs ys}, condition.Printable → (∀ x ∈ xs, P loops x) →
    (∀ y ∈ ys, P loops y) → ∀ l, P loops (.branch l condition xs ys)

section Hereditary

variable {P : List (Option String) → Statement → Prop}

mutual

/-- Every statement that is read inside loops with proper labels has a hereditary property. -/
theorem ReadFrom.hereditary (hP : Hereditary P) {loops : List (Option String)} {s c : List Token}
    {x : Statement} (hloops : ∀ label, some label ∈ loops → IsName label) :
    ReadFrom loops s c x → P loops x
  | .assign left _ right _ => hP.line rfl (printsAs_assign left.printable right.printable _)
  | .call application => hP.line rfl (printsAs_call application.applies _)
  | .breakInnermost _ inside => hP.line rfl (printsAs_breakInnermost inside _)
  | .breakLabelled _ _ inside _ => by
    obtain ⟨hlt, hlabel, -⟩ := List.findIdx?_eq_some_iff_getElem.1 inside
    refine hP.line rfl (printsAs_breakLabelled (hloops _ ?_) inside _)
    rw [← beq_iff_eq.1 hlabel]
    exact List.getElem_mem hlt
  | @ReadFrom.forever _ _ _ label? _ _ _ label _ inside _ => by
    have hlabel : ∀ name, label?.map Token.text = some name → IsName name := by
      intro name hname
      obtain ⟨u, hu, rfl⟩ := Option.map_eq_some_iff.1 hname
      exact (label u hu).2
    refine hP.forever hlabel (inside.hereditary hP fun name hname => ?_) _
    rcases List.mem_cons.1 hname with hname | hname
    · exact hlabel name hname.symm
    · exact hloops name hname
  | .branch _ test _ inside _ =>
    hP.branch test.printable (inside.hereditary hP hloops) (List.forall_mem_nil _) _
  | .branchElse _ test _ yesFrom _ _ noFrom _ =>
    hP.branch test.printable (yesFrom.hereditary hP hloops) (noFrom.hereditary hP hloops) _
  | .branchChain _ test _ yesFrom _ _ noFrom _ =>
    hP.branch test.printable (yesFrom.hereditary hP hloops)
      (List.forall_mem_singleton.2 (noFrom.hereditary hP hloops)) _
  | .letBind _ all _ => by
    obtain ⟨b, bs, rfl, hall⟩ := all.printable
    exact hP.line rfl (printsAs_letBind hall _)
  | .nested _ inside _ => hP.nested (inside.hereditary hP hloops) _
  | .returnValue _ right _ => hP.line rfl (printsAs_returnValue right.printable _)

/-- So do all statements of a block that is read. -/
theorem ListFrom.hereditary (hP : Hereditary P) {loops : List (Option String)} {ts : List Token}
    {xs : List Statement} (hloops : ∀ label, some label ∈ loops → IsName label) :
    ListFrom loops ts xs → ∀ x ∈ xs, P loops x
  | .nil => fun _ h => nomatch h
  | .last h => List.forall_mem_singleton.2 (h.hereditary hP hloops)
  | .more h _ others =>
    List.forall_mem_cons.2 ⟨h.hereditary hP hloops, others.hereditary hP hloops⟩

end

end Hereditary

theorem printable_hereditary : Hereditary Printable where
  line := fun _ h => h.anywhere
  nested := printable_nested
  forever := printable_forever
  branch := printable_branch

/-- All statements of a block that is read are printable. -/
theorem ListFrom.printable {loops : List (Option String)} {ts : List Token} {xs : List Statement}
    (hloops : ∀ label, some label ∈ loops → IsName label) (h : ListFrom loops ts xs) :
    ∀ x ∈ xs, Printable loops x := h.hereditary printable_hereditary hloops

end Statement

/-! ## Declarations -/

namespace Declaration

/-- Whether a declaration is a function whose body is misread. -/
def misread : Declaration → Bool
  | function _ _ _ _ body => Statement.misreadAny body
  | letBind .. => false

/-- Tokens outside of all loops are read as a declaration up to locations, unless it is misread. -/
def Rereads (ts : List Token) (d : Declaration) : Prop :=
  ts ≠ [] ∧ ∀ level p rest, totalWeight ts ≤ level → p.loops = [] → p.rest = ts ++ rest →
    (∀ t, rest.head? = some t → t.kind = .semicolon) →
    ItemOutcome .semicolon d.misread ((grammar level).parse 0 p) (p.passAll ts)
      fun d' => d'.erase = d.erase

/-- A declaration is printed as lines that are read back, unless it is misread. -/
def Printable (d : Declaration) : Prop := PrintsAnywhere print Rereads d

theorem rereads_letBind {t : Token} {us vs : List Token} {b : Binding} {bs : List Binding}
    (ht : t.reserved? = some .letBind) (hb : Binding.Rereads us b)
    (hbs : AfterCommas Binding.Rereads vs bs) (l : Location) :
    Rereads (t :: (us ++ vs)) (.letBind l (b :: bs)) := by
  refine ⟨List.cons_ne_nil _ _, fun level p rest hlevel _ hp hrest => ?_⟩
  have hp₁ : (p.pass t).rest = us ++ vs ++ rest := by rw [pass_rest, hp]; rfl
  have hweight : totalWeight (us ++ vs) ≤ level := by rw [totalWeight_cons] at hlevel; omega
  obtain ⟨all, hparse, hall⟩ := Binding.parseAll_eq hb hbs hweight hp₁ hrest
  have hstart : (grammar level).start t
      = (do let all ← Binding.parseAll (Binding.grammar level)
            return letBind (Binding.letLoc t all) all) := by
    show start level t = _
    unfold start
    simp only [ht]
  rw [misread, Grammar.parse_eq_start (fun _ _ => rfl) hp, hstart, bind_eq hparse]
  exact ⟨_, rfl, by simp only [erase, hall]⟩

/-- The parameters of a function. -/
theorem params_rereads {ts : List Token} {params : List Reference} {level : Nat} {b : Bool}
    (h : Separated .comma Reference.Rereads b ts params) (hlevel : totalWeight ts ≤ level)
    (q : Parser) (hq : q.rest = ts) :
    ∃ a, Parse.list ((Reference.grammar level).parse 0) q = .ok a (q.passAll ts) ∧
      a.1.map Reference.erase = params.map Reference.erase := by
  have hends : ∀ {R : List Token → Reference → Prop} {rest}, Follows .comma R rest →
      Reference.Ends rest := by
    intro R rest hrest u hu
    have hkind := hrest.kind hu
    simp [isReserved, reserved?, Token.is, hkind]
  obtain ⟨params', hok, hmap⟩ := list_eq (f := Reference.erase)
    (fun us r p rest hR _ hp hrest => hR.1 level p rest hR.2 hp (hends hrest))
    (fun us r hR => hR.1.ne_nil) (h.and_weight hlevel) hq rfl
  exact ⟨(params', b), hok, hmap⟩

theorem rereads_function {t name list block : Token} {ts inner inner' : List Token}
    {params : List Reference} {result : TypeExpr} {body : List Statement} {b b' : Bool}
    (ht : t.reserved? = some .define) (hname : name.kind = .identifier)
    (hlist : list.IsGroup .paren inner)
    (hparams : Separated .comma Reference.Rereads b inner params)
    (hresult : result.Rereads ts) (hblock : block.IsBodyOf inner')
    (hbody : Separated .semicolon (Statement.Rereads []) b' inner' body) (l : Location) :
    Rereads (t :: name :: list :: (ts ++ [block])) (.function l name.text params result body) := by
  refine ⟨List.cons_ne_nil _ _, fun level p rest hlevel hloops hp hrest => ?_⟩
  simp only [totalWeight_append, totalWeight_cons, weight_eq] at hlevel
  -- where the parser is before the name, before the list and after it, and before the block
  have hp₁ : (p.pass t).rest = name :: list :: (ts ++ block :: rest) := by
    rw [pass_rest, hp]
    simp
  have hp₂ : ((p.pass t).pass name).rest = list :: (ts ++ block :: rest) := by
    rw [pass_rest, hp₁]
    rfl
  have hp₃ : (((p.pass t).pass name).pass list).rest = ts ++ block :: rest := by
    rw [pass_rest, hp₂]
    rfl
  have hp₄ := passAll_rest hp₃
  have hbrace : ∀ u, (block :: rest).head? = some u → u.is .operator "->" = false := by
    rintro u ⟨⟩
    simp [Token.is, hblock.1.kind]
  have hinner : totalWeight inner ≤ level := by rw [← hlist.2.2]; omega
  obtain ⟨⟨params', comma⟩, hwithin, hparams'⟩ := within_group
    (p := ((p.pass t).pass name).pass list) hlist fun q hq _ => params_rereads hparams hinner q hq
  obtain ⟨result', hparse, hresult'⟩ := hresult level _ _ (by omega) hp₃ hbrace
  have hweight : totalWeight block.children ≤ level := by omega
  have houtcome := Statement.body_outcome hblock hbody hweight
    (p := ((((p.pass t).pass name).pass list).passAll ts).pass block)
    (by simp only [pass_loops, passAll_loops, hloops])
  have hexpect : expect "a function name" (·.kind == .identifier) (p.pass t)
      = .ok name ((p.pass t).pass name) := expect_eq hp₁ (beq_iff_eq.2 hname)
  have hexpect' : expect "a parameter list" (·.isBlock (.bracketed .paren)) ((p.pass t).pass name)
      = .ok list (((p.pass t).pass name).pass list) :=
    expect_eq hp₂ (by rw [isBlock, hlist.1]; rfl)
  have hstart : (grammar level).start t = functionRest level t := by
    show start level t = _
    unfold start
    simp only [ht]
  rw [misread, Grammar.parse_eq_start (fun _ _ => rfl) hp, hstart]
  unfold functionRest
  rw [bind_eq hexpect, bind_eq hexpect', bind_eq hwithin]
  dsimp only
  rw [bind_eq hparse, bind_eq (expectBody_eq hp₄ hblock.1)]
  have hall : p.passAll (t :: name :: list :: (ts ++ [block]))
      = ((((p.pass t).pass name).pass list).passAll ts).pass block := by
    rw [passAll_cons, passAll_cons, passAll_cons, passAll_append]
    rfl
  rw [hall]
  refine (houtcome.map (g := function (t.loc.join block.loc) name.text params' result')
    (fun _ => rfl) fun body' hbody' => ?_).item _
  rw [erase, erase, hparams', hresult', hbody']

theorem printable_letBind {b : Binding} {bs : List Binding} (h : ∀ c ∈ b :: bs, c.Printable)
    (l : Location) : Printable (.letBind l (b :: bs)) := by
  refine PrintsAs.anywhere fun s hs => ?_
  obtain ⟨t, ts, us, hfragment, ht, hb, hbs⟩ := Binding.letText_fragment h s
  exact ⟨_, hfragment, rereads_letBind ht hb hbs l⟩

theorem printable_function {name : String} {params : List Reference} {result : TypeExpr}
    {body : List Statement} (hname : IsName name) (hparams : ∀ r ∈ params, r.Printable)
    (hresult : result.Printable) (hbody : ∀ x ∈ body, Statement.Printable [] x) (l : Location) :
    Printable (.function l name params result body) := by
  intro n s _ _
  obtain ⟨t, hword, ht⟩ := Fragment.keyword s (show Reserved.define ∈ Reserved.keywords by decide)
  have hnamed := hword.spaced (Fragment.name (s.past _ true) hname)
  obtain ⟨us, x, b, hpiece, hseparated⟩ := list_piece (fun r hr => (hparams r hr).printsAs)
    ((s.past (Reserved.define.text.toList ++ [' '] ++ name.toList) false).past ['('] true) rfl
  obtain ⟨list, hgroup, hlist⟩ := Fragment.group _ .paren (by decide) hpiece
  have hlisted := hnamed.attached hgroup fun _ => endsWord_cons (by decide) _
  obtain ⟨ts, htype, hrereads, -⟩ := hresult (s.past _ true) fun _ => rfl
  have htyped := hlisted.spaced htype
  obtain ⟨block, block', inner, b', hblock, hblockGroup, hxs⟩ :=
    Statement.bodyText_passage hbody n (s.past _ true)
  have hpassage := htyped.spaced_passage hblock
  have htext : (print (.function l name params result body)).toList
      = Reserved.define.text.toList ++ [' '] ++ name.toList
        ++ '(' :: ((commaList (params.map Reference.print)).toList ++ [')']) ++ [' ']
        ++ result.print.toList ++ [' '] ++ Statement.bodyText [] body := by
    rw [print, Statement.bodyText]
    simp [parenthesized, Reserved.text]
  simp only [Bracket.opener, Bracket.closer] at hpassage
  rw [← htext] at hpassage
  refine ⟨_, _, hpassage, ?_⟩
  rw [List.append_assoc _ ts]
  exact rereads_function ht rfl hlist hseparated hrereads hblockGroup.isBodyOf hxs l

/-- Every declaration that is read is printable. -/
theorem ReadFrom.printable {ts : List Token} {d : Declaration} (h : ReadFrom ts d) :
    d.Printable := by
  cases h with
  | function _ _ isName _ interior type _ statements _ =>
    exact printable_function isName (interior.all fun _ _ h => h.printable) type.printable
      (statements.printable fun _ h => nomatch h) _
  | letBind _ all _ =>
    obtain ⟨b, bs, rfl, hall⟩ := all.printable
    exact printable_letBind hall _

end Declaration

/-! ## Programs -/

/-- The tokens of a printed program are its declarations with semicolons between them. -/
theorem printProgram_laidOut {ds : List Declaration} (h : ∀ d ∈ ds, d.Printable) :
    ∃ raw tokens b, Token.ofSource (printProgram ds) = .ok raw ∧ Layout.layout raw = .ok tokens ∧
      Separated .semicolon Declaration.Rereads b tokens ds :=
  laidOut_of_printsLines (fun d hd => (h d hd).lines) breaks_emptyLine

/-- A printed program is parsed to the same declarations up to locations, unless one of them is
misread; then it is not parsed. -/
theorem printProgram_parsed {ds : List Declaration} (h : ∀ d ∈ ds, d.Printable) :
    ∃ raw tokens, Token.ofSource (printProgram ds) = .ok raw ∧ Layout.layout raw = .ok tokens ∧
      ∀ span,
        if ds.any Declaration.misread then ∃ e, parseDeclarations span tokens = .error e
        else ∃ ds', parseDeclarations span tokens = .ok ds' ∧
          ds'.map Declaration.erase = ds.map Declaration.erase := by
  obtain ⟨raw, tokens, b, hlex, hlayout, hitems⟩ := printProgram_laidOut h
  refine ⟨raw, tokens, hlex, hlayout, fun span => ?_⟩
  have houtcome : Parse.Outcome (ds.any Declaration.misread)
      (sequence (Declaration.parse 0) (ofTokens span tokens))
      ((ofTokens span tokens).passAll tokens)
      fun ds' => ds'.map Declaration.erase = ds.map Declaration.erase := by
    refine sequence_outcome ?_ (fun _ _ h => h.1) hitems rfl rfl
    intro ts d p rest hrereads hloops hp hrest
    have hweight : totalWeight ts ≤ p.weight := by
      rw [Parser.weight, hp, totalWeight_append]
      exact Nat.le_add_right _ _
    exact hrereads.2 p.weight p rest hweight hloops hp fun _ ht => hrest.kind ht
  exact houtcome.result

end Offside
