import Offside.Proofs.Grammar.Expressions

/-!
# Statements and declarations that are read

Every introduced name, binding, statement and declaration that the grammars read has a derivation.

* `Grammar.ReadsFrom`: a grammar relates the tokens that it consumes, the first one included, to the
  form that it yields.
* `Reference.grammar_reads`, `Binding.grammar_reads`, `Declaration.grammar_reads`.
* `Statement.Begins`, `Statement.start_cases`: the ways in which a statement begins.
* `Statement.Sound`, `Statement.grammar_sound`: a statement is read inside the loops around it. What
  begins with `if` is no call, so that its location skips nothing.
-/

namespace Offside

open Token Parse Parser Location

/-! ## Sequences of located items -/

section Sequences

variable {α : Type} {R : List Token → α → Prop} {place : α → Location}

/-- Items after commas are among their tokens, if each is among its own. -/
theorem Parse.AfterCommas.amid {ts : List Token} {as : List α}
    (hR : ∀ ts a, R ts a → (place a).Amid ts) (h : AfterCommas R ts as) :
    ∀ part ∈ as.map place, part.Amid ts := by
  induction h with
  | nil => exact fun part hpart => absurd hpart List.not_mem_nil
  | cons _ h _ ih =>
    intro part hpart
    rcases List.mem_cons.1 hpart with rfl | hpart
    · exact ((hR _ _ h).append_left _).cons _
    · exact ((ih part hpart).append_right _).cons _

/-- Items with separators between them are among their tokens, if each is among its own. -/
theorem Parse.Separated.amid {separator : TokenKind} {b : Bool} {ts : List Token} {as : List α}
    (hR : ∀ ts a, R ts a → (place a).Amid ts) (h : Separated separator R b ts as) :
    ∀ part ∈ as.map place, part.Amid ts := by
  induction h with
  | nil => exact fun part hpart => absurd hpart List.not_mem_nil
  | last h =>
    intro part hpart
    rcases List.mem_cons.1 hpart with rfl | hpart
    · exact hR _ _ h
    · exact absurd hpart List.not_mem_nil
  | more h _ _ ih =>
    intro part hpart
    rcases List.mem_cons.1 hpart with rfl | hpart
    · exact (hR _ _ h).append_left _
    · exact ((ih part hpart).cons _).append_right _

/-- The last of some items after commas spans the last of their tokens, if each spans its own. -/
theorem Parse.AfterCommas.exists_last {ts : List Token} {as : List α}
    (hR : ∀ ts a, R ts a → (place a).Spans ts) (h : AfterCommas R ts as) (hne : as ≠ []) :
    ∃ last vs ws, as.getLast? = some last ∧ ts = vs ++ ws ∧ (place last).Spans ws := by
  induction h with
  | nil => exact absurd rfl hne
  | @cons ts us a as t _ h others ih =>
    cases as with
    | nil =>
      cases others
      exact ⟨a, [t], ts, rfl, by simp, hR _ _ h⟩
    | cons a' as =>
      obtain ⟨last, vs, ws, hlast, rfl, hspans⟩ := ih (List.cons_ne_nil _ _)
      exact ⟨last, t :: (ts ++ vs), ws, by rw [List.getLast?_cons_cons, hlast], by simp, hspans⟩

end Sequences

namespace Grammar

variable {α : Type}

/-- A grammar relates the tokens that it consumes, the first one included, to the form that it
yields. -/
def ReadsFrom (g : Grammar α) (R : List Token → α → Prop) : Prop :=
  ∀ power t p a q, Ordered (t :: p.rest) → g.continueFrom power t p = .ok a q →
    ∃ more, p.Consumes more q ∧ R (t :: more) a

theorem ReadsFrom.parse {g : Grammar α} {R : List Token → α → Prop} (h : g.ReadsFrom R)
    (loops : List (Option String)) (power : Nat) : Reads loops (g.parse power) R := by
  intro p a q _ ho hok
  obtain ⟨t, ht, hok⟩ := parse_ok hok
  obtain ⟨more, hmore, hread⟩ := h power t _ a q (ht.ordered_cons ho) hok
  exact ⟨t :: more, ht.trans hmore, hread⟩

/-- A form that nothing continues is what its first token begins. -/
theorem continueFrom_start {g : Grammar α} (hextend : ∀ p t, g.extend? p t = none) {power : Nat}
    {t : Token} {p q : Parser} {a : α} (hok : g.continueFrom power t p = .ok a q) :
    g.start t p = .ok a q := by
  unfold continueFrom at hok
  obtain ⟨form, r, hform, hok⟩ := bind_ok.1 hok
  obtain ⟨r', r'', hr', hok⟩ := bind_ok.1 hok
  obtain ⟨rfl, rfl⟩ := get_ok.1 hr'
  cases hlength : r.rest.length with
  | zero =>
    rw [hlength] at hok
    obtain ⟨rfl, rfl⟩ := pure_ok.1 hok
    exact hform
  | succ n =>
    rw [hlength] at hok
    unfold extendUpTo at hok
    split at hok
    · cases hok
      exact hform
    · simp only [hextend] at hok
      cases hok
      exact hform

end Grammar

/-! ## Introduced names -/

namespace Reference

/-- The location of an introduced name spans its tokens. -/
theorem ReadFrom.spans {ts : List Token} {r : Reference} (h : ReadFrom ts r) : r.loc.Spans ts := by
  cases h with
  | plain => exact spans_singleton _
  | marked _ _ _ located | annotated _ _ _ located => exact located.spans

/-- A name that is introduced by its first token. -/
theorem start_reads {t : Token} {p q : Parser} {r : Reference} (ho : Ordered (t :: p.rest))
    (hok : start t p = .ok r q) : ∃ more, p.Consumes more q ∧ ReadFrom (t :: more) r := by
  obtain ⟨hname, -⟩ := (proper_iff t).1 ho.head
  unfold start at hok
  split at hok
  · rename_i hkind
    obtain ⟨rfl, rfl⟩ := pure_ok.1 hok
    have hjoin : t.loc.join t.loc = t.loc := join_self t.loc
    refine ⟨[], Consumes.refl _, ?_⟩
    unfold ofName
    rw [hjoin]
    exact .plain hkind (hname hkind)
  · split at hok
    · rename_i hword
      obtain ⟨u, r', hu, hok⟩ := bind_ok.1 hok
      obtain ⟨rfl, rfl⟩ := pure_ok.1 hok
      obtain ⟨hused, hkind⟩ := expect_ok hu
      have hkind : u.kind = .identifier := by simpa using hkind
      have hall : Ordered [t, u] := (hused.ordered_before (s := [t]) ho).1
      obtain ⟨hname, -⟩ := (proper_iff u).1 (hused.proper ho.tail)
      refine ⟨[u], hused, .marked hword hkind (hname hkind) (covers_whole ?_ hall ?_)⟩
      · exact (spans_singleton t).join (s := []) (spans_singleton u) hall
      · exact fun part hpart => absurd hpart List.not_mem_nil
    · exact absurd hok unexpected_ne_ok

/-- The grammar of introduced names reads derivable ones only. -/
theorem grammar_reads (level : Nat) : (grammar level).ReadsFrom ReadFrom := by
  intro power t p r q ho hok
  have hkeeps : (grammar level).Keeps power
      fun used form r => ReadFrom used form ∧ Ordered (used ++ r.rest) := by
    intro used form p' t' extension form' q' hinv hhead hextend _ hcombine
    change extend? (TypeExpr.grammar level) t' = some extension at hextend
    unfold extend? at hextend
    split at hextend
    · rename_i hsign
      cases hextend
      obtain ⟨type, r', htype, hcombine⟩ := bind_ok.1 hcombine
      obtain ⟨rfl, rfl⟩ := pure_ok.1 hcombine
      obtain ⟨rest, hrest⟩ := List.head?_eq_some_iff.1 hhead
      have ht' := Consumes.one hrest
      have horest := (ht'.ordered_before hinv.2).2
      obtain ⟨more, hmore, hread⟩ :=
        TypeExpr.grammar_reads level _ 0 _ _ _ rfl horest.of_append.2 htype
      have hall := hmore.ordered_before horest
      rw [List.append_assoc] at hall
      refine ⟨more, hmore, .annotated hinv.1 hsign hread (covers_whole ?_ hall.1 ?_), hall.2⟩
      · exact hinv.1.spans.join (s := [t']) hread.spans hall.1
      · simpa using (hread.spans.amid.cons t').append_right used
    · cases hextend
  obtain ⟨more, hmore, hinv, -⟩ := Grammar.continueFrom_ok hkeeps (fun form' r hstart => by
    obtain ⟨more, hmore, hread⟩ := start_reads ho hstart
    exact ⟨more, hmore, hread, (hmore.ordered_before (s := [t]) ho).2⟩) hok
  exact ⟨more, hmore, hinv.1⟩

end Reference

/-! ## Bindings -/

namespace Binding

/-- The location of a binding spans its tokens. -/
theorem ReadFrom.spans {ts : List Token} {b : Binding} (h : ReadFrom ts b) : b.loc.Spans ts := by
  cases h with
  | mk _ _ _ _ located => exact located.spans

/-- The grammar of bindings reads derivable ones only. -/
theorem grammar_reads (level : Nat) : (grammar level).ReadsFrom ReadFrom := by
  intro power t p b q ho hok
  replace hok : start (Reference.grammar level) (Expr.grammar level) t p = .ok b q :=
    Grammar.continueFrom_start (fun _ _ => rfl) hok
  unfold start at hok
  obtain ⟨name, r₁, hname, hok⟩ := bind_ok.1 hok
  obtain ⟨names, r₂, hnames, hok⟩ := bind_ok.1 hok
  obtain ⟨sign, r₃, hsign, hok⟩ := bind_ok.1 hok
  obtain ⟨value, r₄, hvalue, hresult⟩ := bind_ok.1 hok
  obtain ⟨rfl, rfl⟩ := pure_ok.1 hresult
  obtain ⟨used, hused, hfirst⟩ := Reference.grammar_reads level 0 t p name r₁ ho hname
  have ho₁ := hused.ordered ho.tail
  obtain ⟨more, hmore, hothers⟩ :=
    ((Reference.grammar_reads level).parse _ 0).afterCommas _ _ _ rfl ho₁ hnames
  have ho₂ := hmore.ordered ho₁
  obtain ⟨hsignUsed, hequals⟩ := expect_ok hsign
  obtain ⟨last, hlast, ⟨s, c, rfl, hread, -⟩, -⟩ :=
    (Expr.grammar_sound level).parse (hsignUsed.ordered ho₂) hvalue
  have hp := ((hused.trans hmore).trans hsignUsed).trans hlast
  have htokens : t :: (used ++ more ++ [sign] ++ (s ++ c))
      = t :: used ++ more ++ sign :: (s ++ c) := by simp
  have hall : Ordered (t :: used ++ more ++ sign :: (s ++ c)) :=
    htokens ▸ (hp.ordered_before (s := [t]) ho).1
  refine ⟨_, hp, htokens ▸ .mk hfirst hothers hequals hread (covers_whole ?_ hall ?_)⟩
  · have := (spans_singleton t).join (s := used ++ more ++ sign :: s) hread.spans
      (by simpa using hall)
    simpa using this
  · intro part hpart
    rcases List.mem_cons.1 hpart with rfl | hpart
    · exact (hread.amid.cons sign).append_right _
    · rcases List.mem_cons.1 hpart with rfl | hpart
      · exact (hfirst.spans.amid.append_left _).append_left _
      · refine ((hothers.amid ?_ part hpart).append_right _).append_left _
        exact fun ts r h => h.spans.amid

/-- The bindings of a `let` are read in turn. -/
theorem parseAll_reads (level : Nat) (loops : List (Option String)) :
    Reads loops (parseAll (grammar level)) ListFrom := by
  intro p bs q hp ho hok
  unfold parseAll at hok
  obtain ⟨first, r, hfirst, hok⟩ := bind_ok.1 hok
  obtain ⟨others, r', hothers, hresult⟩ := bind_ok.1 hok
  obtain ⟨rfl, rfl⟩ := pure_ok.1 hresult
  have hreads := (grammar_reads level).parse loops 0
  obtain ⟨used, hused, hread⟩ := hreads _ _ _ hp ho hfirst
  obtain ⟨more, hmore, hmoreRead⟩ :=
    hreads.afterCommas _ _ _ (hused.loops.trans hp) (hused.ordered ho) hothers
  exact ⟨used ++ more, hused.trans hmore, .mk hread hmoreRead⟩

/-- The bindings of a `let` are among their tokens. -/
theorem ListFrom.amid {ts : List Token} {bs : List Binding} (h : ListFrom ts bs) :
    ∀ part ∈ bs.map loc, part.Amid ts := by
  cases h with
  | mk first others =>
    intro part hpart
    rcases List.mem_cons.1 hpart with rfl | hpart
    · exact first.spans.amid.append_left _
    · exact (others.amid (fun ts b h => h.spans.amid) part hpart).append_right _

/-- A `let` is located from its word to its last binding. -/
theorem ListFrom.letLoc_covers {t : Token} {ts : List Token} {bs : List Binding}
    (h : ListFrom ts bs) (ho : Ordered (t :: ts)) :
    (letLoc t bs).Covers [] (t :: ts) (bs.map loc) := by
  refine covers_whole ?_ ho fun part hpart => (h.amid part hpart).cons t
  cases h with
  | @mk ts us b bs first others =>
    unfold letLoc
    cases bs with
    | nil =>
      cases others
      rw [List.append_nil] at ho ⊢
      exact (spans_singleton t).join (s := []) first.spans ho
    | cons b' bs =>
      obtain ⟨last, vs, ws, hlast, rfl, hspans⟩ :=
        others.exists_last (fun ts b h => h.spans) (List.cons_ne_nil _ _)
      rw [List.getLast?_cons_cons, hlast]
      have := (spans_singleton t).join (s := ts ++ vs) hspans (by simpa using ho)
      simpa using this

end Binding

/-! ## Statements -/

namespace Statement

/-- The location of a statement spans the tokens that it does not skip. -/
theorem ReadFrom.spans {loops : List (Option String)} {s c : List Token} {x : Statement}
    (h : ReadFrom loops s c x) : x.loc.Spans c := by
  cases h with
  | call application => exact application.spans
  | breakInnermost => exact spans_singleton _
  | assign _ _ _ located | breakLabelled _ _ _ located | forever _ _ _ _ located
  | branch _ _ _ _ located | branchElse _ _ _ _ _ _ _ located
  | branchChain _ _ _ _ _ _ _ located | letBind _ _ located | nested _ _ located
  | returnValue _ _ located => exact located.spans

/-- A statement is among its tokens. -/
theorem ReadFrom.amid {loops : List (Option String)} {s c : List Token} {x : Statement}
    (h : ReadFrom loops s c x) : x.loc.Amid (s ++ c) := h.spans.amid.append_right s

/-- Some statements are among their tokens. -/
theorem ListFrom.amid {loops : List (Option String)} {ts : List Token} {xs : List Statement}
    (h : ListFrom loops ts xs) : ∀ part ∈ xs.map loc, part.Amid ts := by
  induction xs generalizing ts with
  | nil => exact fun part hpart => absurd hpart List.not_mem_nil
  | cons x xs ih =>
    intro part hpart
    rw [List.map_cons, List.mem_cons] at hpart
    cases h with
    | last h =>
      rcases hpart with rfl | hpart
      · exact h.amid
      · exact absurd hpart List.not_mem_nil
    | more h _ others =>
      rcases hpart with rfl | hpart
      · exact h.amid.append_left _
      · exact ((ih others part hpart).cons _).append_right _

/-- Tokens that a statement is read from, whatever its location skips. -/
def From (loops : List (Option String)) (ts : List Token) (x : Statement) : Prop :=
  ∃ s c, ts = s ++ c ∧ ReadFrom loops s c x

/-- A sequence of derivable statements is derivable. -/
theorem ListFrom.of_separated {loops : List (Option String)} {b : Bool} {ts : List Token}
    {xs : List Statement} (h : Separated .semicolon (From loops) b ts xs) :
    ListFrom loops ts xs := by
  induction h with
  | nil => exact .nil
  | last h =>
    obtain ⟨s, c, rfl, h⟩ := h
    exact .last h
  | more h ht _ ih =>
    obtain ⟨s, c, rfl, h⟩ := h
    exact .more h ht ih

/-- A grammar that reads derivable statements only. What begins with `if` skips nothing. -/
def Sound (g : Grammar Statement) : Prop :=
  ∀ t p x q, Ordered (t :: p.rest) → g.start t p = .ok x q →
    ∃ more s c, p.Consumes more q ∧ t :: more = s ++ c ∧ ReadFrom p.loops s c x ∧
      (t.isReserved .ifThen → s = [])

variable {parts : Grammar Statement} {t : Token} {p q : Parser} {x : Statement} {level : Nat}

/-- Statements of a sound grammar that nothing continues. -/
theorem Sound.reads (hparts : Sound parts) (hextend : ∀ p t, parts.extend? p t = none)
    (loops : List (Option String)) : Reads loops (parts.parse 0) (From loops) := by
  intro p x q hp ho hok
  obtain ⟨t, ht, hok⟩ := Grammar.parse_ok hok
  obtain ⟨more, s, c, hmore, hsc, hread, -⟩ :=
    hparts t _ x q (ht.ordered_cons ho) (Grammar.continueFrom_start hextend hok)
  rw [pass_loops, hp] at hread
  exact ⟨t :: more, ht.trans hmore, s, c, hsc, hread⟩

/-- The statements inside a block. -/
theorem body_reads (hparts : Sound parts) (hextend : ∀ p t, parts.extend? p t = none)
    {block : Token} {xs : List Statement} (hblock : block.Proper)
    (hok : body parts block p = .ok xs q) : q = p ∧ ListFrom p.loops block.children xs := by
  obtain ⟨rfl, b, hsep⟩ := (hparts.reads hextend p.loops).sequence.within rfl hblock hok
  exact ⟨rfl, .of_separated hsep⟩

/-- A conditional with an `else` covers its condition, the statements of its block and those of what
follows the `else`. -/
theorem branch_covers {loops : List (Option String)} {s c elseTokens ts : List Token}
    {yesBlock : Token} {condition : Expr} {yes no : List Statement} {l : Location}
    (hread : Expr.ReadFrom s c condition) (hyes : ListFrom loops yesBlock.children yes)
    (hno : l.Spans ts) (hparts : ∀ part ∈ no.map Statement.loc, part.Amid ts)
    (ho : Ordered (t :: (s ++ c ++ yesBlock :: elseTokens ++ ts))) :
    ((t.loc.join yesBlock.loc).join l).Covers [] (t :: (s ++ c ++ yesBlock :: elseTokens ++ ts))
      (condition.loc :: (yes ++ no).map Statement.loc) := by
  have htokens : t :: (s ++ c ++ yesBlock :: elseTokens ++ ts)
      = t :: (s ++ c ++ [yesBlock]) ++ (elseTokens ++ ts) := by simp
  have hyesSpans : (t.loc.join yesBlock.loc).Spans (t :: (s ++ c ++ [yesBlock])) :=
    (spans_singleton t).join (spans_singleton yesBlock) (htokens ▸ ho).of_append.1
  refine covers_whole ?_ ho ?_
  · have hspans := hyesSpans.join hno (by simpa using ho)
    simpa using hspans
  · intro part hpart
    rw [List.map_append] at hpart
    rcases List.mem_cons.1 hpart with rfl | hpart
    · exact ((hread.amid.append_left _).append_left _).cons t
    · rcases List.mem_append.1 hpart with hpart | hpart
      · exact ((((hyes.amid part hpart).interior _).append_right _).append_left _).cons t
      · exact ((hparts part hpart).append_right _).cons t

/-- The rest of a conditional. -/
theorem conditional_reads (hparts : Sound parts) (hextend : ∀ p t, parts.extend? p t = none)
    (ho : Ordered (t :: p.rest)) (hword : t.isReserved .ifThen)
    (hok : conditional parts (Expr.grammar level) t p = .ok x q) :
    ∃ more, p.Consumes more q ∧ ReadFrom p.loops [] (t :: more) x := by
  unfold conditional at hok
  obtain ⟨condition, r₁, hcondition, hok⟩ := bind_ok.1 hok
  obtain ⟨yesBlock, r₂, hyesBlock, hok⟩ := bind_ok.1 hok
  obtain ⟨yes, r₃, hyes, hok⟩ := bind_ok.1 hok
  obtain ⟨else?, r₄, helse, hbranch⟩ := bind_ok.1 hok
  obtain ⟨used, hused, ⟨s, c, rfl, hread, -⟩, -⟩ :=
    (Expr.grammar_sound level).parse ho.tail hcondition
  have ho₁ := hused.ordered ho.tail
  obtain ⟨hyesUsed, hyesBody⟩ := expectBody_ok hyesBlock
  obtain ⟨rfl, hyesFrom⟩ := body_reads hparts hextend (hyesUsed.proper ho₁) hyes
  have hr₂ := hused.trans hyesUsed
  rw [hr₂.loops] at hyesFrom
  have ho₂ := hr₂.ordered ho.tail
  rcases acceptElse_ok helse with ⟨rfl, rfl⟩ | ⟨u, elseTokens, rfl, helseUsed, hisElse⟩
  · obtain ⟨rfl, rfl⟩ := pure_ok.1 hbranch
    have hall : Ordered (t :: (s ++ c ++ [yesBlock])) := (hr₂.ordered_before (s := [t]) ho).1
    refine ⟨_, hr₂, .branch hword hread hyesBody hyesFrom (covers_whole ?_ hall ?_)⟩
    · exact (spans_singleton t).join (spans_singleton yesBlock) hall
    · intro part hpart
      rcases List.mem_cons.1 hpart with rfl | hpart
      · exact (hread.amid.append_left _).cons t
      · exact (((hyesFrom.amid part hpart).interior []).append_right _).cons t
  · have hr₄ := hr₂.trans helseUsed
    have ho₄ := hr₄.ordered ho.tail
    obtain ⟨chained?, r₅, hchained, hrest⟩ := bind_ok.1 hbranch
    rcases accept_ok hchained with ⟨rfl, rfl, -⟩ | ⟨chained, rfl, hchainedUsed, hif⟩
    · obtain ⟨noBlock, r₆, hnoBlock, hrest⟩ := bind_ok.1 hrest
      obtain ⟨no, r₇, hno, hresult⟩ := bind_ok.1 hrest
      obtain ⟨rfl, rfl⟩ := pure_ok.1 hresult
      obtain ⟨hnoUsed, hnoBody⟩ := expectBody_ok hnoBlock
      obtain ⟨rfl, hnoFrom⟩ := body_reads hparts hextend (hnoUsed.proper ho₄) hno
      have hp := hr₄.trans hnoUsed
      rw [hp.loops] at hnoFrom
      have htokens : s ++ c ++ [yesBlock] ++ elseTokens ++ [noBlock]
          = s ++ c ++ yesBlock :: elseTokens ++ [noBlock] := by simp
      rw [htokens] at hp
      have hall := (hp.ordered_before (s := [t]) ho).1
      refine ⟨_, hp, .branchElse hword hread hyesBody hyesFrom hisElse hnoBody hnoFrom
        (branch_covers hread hyesFrom (spans_singleton noBlock) (fun part hpart => ?_) hall)⟩
      exact (hnoFrom.amid part hpart).interior []
    · obtain ⟨no, r₆, hno, hresult⟩ := bind_ok.1 hrest
      obtain ⟨rfl, rfl⟩ := pure_ok.1 hresult
      obtain ⟨more, sNo, cNo, hmore, hsc, hnoFrom, hskip⟩ :=
        hparts chained _ no _ (hchainedUsed.ordered_cons ho₄) hno
      obtain rfl := hskip hif
      rw [List.nil_append] at hsc
      subst hsc
      have hr₅ := hr₄.trans hchainedUsed
      rw [hr₅.loops] at hnoFrom
      have hp := hr₅.trans hmore
      have htokens : s ++ c ++ [yesBlock] ++ elseTokens ++ [chained] ++ more
          = s ++ c ++ yesBlock :: elseTokens ++ chained :: more := by simp
      rw [htokens] at hp
      have hall := (hp.ordered_before (s := [t]) ho).1
      refine ⟨_, hp, .branchChain hword hread hyesBody hyesFrom hisElse hif hnoFrom
        (branch_covers hread hyesFrom hnoFrom.spans (fun part hpart => ?_) hall)⟩
      obtain rfl := List.mem_singleton.1 hpart
      exact hnoFrom.amid

/-- The rest of a loop. -/
theorem loop_reads (hparts : Sound parts) (hextend : ∀ p t, parts.extend? p t = none)
    (ho : Ordered (t :: p.rest)) (hword : t.isReserved .forever)
    (hok : loop parts t p = .ok x q) :
    ∃ more, p.Consumes more q ∧ ReadFrom p.loops [] (t :: more) x := by
  unfold loop at hok
  obtain ⟨label?, r₁, hlabel, hok⟩ := bind_ok.1 hok
  obtain ⟨block, r₂, hblock, hok⟩ := bind_ok.1 hok
  obtain ⟨inner, r₃, hinner, hresult⟩ := bind_ok.1 hok
  obtain ⟨rfl, rfl⟩ := pure_ok.1 hresult
  have hlabelled : p.Consumes label?.toList r₁ ∧
      ∀ u, label? = some u → u.kind = .identifier ∧ IsName u.text := by
    rcases accept_ok hlabel with ⟨rfl, rfl, -⟩ | ⟨u, rfl, hused, hkind⟩
    · exact ⟨Consumes.refl _, fun u hu => nomatch hu⟩
    · refine ⟨hused, fun u' hu' => ?_⟩
      cases hu'
      have hkind : u.kind = .identifier := by simpa using hkind
      exact ⟨hkind, ((proper_iff u).1 (hused.proper ho.tail)).1 hkind⟩
  obtain ⟨hused, hisBody⟩ := expectBody_ok hblock
  have hp := hlabelled.1.trans hused
  have hproper : block.Proper := hused.proper (hlabelled.1.ordered ho.tail)
  have hbody : Reads (label?.map Token.text :: p.loops) (body parts block) fun used xs =>
      used = [] ∧ ListFrom (label?.map Token.text :: p.loops) block.children xs := by
    intro r xs r' hr _ hxs
    obtain ⟨rfl, hfrom⟩ := body_reads hparts hextend hproper hxs
    exact ⟨[], Consumes.refl _, rfl, hr ▸ hfrom⟩
  obtain ⟨_, hr₃, rfl, hfrom⟩ := hbody.insideLoop _ _ _ hp.loops (hp.ordered ho.tail) hinner
  have hr₃ : r₃ = r₂ := hr₃.2
  subst hr₃
  have hall : Ordered (t :: (label?.toList ++ [block])) := (hp.ordered_before (s := [t]) ho).1
  refine ⟨_, hp, .forever hword hlabelled.2 hisBody hfrom (covers_whole ?_ hall ?_)⟩
  · exact (spans_singleton t).join (spans_singleton block) hall
  · intro part hpart
    exact (((hfrom.amid part hpart).interior []).append_right _).cons t

/-- The rest of a break. -/
theorem leaveLoop_reads (ho : Ordered (t :: p.rest)) (hword : t.isReserved .breakLoop)
    (hok : leaveLoop t p = .ok x q) :
    ∃ more, p.Consumes more q ∧ ReadFrom p.loops [] (t :: more) x := by
  unfold leaveLoop at hok
  obtain ⟨label?, r, hlabel, hrest⟩ := bind_ok.1 hok
  rcases accept_ok hlabel with ⟨rfl, rfl, -⟩ | ⟨u, rfl, hused, hkind⟩
  · obtain ⟨r', r'', hget, hrest⟩ := bind_ok.1 hrest
    obtain ⟨rfl, rfl⟩ := get_ok.1 hget
    cases hdepth : r.loopDepth? none with
    | none =>
      simp only [hdepth] at hrest
      exact absurd hrest unexpected_ne_ok
    | some depth =>
      simp only [hdepth] at hrest
      obtain ⟨rfl, rfl⟩ := pure_ok.1 hrest
      simp only [Parser.loopDepth?] at hdepth
      split at hdepth
      · cases hdepth
      · rename_i hinside
        cases hdepth
        refine ⟨[], Consumes.refl _, .breakInnermost hword ?_⟩
        simpa using hinside
  · obtain ⟨r', r'', hget, hrest⟩ := bind_ok.1 hrest
    obtain ⟨rfl, rfl⟩ := get_ok.1 hget
    cases hdepth : r.loopDepth? (some u.text) with
    | none =>
      simp only [hdepth] at hrest
      exact absurd hrest unexpected_ne_ok
    | some depth =>
      simp only [hdepth] at hrest
      obtain ⟨rfl, rfl⟩ := pure_ok.1 hrest
      have hinside : p.loops.findIdx? (· == some u.text) = some depth := by
        rw [← hused.loops]
        exact hdepth
      have hall : Ordered [t, u] := (hused.ordered_before (s := [t]) ho).1
      refine ⟨[u], hused, .breakLabelled hword (by simpa using hkind) hinside
        (covers_whole ?_ hall fun part hpart => absurd hpart List.not_mem_nil)⟩
      exact (spans_singleton t).join (s := []) (spans_singleton u) hall

theorem ofApplication_ok {e : Expr} (hok : ofApplication e p = .ok x q) :
    q = p ∧ ∃ l style function args, e = .apply l style function args ∧
      x = .call l style function args := by
  cases e with
  | apply l style function args =>
    obtain ⟨rfl, rfl⟩ := pure_ok.1 hok
    exact ⟨rfl, l, style, function, args, rfl, rfl⟩
  | addressOf | asType | buffer | ifThen | index | number | tuple | valueAt | ident =>
    exact absurd hok fail_ne_ok

/-- A place skips nothing. -/
theorem Expr.ReadFrom.of_place {s c : List Token} {target : Place}
    (h : Expr.ReadFrom s c target.toExpr) : s = [] := by
  generalize he : target.toExpr = e at h
  cases h with
  | backtick | operator => cases target <;> simp [Place.toExpr] at he
  | ident | number | paren | tuple | buffer | negate | valueAt | addressOf | ifThen | index
  | listCall | juxtaposition | ascription => rfl

/-- An assignment or a call. -/
theorem assignmentOrCall_reads (ho : Ordered (t :: p.rest))
    (hok : assignmentOrCall (Expr.grammar level) t p = .ok x q) :
    ∃ more s c, p.Consumes more q ∧ t :: more = s ++ c ∧ ReadFrom p.loops s c x := by
  unfold assignmentOrCall at hok
  obtain ⟨e, r₁, he, hok⟩ := bind_ok.1 hok
  obtain ⟨equals?, r₂, hequals, hrest⟩ := bind_ok.1 hok
  obtain ⟨used, hused, ⟨s, c, hsc, hread, -⟩, -⟩ := Expr.grammar_sound level 0 t p e r₁ ho he
  rcases accept_ok hequals with ⟨rfl, rfl, -⟩ | ⟨sign, rfl, hsignUsed, hsign⟩
  · obtain ⟨next?, r₃, hpeek, hrest⟩ := bind_ok.1 hrest
    obtain ⟨rfl, rfl⟩ := peek_ok hpeek
    have hcall : ofApplication e r₃ = .ok x q := by
      cases hnext : r₃.rest.head? with
      | none =>
        simp only [hnext] at hrest
        exact hrest
      | some next =>
        simp only [hnext] at hrest
        split at hrest
        · exact hrest
        · exact absurd hrest unexpected_ne_ok
    obtain ⟨rfl, l, style, function, args, rfl, rfl⟩ := ofApplication_ok hcall
    exact ⟨used, s, c, hused, hsc, .call hread⟩
  · obtain ⟨value, r₃, hvalue, hrest⟩ := bind_ok.1 hrest
    obtain ⟨target, r₄, htarget, hresult⟩ := bind_ok.1 hrest
    obtain ⟨rfl, rfl⟩ := Expr.expectPlace_ok htarget
    obtain ⟨rfl, rfl⟩ := pure_ok.1 hresult
    obtain rfl := Expr.ReadFrom.of_place hread
    rw [List.nil_append] at hsc
    subst hsc
    have hr₂ := hused.trans hsignUsed
    obtain ⟨more, hmore, ⟨sValue, cValue, rfl, hvalueRead, -⟩, -⟩ :=
      (Expr.grammar_sound level).parse (hr₂.ordered ho.tail) hvalue
    have hp := hr₂.trans hmore
    have htokens : t :: (used ++ [sign] ++ (sValue ++ cValue))
        = t :: used ++ sign :: (sValue ++ cValue) := by simp
    have hall : Ordered (t :: used ++ sign :: (sValue ++ cValue)) :=
      htokens ▸ (hp.ordered_before (s := [t]) ho).1
    refine ⟨_, [], _, hp, htokens, .assign hread hsign hvalueRead (covers_whole ?_ hall ?_)⟩
    · exact hread.spans.join (s := sign :: sValue) hvalueRead.spans hall
    · simp only [List.mem_cons, List.not_mem_nil, or_false]
      rintro part (rfl | rfl)
      · rw [← Place.toExpr_loc]
        exact hread.spans.amid.append_left _
      · exact (hvalueRead.amid.cons sign).append_right _

/-- What has been read of a statement that begins with a token: one form for each way to begin. -/
inductive Begins (parts : Grammar Statement) (bindings : Grammar Binding) (values : Grammar Expr)
    (t : Token) (p : Parser) : Statement → Parser → Prop
  | conditional {x : Statement} {q : Parser} (word : t.isReserved .ifThen)
      (parse : Statement.conditional parts values t p = .ok x q) :
      Begins parts bindings values t p x q
  | forever {x : Statement} {q : Parser} (word : t.isReserved .forever)
      (parse : loop parts t p = .ok x q) : Begins parts bindings values t p x q
  | breakLoop {x : Statement} {q : Parser} (word : t.isReserved .breakLoop)
      (parse : leaveLoop t p = .ok x q) : Begins parts bindings values t p x q
  | letBind {all : List Binding} {q : Parser} (word : t.isReserved .letBind)
      (parse : Binding.parseAll bindings p = .ok all q) :
      Begins parts bindings values t p (.letBind (Binding.letLoc t all) all) q
  | returnValue {value : Expr} {q : Parser} (word : t.isReserved .returnValue)
      (parse : values.parse 0 p = .ok value q) :
      Begins parts bindings values t p (.returnValue (t.loc.join value.loc) value) q
  | nested {inner : List Statement} {q : Parser} (isBody : IsBody t)
      (parse : body parts t p = .ok inner q) :
      Begins parts bindings values t p (.nested t.loc inner) q
  | assignmentOrCall {x : Statement} {q : Parser} (word : t.isReserved .ifThen = false)
      (parse : Statement.assignmentOrCall values t p = .ok x q) :
      Begins parts bindings values t p x q

/-- A statement begins in one of these ways. -/
theorem start_cases {bindings : Grammar Binding} {values : Grammar Expr}
    (hok : start parts bindings values t p = .ok x q) : Begins parts bindings values t p x q := by
  -- what is no statement word begins a block, an assignment or a call
  have hsimple (hword : t.isReserved .ifThen = false) (hok : simple parts values t p = .ok x q) :
      Begins parts bindings values t p x q := by
    unfold simple at hok
    split at hok
    · rename_i hbody
      obtain ⟨inner, r, hinner, hresult⟩ := bind_ok.1 hok
      obtain ⟨rfl, rfl⟩ := pure_ok.1 hresult
      exact .nested hbody hinner
    · exact .assignmentOrCall hword hok
  unfold start at hok
  rcases hreserved : t.reserved? with _ | w
  · simp only [hreserved] at hok
    exact hsimple (by simp [Token.isReserved, hreserved]) hok
  · cases w
    case ifThen =>
      simp only [hreserved] at hok
      exact .conditional (isReserved_iff.2 hreserved) hok
    case forever =>
      simp only [hreserved] at hok
      exact .forever (isReserved_iff.2 hreserved) hok
    case breakLoop =>
      simp only [hreserved] at hok
      exact .breakLoop (isReserved_iff.2 hreserved) hok
    case letBind =>
      simp only [hreserved] at hok
      obtain ⟨all, r, hall, hresult⟩ := bind_ok.1 hok
      obtain ⟨rfl, rfl⟩ := pure_ok.1 hresult
      exact .letBind (isReserved_iff.2 hreserved) hall
    case returnValue =>
      simp only [hreserved] at hok
      obtain ⟨value, r, hvalue, hresult⟩ := bind_ok.1 hok
      obtain ⟨rfl, rfl⟩ := pure_ok.1 hresult
      exact .returnValue (isReserved_iff.2 hreserved) hvalue
    case negate | valueAt | addressOf =>
      simp only [hreserved] at hok
      exact hsimple (by simp [Token.isReserved, hreserved]) hok
    all_goals
      simp only [hreserved] at hok
      exact absurd hok unexpected_ne_ok

/-- Reading a statement that begins with a token, given that its parts are read. -/
theorem start_reads (hparts : Sound parts) (hextend : ∀ p t, parts.extend? p t = none)
    (ho : Ordered (t :: p.rest))
    (hok : start parts (Binding.grammar level) (Expr.grammar level) t p = .ok x q) :
    ∃ more s c, p.Consumes more q ∧ t :: more = s ++ c ∧ ReadFrom p.loops s c x ∧
      (t.isReserved .ifThen → s = []) := by
  have hwhole : (∃ more, p.Consumes more q ∧ ReadFrom p.loops [] (t :: more) x) →
      ∃ more s c, p.Consumes more q ∧ t :: more = s ++ c ∧ ReadFrom p.loops s c x ∧
        (t.isReserved .ifThen → s = []) := by
    rintro ⟨more, hmore, hread⟩
    exact ⟨more, [], _, hmore, rfl, hread, fun _ => rfl⟩
  cases start_cases hok with
  | conditional word parse => exact hwhole (conditional_reads hparts hextend ho word parse)
  | forever word parse => exact hwhole (loop_reads hparts hextend ho word parse)
  | breakLoop word parse => exact hwhole (leaveLoop_reads ho word parse)
  | letBind word parse =>
    obtain ⟨used, hused, hfrom⟩ := Binding.parseAll_reads level p.loops _ _ _ rfl ho.tail parse
    exact hwhole ⟨used, hused, .letBind word hfrom
      (hfrom.letLoc_covers (hused.ordered_before (s := [t]) ho).1)⟩
  | returnValue word parse =>
    obtain ⟨used, hused, ⟨s, c, rfl, hread, -⟩, -⟩ :=
      (Expr.grammar_sound level).parse ho.tail parse
    have hall : Ordered (t :: (s ++ c)) := (hused.ordered_before (s := [t]) ho).1
    refine hwhole ⟨_, hused, .returnValue word hread (covers_whole ?_ hall ?_)⟩
    · exact (spans_singleton t).join hread.spans hall
    · simpa using hread.amid.cons t
  | nested isBody parse =>
    obtain ⟨rfl, hfrom⟩ := body_reads hparts hextend ho.head parse
    exact hwhole ⟨[], Consumes.refl _, .nested isBody hfrom (covers_block ho.head hfrom.amid)⟩
  | assignmentOrCall word parse =>
    obtain ⟨more, s, c, hmore, hsc, hread⟩ := assignmentOrCall_reads ho parse
    refine ⟨more, s, c, hmore, hsc, hread, fun hif => ?_⟩
    rw [word] at hif
    cases hif

/-- Nothing continues a statement. -/
theorem grammar_extend? (level : Nat) (p : Parser) (t : Token) :
    (grammar level).extend? p t = none := by
  cases level <;> rfl

/-- The grammar of statements reads derivable statements only. -/
theorem grammar_sound (level : Nat) : Sound (grammar level) := by
  induction level with
  | zero =>
    intro t p x q _ hok
    exact absurd hok unexpected_ne_ok
  | succ level ih =>
    intro t p x q ho hok
    exact start_reads ih (grammar_extend? level) ho hok

end Statement

/-! ## Declarations -/

namespace Declaration

/-- The rest of a function. -/
theorem functionRest_reads {level : Nat} {t : Token} {p q : Parser} {d : Declaration}
    (hp : p.loops = []) (ho : Ordered (t :: p.rest)) (hword : t.isReserved .define)
    (hok : functionRest level t p = .ok d q) :
    ∃ more, p.Consumes more q ∧ ReadFrom (t :: more) d := by
  unfold functionRest at hok
  obtain ⟨name, r₁, hname, hok⟩ := bind_ok.1 hok
  obtain ⟨list, r₂, hlist, hok⟩ := bind_ok.1 hok
  obtain ⟨⟨params, comma⟩, r₃, hparams, hok⟩ := bind_ok.1 hok
  obtain ⟨result, r₄, hresult, hok⟩ := bind_ok.1 hok
  obtain ⟨block, r₅, hblock, hok⟩ := bind_ok.1 hok
  obtain ⟨body, r₆, hbody, hfinal⟩ := bind_ok.1 hok
  obtain ⟨rfl, rfl⟩ := pure_ok.1 hfinal
  obtain ⟨hnameUsed, hkind⟩ := expect_ok hname
  have hkind : name.kind = .identifier := by simpa using hkind
  have hisName := ((proper_iff name).1 (hnameUsed.proper ho.tail)).1 hkind
  have ho₁ := hnameUsed.ordered ho.tail
  obtain ⟨hlistUsed, hbracket⟩ := expect_ok hlist
  obtain ⟨rfl, hsep⟩ := ((Reference.grammar_reads level).parse _ 0).list.within rfl
    (hlistUsed.proper ho₁) hparams
  have hr₂ := hnameUsed.trans hlistUsed
  obtain ⟨used, hused, hread⟩ :=
    TypeExpr.grammar_reads level _ 0 _ _ _ rfl (hr₂.ordered ho.tail) hresult
  have hr₄ := hr₂.trans hused
  obtain ⟨hblockUsed, hisBody⟩ := expectBody_ok hblock
  obtain ⟨rfl, hfrom⟩ := Statement.body_reads (Statement.grammar_sound level)
    (Statement.grammar_extend? level) (hblockUsed.proper (hr₄.ordered ho.tail)) hbody
  have hall := hr₄.trans hblockUsed
  rw [hall.loops, hp] at hfrom
  have htokens : [name] ++ [list] ++ used ++ [block] = name :: list :: (used ++ [block]) := by simp
  rw [htokens] at hall
  have hordered := (hall.ordered_before (s := [t]) ho).1
  refine ⟨_, hall, .function hword hkind hisName hbracket hsep hread hisBody hfrom
    (covers_whole ?_ hordered ?_)⟩
  · exact (spans_singleton t).join (s := name :: list :: used) (spans_singleton block) hordered
  · intro part hpart
    rw [List.cons_append, List.mem_cons, List.mem_append] at hpart
    rcases hpart with rfl | hpart | hpart
    · exact (((hread.spans.amid.append_left _).cons list).cons name).cons t
    · exact (((hsep.amid (fun ts r h => h.spans.amid) part hpart).interior _).cons name).cons t
    · exact (((((hfrom.amid part hpart).interior []).append_right _).cons list).cons name).cons t

/-- The grammar of declarations reads derivable ones only, outside of all loops. -/
theorem grammar_reads (level power : Nat) :
    Reads [] ((grammar level).parse power) ReadFrom := by
  intro p d q hp ho hok
  obtain ⟨t, ht, hok⟩ := Grammar.parse_ok hok
  replace hok : start level t (p.pass t) = .ok d q :=
    Grammar.continueFrom_start (fun _ _ => rfl) hok
  have hot := ht.ordered_cons ho
  suffices h : ∃ more, (p.pass t).Consumes more q ∧ ReadFrom (t :: more) d by
    obtain ⟨more, hmore, hread⟩ := h
    exact ⟨t :: more, ht.trans hmore, hread⟩
  unfold start at hok
  rcases hreserved : t.reserved? with _ | w
  · simp only [hreserved] at hok
    exact absurd hok unexpected_ne_ok
  · cases w
    case define =>
      simp only [hreserved] at hok
      exact functionRest_reads hp hot (isReserved_iff.2 hreserved) hok
    case letBind =>
      simp only [hreserved] at hok
      obtain ⟨all, r, hall, hresult⟩ := bind_ok.1 hok
      obtain ⟨rfl, rfl⟩ := pure_ok.1 hresult
      obtain ⟨used, hused, hfrom⟩ := Binding.parseAll_reads level _ _ _ _ rfl hot.tail hall
      exact ⟨used, hused, .letBind (isReserved_iff.2 hreserved) hfrom
        (hfrom.letLoc_covers (hused.ordered_before (s := [t]) hot).1)⟩
    all_goals
      simp only [hreserved] at hok
      exact absurd hok unexpected_ne_ok

end Declaration

end Offside
