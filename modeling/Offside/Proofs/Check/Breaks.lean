import Offside.Proofs.Check.Stages
import Offside.Proofs.Grammar.Locations

/-!
# Breaks stay inside their function

* `Statement.ResolvesBreak`: a break leaves one of the loops around it, and another than the
  innermost only by a label that no loop nearer to it carries.
  `Statement.BreaksResolved`, `Statement.BreaksResolvedAll`: so do all breaks of a statement, of a
  list.
* `Statement.ListFrom.breaksResolved`: all breaks of statements that are read are resolved.
* `Statement.BreaksResolvedAll.escape_lt`: control then leaves a list only for a loop around it, so
  that no function body is left by a break (`bodyViolation?_ne_breakEscapes`).
* `breaks_resolved`: breaks are resolved in every source text that is parsed, and no source text
  leads to a diagnostic of the internal phase.
-/

namespace Offside

open Token Parse

/-- A loop takes one level off a break that leaves its body. -/
theorem Escape.eq_breaks_of_ofLoop {e : Escape} {depth : Nat}
    (h : e.ofLoop = .breaks depth) : e = .breaks (depth + 1) := by
  rcases e with _ | _ | (_ | d)
  · cases h
  · cases h
  · cases h
  · cases h
    rfl

namespace Statement

/-! ## Resolved breaks -/

/-- A break out of the loop at `depth`, inside loops with the given labels, innermost first. -/
def ResolvesBreak (loops : List (Option String)) (depth : Nat) : Prop :=
  depth < loops.length ∧
    (0 < depth → ∃ label, loops[depth]? = some (some label) ∧
      ∀ i < depth, loops[i]? ≠ some (some label))

mutual

/-- All breaks of a statement inside loops are resolved. -/
def BreaksResolved : (loops : List (Option String)) → Statement → Prop
  | loops, breakLoop _ depth => ResolvesBreak loops depth
  | loops, forever _ label? body => BreaksResolvedAll (label? :: loops) body
  | loops, branch _ _ yes no => BreaksResolvedAll loops yes ∧ BreaksResolvedAll loops no
  | loops, nested _ body => BreaksResolvedAll loops body
  | _, assign .. | _, call .. | _, letBind .. | _, returnValue .. => True

/-- All breaks of some statements inside loops are resolved. -/
def BreaksResolvedAll : (loops : List (Option String)) → List Statement → Prop
  | _, [] => True
  | loops, x :: xs => BreaksResolved loops x ∧ BreaksResolvedAll loops xs

end

/-- A label resolves to the innermost loop that carries it. -/
theorem resolvesBreak_of_findIdx? {loops : List (Option String)} {label : String} {depth : Nat}
    (h : loops.findIdx? (· == some label) = some depth) : ResolvesBreak loops depth := by
  obtain ⟨hlt, hlabel, hnearer⟩ := List.findIdx?_eq_some_iff_getElem.1 h
  refine ⟨hlt, fun _ => ⟨label, ?_, fun i hi hcarries => ?_⟩⟩
  · rw [List.getElem?_eq_getElem hlt, beq_iff_eq.1 hlabel]
  · have hcarried : loops[i] = some label := by
      rw [List.getElem?_eq_getElem (Nat.lt_trans hi hlt)] at hcarries
      exact Option.some.inj hcarries
    exact hnearer i hi (beq_iff_eq.2 hcarried)

mutual

/-- All breaks of a statement that is read are resolved. -/
theorem ReadFrom.breaksResolved {loops : List (Option String)} {s c : List Token} {x : Statement} :
    ReadFrom loops s c x → BreaksResolved loops x
  | .assign .. | .call .. | .letBind .. | .returnValue .. => trivial
  | .breakInnermost _ inside =>
    ⟨List.length_pos_iff.2 inside, fun h => absurd h (Nat.lt_irrefl 0)⟩
  | .breakLabelled _ _ inside _ => resolvesBreak_of_findIdx? inside
  | .forever _ _ _ interior _ => interior.breaksResolved
  | .branch _ _ _ interior _ => ⟨interior.breaksResolved, trivial⟩
  | .branchElse _ _ _ yesFrom _ _ noFrom _ => ⟨yesFrom.breaksResolved, noFrom.breaksResolved⟩
  | .branchChain _ _ _ yesFrom _ _ noFrom _ =>
    ⟨yesFrom.breaksResolved, noFrom.breaksResolved, trivial⟩
  | .nested _ interior _ => interior.breaksResolved

/-- All breaks of statements that are read are resolved. -/
theorem ListFrom.breaksResolved {loops : List (Option String)} {ts : List Token}
    {xs : List Statement} : ListFrom loops ts xs → BreaksResolvedAll loops xs
  | .nil => trivial
  | .last h => ⟨h.breaksResolved, trivial⟩
  | .more h _ others => ⟨h.breaksResolved, others.breaksResolved⟩

end

/-! ## How control leaves -/

mutual

/-- Control leaves a statement whose breaks are resolved only for a loop around it. -/
theorem BreaksResolved.escape_lt {loops : List (Option String)} :
    (x : Statement) → BreaksResolved loops x → ∀ depth, escape x = .breaks depth →
      depth < loops.length
  | returnValue .., _, _, h | assign .., _, _, h | call .., _, _, h | letBind .., _, _, h => by
    rw [escape] at h
    cases h
  | breakLoop .., hx, _, h => by
    rw [escape] at h
    cases h
    rw [BreaksResolved] at hx
    exact hx.1
  | nested _ body, hx, depth, h => by
    rw [escape] at h
    rw [BreaksResolved] at hx
    exact BreaksResolvedAll.escape_lt body hx depth h
  | branch _ _ yes no, hx, depth, h => by
    rw [escape, Escape.worse] at h
    rw [BreaksResolved] at hx
    split at h
    · exact BreaksResolvedAll.escape_lt no hx.2 depth h
    · exact BreaksResolvedAll.escape_lt yes hx.1 depth h
  | forever _ label? body, hx, depth, h => by
    rw [escape] at h
    rw [BreaksResolved] at hx
    have hbody : escapeAll body = .breaks (depth + 1) := Escape.eq_breaks_of_ofLoop h
    exact Nat.lt_of_succ_lt_succ (BreaksResolvedAll.escape_lt body hx _ hbody)

/-- Control leaves statements whose breaks are resolved only for a loop around them. -/
theorem BreaksResolvedAll.escape_lt {loops : List (Option String)} :
    (xs : List Statement) → BreaksResolvedAll loops xs → ∀ depth, escapeAll xs = .breaks depth →
      depth < loops.length
  | [], _, _, h => by
    rw [escapeAll] at h
    cases h
  | x :: xs, hxs, depth, h => by
    rw [BreaksResolvedAll] at hxs
    rw [escapeAll] at h
    split at h
    · exact BreaksResolved.escape_lt x hxs.1 depth h
    · exact BreaksResolvedAll.escape_lt xs hxs.2 depth h

end

end Statement

/-- A body whose breaks are resolved is left by no break. -/
theorem bodyViolation?_ne_breakEscapes {body : List Statement}
    (h : Statement.BreaksResolvedAll [] body) : bodyViolation? body ≠ some .breakEscapes := by
  rw [bodyViolation?]
  cases hescape : Statement.escapeAll body with
  | settled => exact nofun
  | falls => exact nofun
  | breaks depth => exact absurd (h.escape_lt body depth hescape) (Nat.not_lt_zero depth)

/-! ## Source texts -/

/-- All breaks of a declaration are resolved in it. -/
def Declaration.BreaksResolved : Declaration → Prop
  | function _ _ _ _ body => Statement.BreaksResolvedAll [] body
  | letBind .. => True

/-- All breaks of a declaration that is read are resolved in it. -/
theorem Declaration.ReadFrom.breaksResolved {ts : List Token} {d : Declaration}
    (h : Declaration.ReadFrom ts d) : d.BreaksResolved := by
  cases h with
  | function _ _ _ _ _ _ _ statements => exact statements.breaksResolved
  | letBind => trivial

section Source

variable {source : String} {tokens laidOut : List Token} {span : Location}

/-- All breaks of the declarations of a source text are resolved. -/
theorem declarations_breaksResolved {ds : List Declaration}
    (hlex : Token.ofSource source = .ok tokens) (hlayout : Layout.layout tokens = .ok laidOut)
    (hparse : parseDeclarations span laidOut = .ok ds) : ∀ d ∈ ds, d.BreaksResolved := by
  obtain ⟨b, hfrom⟩ :=
    declarations_from_of_parseDeclarations (ordered_of_source hlex hlayout) hparse
  exact hfrom.all fun _ _ hd => hd.breaksResolved

/-- No source text leads to a diagnostic of the internal phase. -/
theorem compile_phase_ne_internal {requireMain : Bool} {e : Located Cause}
    (h : Frontend.compile requireMain source = .error (.reported e)) :
    e.diagnostic.phase ≠ .internal := by
  rcases Frontend.compile_error_cases h with ⟨e', -, he⟩ | ⟨tokens, hlex, ⟨e', -, he⟩ |
    ⟨laidOut, hlayout, ⟨e', -, he⟩ | ⟨ds, e', hparse, hcheck, he⟩⟩⟩
  · cases he
    exact nofun
  · cases e' <;> cases he
    exact nofun
  · cases e' <;> cases he
    exact nofun
  · cases he
    have hviolation : e'.cause ≠ .breakEscapes := by
      rcases hcheck with hreturns | hentry
      · obtain ⟨name, params, result, body, hmem, hbody⟩ := checkReturns_error hreturns
        have hresolved := declarations_breaksResolved hlex hlayout hparse _ hmem
        intro hcause
        exact bodyViolation?_ne_breakEscapes hresolved (hcause ▸ hbody)
      · exact checkEntry_error hentry
    -- of all violations only that one is reported in the internal phase
    obtain ⟨violation, loc⟩ := e'
    cases violation with
    | breakEscapes => exact absurd rfl hviolation
    | _ => exact nofun

end Source

/-- Breaks are resolved inside their function, and inside their list of statements, in every source
text that is parsed. So no source text leads to a diagnostic of the internal phase. -/
theorem breaks_resolved (source : String) :
    (∀ span tokens laidOut, Token.ofSource source = .ok tokens →
      Layout.layout tokens = .ok laidOut →
      (∀ xs, parseStatements span laidOut = .ok xs → Statement.BreaksResolvedAll [] xs) ∧
      ∀ ds, parseDeclarations span laidOut = .ok ds → ∀ d ∈ ds, d.BreaksResolved) ∧
    ∀ requireMain e, Frontend.compile requireMain source = .error (.reported e) →
      e.diagnostic.phase ≠ .internal := by
  refine ⟨fun span tokens laidOut hlex hlayout => ⟨fun xs hparse => ?_, fun ds hparse => ?_⟩,
    fun requireMain e => compile_phase_ne_internal⟩
  · have hfrom := statements_from_of_parseStatements (ordered_of_source hlex hlayout) hparse
    exact hfrom.breaksResolved
  · exact declarations_breaksResolved hlex hlayout hparse

/-- Breaks out of a loop around loops, by label, in statements; and a function that may fall through
after its loop. -/
theorem breaks_resolved_labels :
    (∃ tokens laidOut xs,
      Token.ofSource
          "forever a \x7b forever b \x7b forever \x7b break a; break b; break \x7d \x7d \x7d"
        = .ok tokens ∧ Layout.layout tokens = .ok laidOut ∧
      parseStatements (.point .origin) laidOut = .ok xs ∧ Statement.BreaksResolvedAll [] xs) ∧
    ∃ e, Frontend.compile false "def f() () \x7b forever \x7b break \x7d \x7d"
        = .error (.reported e) ∧ e.diagnostic.phase ≠ .internal := by
  constructor
  · obtain ⟨tokens, laidOut, xs, hlex, hlayout, hparse⟩ :=
      exists_parsed
        "forever a \x7b forever b \x7b forever \x7b break a; break b; break \x7d \x7d \x7d"
        (parseStatements (.point .origin)) (by decide +kernel)
    exact ⟨tokens, laidOut, xs, hlex, hlayout, hparse,
      ((breaks_resolved _).1 _ tokens laidOut hlex hlayout).1 xs hparse⟩
  · have herror : Frontend.compile false "def f() () \x7b forever \x7b break \x7d \x7d"
        = .error (.reported ⟨.check .mayFallThrough,
          sourceSpan "def f() () \x7b forever \x7b break \x7d \x7d"⟩) := by
      rw [Frontend.compile, Frontend.tokenize, Token.ofSource_eq_trees]
      cbv
    exact ⟨_, herror, (breaks_resolved _).2 _ _ herror⟩

end Offside
