import Offside.Proofs.Check.Paths

/-!
# Where the verdict is exact

The check of `Offside.Check.Returns` keeps one verdict of each list. Nothing is lost by that where a
break stands beside nothing but statements that pass control on.

* `Statement.UnmixedAll`: in the list and in every list inside it, a statement whose verdict is a
  break is the only one whose verdict is not that control passes on.
* `Escape.exit?`: the exit that a verdict promises. `Statement.runsAll_of_exit?`: then some path has
  this exit.
* `Statement.escapeAll_isGreatest`: so the verdict is the highest rank of an exit, or that of
  returning if no path ends.
* `verdicts_exact`: and functions are accepted exactly if all their paths that end return.
-/

namespace Offside

namespace Escape

/-- The exit that a verdict promises, if it promises one. -/
def exit? : Escape → Option Exit
  | settled => none
  | falls => some .falls
  | breaks depth => some (.breaks depth)

/-- A verdict ranks as high as the exit that it promises. -/
theorem rank_of_exit? {e : Escape} {o : Exit} (h : e.exit? = some o) : o.rank = e.rank := by
  cases e <;> cases h <;> rfl

/-- A verdict that promises no exit is that of returning. -/
theorem eq_settled_of_exit? {e : Escape} (h : e.exit? = none) : e = settled := by
  cases e <;> first | rfl | cases h

/-- The worse of two verdicts is one of them. -/
theorem worse_cases (a b : Escape) : a.worse b = a ∨ a.worse b = b := by
  unfold worse
  split
  · exact Or.inr rfl
  · exact Or.inl rfl

/-- What a verdict on the body promises of a loop, an iteration does. -/
theorem exists_of_exit?_ofLoop {e : Escape} {o : Exit} (h : e.ofLoop.exit? = some o) :
    ∃ x, e.exit? = some x ∧ x.ofLoop = some o := by
  rcases e with _ | _ | (_ | depth)
  · cases h
  · cases h
  · exact ⟨.breaks 0, rfl, h⟩
  · exact ⟨.breaks (depth + 1), rfl, h⟩

/-- Of two verdicts that stand beside one another, a break allows only that control passes on. -/
def Compatible (a b : Escape) : Prop := (0 < a.rank → b = falls) ∧ (0 < b.rank → a = falls)

end Escape

namespace Statement

/-! ## Lists that mix no exits -/

mutual

/-- No list inside the statement mixes exits. -/
def Unmixed : Statement → Prop
  | forever _ _ body => UnmixedAll body
  | branch _ _ yes no => UnmixedAll yes ∧ UnmixedAll no
  | nested _ body => UnmixedAll body
  | _ => True

/-- The list mixes no exits, nor does any list inside it: beside a statement whose verdict is a
break every verdict is that control passes on. -/
def UnmixedAll : List Statement → Prop
  | [] => True
  | s :: ss => Unmixed s ∧ UnmixedAll ss ∧ ∀ t ∈ ss, (escape s).Compatible (escape t)

end

/-- A break is decided by one of the statements. -/
theorem exists_of_escapeAll_eq_breaks {ss : List Statement} {depth : Nat}
    (h : escapeAll ss = .breaks depth) : ∃ t ∈ ss, escape t = .breaks depth := by
  induction ss with
  | nil =>
    rw [escapeAll] at h
    cases h
  | cons s ss ih =>
    rw [escapeAll] at h
    split at h
    · exact ⟨s, List.mem_cons_self, h⟩
    · obtain ⟨t, ht, hbreaks⟩ := ih h
      exact ⟨t, List.mem_cons_of_mem _ ht, hbreaks⟩

/-- If all statements pass control on, so does the list. -/
theorem escapeAll_eq_falls {ss : List Statement} (h : ∀ t ∈ ss, escape t = .falls) :
    escapeAll ss = .falls := by
  induction ss with
  | nil => rw [escapeAll]
  | cons s ss ih =>
    obtain ⟨hs, hss⟩ := List.forall_mem_cons.1 h
    rw [escapeAll, ih hss, hs]

/-- A break before statements that mix no exits with it is decided by what stands before them. -/
theorem escapeAll_of_compatible {s : Statement} {ss : List Statement}
    (h : ∀ t ∈ ss, (escape s).Compatible (escape t)) (hs : 0 < (escape s).rank) :
    escapeAll ss = .falls :=
  escapeAll_eq_falls fun t ht => (h t ht).1 hs

mutual

/-- A statement that mixes no exits masks none. -/
theorem Unmixed.unmasked : (s : Statement) → Unmixed s → Unmasked s
  | forever _ _ body, h => by
    rw [Unmixed] at h
    rw [Unmasked]
    exact UnmixedAll.unmasked body h
  | branch _ _ yes no, h => by
    rw [Unmixed] at h
    rw [Unmasked]
    exact ⟨UnmixedAll.unmasked yes h.1, UnmixedAll.unmasked no h.2⟩
  | nested _ body, h => by
    rw [Unmixed] at h
    rw [Unmasked]
    exact UnmixedAll.unmasked body h
  | assign .., _ | call .., _ | letBind .., _ | returnValue .., _ | breakLoop .., _ => by
    simp only [Unmasked]

/-- A list that mixes no exits masks none. -/
theorem UnmixedAll.unmasked : (ss : List Statement) → UnmixedAll ss → UnmaskedAll ss
  | [], _ => by rw [UnmaskedAll]; trivial
  | s :: ss, h => by
    rw [UnmixedAll] at h
    obtain ⟨hs, hss, hbeside⟩ := h
    rw [UnmaskedAll]
    refine ⟨Unmixed.unmasked s hs, UnmixedAll.unmasked ss hss, ?_⟩
    by_cases hrank : 0 < (escape s).rank
    · exact Or.inl (escapeAll_of_compatible hbeside hrank)
    · exact Or.inr (Or.inl (Int.not_lt.1 hrank))

end

/-! ## The promised exit -/

mutual

/-- If no exits are mixed, a path through the statement has the exit that the verdict promises. -/
theorem runs_of_exit? : (s : Statement) → Unmixed s → ∀ o, (escape s).exit? = some o → Runs s o
  | returnValue .., _, o, h => by
    rw [escape] at h
    cases h
  | breakLoop loc depth, _, o, h => by
    rw [escape] at h
    cases h
    exact .breakLoop loc depth
  | assign loc target value, _, o, h => by
    rw [escape] at h
    cases h
    exact .assign loc target value
  | call loc style function args, _, o, h => by
    rw [escape] at h
    cases h
    exact .call loc style function args
  | letBind loc bindings, _, o, h => by
    rw [escape] at h
    cases h
    exact .letBind loc bindings
  | nested loc body, hu, o, h => by
    rw [Unmixed] at hu
    rw [escape] at h
    exact .nested (runsAll_of_exit? body hu o h)
  | branch loc condition yes no, hu, o, h => by
    rw [Unmixed] at hu
    rw [escape] at h
    rcases Escape.worse_cases (escapeAll yes) (escapeAll no) with heq | heq <;> rw [heq] at h
    · exact .yes (runsAll_of_exit? yes hu.1 o h)
    · exact .no (runsAll_of_exit? no hu.2 o h)
  | forever loc label? body, hu, o, h => by
    rw [Unmixed] at hu
    rw [escape] at h
    obtain ⟨x, hx, ho⟩ := Escape.exists_of_exit?_ofLoop h
    exact .leave (runsAll_of_exit? body hu x hx) ho

/-- If no exits are mixed, a path through the list has the exit that the verdict promises. -/
theorem runsAll_of_exit? : (ss : List Statement) → UnmixedAll ss →
    ∀ o, (escapeAll ss).exit? = some o → RunsAll ss o
  | [], _, o, h => by
    rw [escapeAll] at h
    cases h
    exact .nil
  | s :: ss, hu, o, h => by
    rw [UnmixedAll] at hu
    obtain ⟨hs, hss, hbeside⟩ := hu
    have ihs := runs_of_exit? s hs
    have ihss := runsAll_of_exit? ss hss
    rw [escapeAll] at h
    split at h
    · -- the others fall, so the first statement decides
      rename_i hothers
      have hfalls : RunsAll ss .falls := ihss .falls (by rw [hothers]; rfl)
      by_cases ho : o = .falls
      · subst ho
        exact .next (ihs .falls h) hfalls
      · exact .stop (ihs o h) ho
    · -- only a break is promised, and the first statement passes control on to it
      rename_i hothers
      cases hverdict : escapeAll ss with
      | settled =>
        rw [hverdict] at h
        cases h
      | falls => exact absurd hverdict hothers
      | breaks depth =>
        obtain ⟨t, ht, hbreaks⟩ := exists_of_escapeAll_eq_breaks hverdict
        have hpasses : escape s = .falls := by
          refine (hbeside t ht).2 ?_
          rw [hbreaks, Escape.rank]
          omega
        exact .next (ihs .falls (by rw [hpasses]; rfl)) (ihss o h)

end

/-- If no exits are mixed, the verdict is the highest rank of an exit, or that of returning if no
path ends. A path that never ends ranks as low as one that returns. -/
theorem escapeAll_isGreatest {ss : List Statement} (h : UnmixedAll ss) :
    ((∃ o, RunsAll ss o) → IsGreatest (Exit.rank '' {o | RunsAll ss o}) (escapeAll ss).rank) ∧
      ((¬ ∃ o, RunsAll ss o) → (escapeAll ss).rank = -1) := by
  have hbound : ∀ o, RunsAll ss o → o.rank ≤ (escapeAll ss).rank :=
    rank_le_of_unmaskedAll ss (UnmixedAll.unmasked ss h)
  constructor
  · rintro ⟨o, ho⟩
    refine ⟨?_, fun _ ⟨x, hx, hrank⟩ => hrank ▸ hbound x hx⟩
    cases hexit : (escapeAll ss).exit? with
    | some x => exact ⟨x, runsAll_of_exit? ss h x hexit, Escape.rank_of_exit? hexit⟩
    | none =>
      have hsettled := Escape.eq_settled_of_exit? hexit
      refine ⟨o, ho, ?_⟩
      have hle := hbound o ho
      rw [hsettled] at hle ⊢
      cases o <;> simp only [Exit.rank, Escape.rank] at hle ⊢ <;> omega
  · intro hnone
    cases hexit : (escapeAll ss).exit? with
    | some x => exact absurd ⟨x, runsAll_of_exit? ss h x hexit⟩ hnone
    | none =>
      rw [Escape.eq_settled_of_exit? hexit]
      rfl

/-- If no exits are mixed, the verdict is that of returning exactly if no path ends otherwise. -/
theorem escapeAll_eq_settled_iff {ss : List Statement} (h : UnmixedAll ss) :
    escapeAll ss = .settled ↔ ¬ RunsAll ss .falls ∧ ∀ depth, ¬ RunsAll ss (.breaks depth) := by
  have hbound : ∀ o, RunsAll ss o → o.rank ≤ (escapeAll ss).rank :=
    rank_le_of_unmaskedAll ss (UnmixedAll.unmasked ss h)
  constructor
  · intro hsettled
    rw [hsettled] at hbound
    refine ⟨fun hfalls => absurd (hbound _ hfalls) (by decide), fun depth hbreaks => ?_⟩
    have hle := hbound _ hbreaks
    simp only [Exit.rank, Escape.rank] at hle
    omega
  · rintro ⟨hfalls, hbreaks⟩
    cases hverdict : escapeAll ss with
    | settled => rfl
    | falls => exact absurd (runsAll_of_exit? ss h .falls (by rw [hverdict]; rfl)) hfalls
    | breaks depth =>
      exact absurd (runsAll_of_exit? ss h (.breaks depth) (by rw [hverdict]; rfl)) (hbreaks depth)

end Statement

/-! ## Accepted functions -/

/-- Functions are accepted if the verdict on each body is that it returns. -/
theorem checkReturns_eq_ok {declarations : List Declaration}
    (h : ∀ loc name params result body, .function loc name params result body ∈ declarations →
      Statement.escapeAll body = .settled) : checkReturns declarations = .ok () := by
  induction declarations with
  | nil => rw [checkReturns]
  | cons d rest ih =>
    have hrest : checkReturns rest = .ok () := ih fun loc name params result body hmem =>
      h loc name params result body (List.mem_cons_of_mem _ hmem)
    cases d with
    | letBind =>
      rw [checkReturns]
      exact hrest
    | function loc name params result body =>
      have hbody : bodyViolation? body = none := by
        rw [bodyViolation?, h loc name params result body List.mem_cons_self]
      rw [checkReturns, hbody]
      exact hrest

/-- Where no list mixes exits, the verdict on a list is exact: it is the highest rank of an exit of
its paths, and that of returning if no path ends. So functions are accepted exactly if no path falls
off the end of a body or breaks out of it. -/
theorem verdicts_exact :
    (∀ ss : List Statement, Statement.UnmixedAll ss →
      ((∃ o, Statement.RunsAll ss o) →
        IsGreatest (Exit.rank '' {o | Statement.RunsAll ss o}) (Statement.escapeAll ss).rank) ∧
      ((¬ ∃ o, Statement.RunsAll ss o) → (Statement.escapeAll ss).rank = -1)) ∧
    ∀ declarations : List Declaration,
      (∀ loc name params result body, .function loc name params result body ∈ declarations →
        Statement.UnmixedAll body) →
      (checkReturns declarations = .ok () ↔
        ∀ loc name params result body, .function loc name params result body ∈ declarations →
          ¬ Statement.RunsAll body .falls ∧ ∀ depth, ¬ Statement.RunsAll body (.breaks depth)) := by
  refine ⟨fun ss h => Statement.escapeAll_isGreatest h, fun declarations hunmixed => ?_⟩
  constructor
  · intro haccepted loc name params result body hmem
    exact (Statement.escapeAll_eq_settled_iff (hunmixed _ _ _ _ _ hmem)).1
      (escapeAll_eq_settled_of_checkReturns haccepted hmem)
  · intro hpaths
    exact checkReturns_eq_ok fun loc name params result body hmem =>
      (Statement.escapeAll_eq_settled_iff (hunmixed _ _ _ _ _ hmem)).2 (hpaths _ _ _ _ _ hmem)

/-- A loop inside a loop, of which a branch leaves both: the outer loop passes control on. -/
theorem verdicts_exact_loops :
    ∃ ss : List Statement, ss = [.forever (.point .origin) (some "a")
          [.forever (.point .origin) none
            [.branch (.point .origin) (.number (.point .origin) "1")
              [.breakLoop (.point .origin) 1] []]]] ∧
      Statement.UnmixedAll ss ∧
      IsGreatest (Exit.rank '' {o | Statement.RunsAll ss o}) (Statement.escapeAll ss).rank ∧
      checkReturns [.function (.point .origin) "f" []
        (.ground (.point .origin) .immutable .unit) ss] ≠ .ok () := by
  have hunmixed : Statement.UnmixedAll [.forever (.point .origin) (some "a")
      [.forever (.point .origin) none
        [.branch (.point .origin) (.number (.point .origin) "1")
          [.breakLoop (.point .origin) 1] []]]] := by
    simp [Statement.UnmixedAll, Statement.Unmixed]
  have hfalls : Statement.RunsAll [.forever (.point .origin) (some "a")
      [.forever (.point .origin) none
        [.branch (.point .origin) (.number (.point .origin) "1")
          [.breakLoop (.point .origin) 1] []]]] .falls := by
    rw [← Statement.mem_exitsAll_iff]
    decide
  refine ⟨_, rfl, hunmixed, (verdicts_exact.1 _ hunmixed).1 ⟨_, hfalls⟩, fun haccepted => ?_⟩
  refine ((verdicts_exact.2 _ fun loc name params result body hmem => ?_).1 haccepted _ _ _ _ _
    List.mem_cons_self).1 hfalls
  cases List.mem_singleton.1 hmem
  exact hunmixed

end Offside
