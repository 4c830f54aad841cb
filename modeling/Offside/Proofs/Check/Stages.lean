import Mathlib
import Offside.Frontend
import Offside.Proofs.Diagnostic.Outcomes

/-!
# The stages of the front end

* `Frontend.compile_ok_iff`: what it takes for a source text to pass every stage.
* `Frontend.compile_error_cases`: a failure is that of the first stage that fails.
* `checkReturns_error`, `checkEntry_error`: what the checks report.
-/

namespace Offside

namespace Frontend

/-- A source text passes every stage if it does so one after another. -/
theorem compile_ok_iff {requireMain : Bool} {source : String} {ds : List Declaration} :
    compile requireMain source = .ok ds ↔
      ∃ tokens laidOut, Token.ofSource source = .ok tokens ∧ Layout.layout tokens = .ok laidOut ∧
        parseDeclarations (sourceSpan source) laidOut = .ok ds ∧ checkReturns ds = .ok () ∧
        (requireMain = true → checkEntry (sourceSpan source) ds = .ok ()) := by
  unfold compile tokenize layOut parse check
  simp only [bind_ok_iff, mapError_ok_iff]
  constructor
  · rintro ⟨tokens, hlex, laidOut, hlayout, program, hparse, ⟨⟩, hreturns, hrest⟩
    cases requireMain with
    | false =>
      cases hrest
      exact ⟨tokens, laidOut, hlex, hlayout, hparse, hreturns, fun h => nomatch h⟩
    | true =>
      obtain ⟨⟨⟩, hentry, hsame⟩ := bind_ok_iff.1 hrest
      cases hsame
      exact ⟨tokens, laidOut, hlex, hlayout, hparse, hreturns, fun _ => mapError_ok_iff.1 hentry⟩
  · rintro ⟨tokens, laidOut, hlex, hlayout, hparse, hreturns, hentry⟩
    refine ⟨tokens, hlex, laidOut, hlayout, ds, hparse, (), hreturns, ?_⟩
    cases requireMain with
    | false => rfl
    | true => exact bind_ok_iff.2 ⟨(), mapError_ok_iff.2 (hentry rfl), rfl⟩

/-- A failure is that of the first stage that fails. -/
theorem compile_error_cases {requireMain : Bool} {source : String} {failure : Failure Cause}
    (h : compile requireMain source = .error failure) :
    (∃ e, Token.ofSource source = .error e ∧ failure = .reported (e.map .lexical)) ∨
    ∃ tokens, Token.ofSource source = .ok tokens ∧
      ((∃ e, Layout.layout tokens = .error e ∧ failure = e.map .lexical) ∨
      ∃ laidOut, Layout.layout tokens = .ok laidOut ∧
        ((∃ e, parseDeclarations (sourceSpan source) laidOut = .error e ∧
          failure = e.map .parse) ∨
        ∃ ds e, parseDeclarations (sourceSpan source) laidOut = .ok ds ∧
          (checkReturns ds = .error e ∨ checkEntry (sourceSpan source) ds = .error e) ∧
          failure = .reported (e.map .check))) := by
  rcases bind_error_iff.1 h with h | ⟨tokens, hlex, h⟩
  · obtain ⟨e, he, rfl⟩ := mapError_error_iff.1 h
    exact .inl ⟨e, he, rfl⟩
  refine .inr ⟨tokens, mapError_ok_iff.1 hlex, ?_⟩
  rcases bind_error_iff.1 h with h | ⟨laidOut, hlayout, h⟩
  · obtain ⟨e, he, rfl⟩ := mapError_error_iff.1 h
    exact .inl ⟨e, he, rfl⟩
  refine .inr ⟨laidOut, mapError_ok_iff.1 hlayout, ?_⟩
  rcases bind_error_iff.1 h with h | ⟨ds, hparse, h⟩
  · obtain ⟨e, he, rfl⟩ := mapError_error_iff.1 h
    exact .inl ⟨e, he, rfl⟩
  rcases bind_error_iff.1 h with h | ⟨⟨⟩, -, h⟩
  · obtain ⟨e, he, rfl⟩ := mapError_error_iff.1 h
    exact .inr ⟨ds, e, mapError_ok_iff.1 hparse, .inl he, rfl⟩
  cases requireMain with
  | false => cases h
  | true =>
    rw [if_pos rfl] at h
    rcases bind_error_iff.1 h with h | ⟨⟨⟩, -, h⟩
    · obtain ⟨e, he, rfl⟩ := mapError_error_iff.1 h
      exact .inr ⟨ds, e, mapError_ok_iff.1 hparse, .inr he, rfl⟩
    · cases h

end Frontend

/-! ## What the checks report -/

/-- The check of function bodies reports the violation of one of them. -/
theorem checkReturns_error {ds : List Declaration} {e : Located Violation}
    (h : checkReturns ds = .error e) : ∃ name params result body,
      .function e.loc name params result body ∈ ds ∧ bodyViolation? body = some e.cause := by
  fun_induction checkReturns ds with
  | case1 => cases h
  | case2 loc name params result body rest _ ih =>
    obtain ⟨name', params', result', body', hmem, hbody⟩ := ih h
    exact ⟨name', params', result', body', List.mem_cons_of_mem _ hmem, hbody⟩
  | case3 loc name params result body rest violation hviolation =>
    cases h
    exact ⟨name, params, result, body, List.mem_cons_self, hviolation⟩
  | case4 loc bindings rest ih =>
    obtain ⟨name, params, result, body, hmem, hbody⟩ := ih h
    exact ⟨name, params, result, body, List.mem_cons_of_mem _ hmem, hbody⟩

/-- The shape of an entry point has nothing to do with breaks. -/
theorem checkEntryShapes_error {ds : List Declaration} {e : Located Violation}
    (h : checkEntryShapes ds = .error e) : e.cause ≠ .breakEscapes := by
  fun_induction checkEntryShapes ds with
  | case1 => cases h
  | case2 loc params result body rest violation hviolation =>
    cases h
    rintro rfl
    unfold entryViolation? at hviolation
    split at hviolation
    · cases hviolation
    · split at hviolation <;> cases hviolation
  | case3 _ _ _ _ _ _ ih => exact ih h
  | case4 _ _ _ _ _ _ _ ih => exact ih h
  | case5 _ _ _ ih => exact ih h

/-- The check of the entry point has nothing to do with breaks. -/
theorem checkEntry_error {span : Location} {ds : List Declaration} {e : Located Violation}
    (h : checkEntry span ds = .error e) : e.cause ≠ .breakEscapes := by
  unfold checkEntry at h
  cases hshapes : checkEntryShapes ds with
  | error e' =>
    rw [hshapes] at h
    cases h
    exact checkEntryShapes_error hshapes
  | ok =>
    simp only [hshapes, bind, Except.bind] at h
    split at h
    · cases h
    · cases h
      exact nofun

end Offside
