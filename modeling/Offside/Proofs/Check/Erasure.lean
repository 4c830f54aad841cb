import Offside.Check.Entry
import Offside.Check.Returns
import Offside.Proofs.Syntax.Erasure

/-!
# Checks without locations

Locations decide where a violation is reported, but not whether there is one.

* `Statement.escapeAll_eraseAll`: how control leaves statements does not depend on locations.
* `checkReturns_erase`, `checkEntry_erase`: a program passes a check exactly if it does without its
  locations.
-/

namespace Offside

open Location

/-! ## Functions return -/

namespace Statement

mutual

/-- How control leaves a statement does not depend on locations. -/
theorem escape_erase : (x : Statement) → x.erase.escape = x.escape
  | assign .. | call .. | letBind .. | returnValue .. | breakLoop .. => by
    simp only [erase, escape]
  | forever _ _ body => by
    rw [erase, escape, escape, escapeAll_eraseAll body]
  | branch _ _ yes no => by
    rw [erase, escape, escape, escapeAll_eraseAll yes, escapeAll_eraseAll no]
  | nested _ body => by
    rw [erase, escape, escape, escapeAll_eraseAll body]

/-- How control leaves some statements does not depend on locations. -/
theorem escapeAll_eraseAll : (xs : List Statement) → escapeAll (eraseAll xs) = escapeAll xs
  | [] => by rw [eraseAll]
  | x :: xs => by
    rw [eraseAll, escapeAll, escapeAll, escapeAll_eraseAll xs, escape_erase x]

end

end Statement

theorem bodyViolation?_eraseAll (body : List Statement) :
    bodyViolation? (Statement.eraseAll body) = bodyViolation? body := by
  rw [bodyViolation?, bodyViolation?, Statement.escapeAll_eraseAll]

/-- All functions return exactly if they do without locations. -/
theorem checkReturns_erase (ds : List Declaration) :
    checkReturns (ds.map Declaration.erase) = .ok () ↔ checkReturns ds = .ok () := by
  induction ds with
  | nil => rfl
  | cons d ds ih =>
    rw [List.map_cons]
    cases d with
    | letBind l bindings =>
      rw [Declaration.erase, checkReturns, checkReturns]
      exact ih
    | function l name params result body =>
      rw [Declaration.erase, checkReturns, checkReturns, bodyViolation?_eraseAll]
      cases bodyViolation? body with
      | none => exact ih
      | some violation => simp

/-! ## The entry point -/

theorem TypeExpr.isImmutableGround_erase (g : Ground) (type : TypeExpr) :
    type.erase.isImmutableGround g = type.isImmutableGround g := by
  cases type with
  | ground l m h =>
    rw [erase]
    cases m <;> rfl
  | _ => rw [erase] <;> rfl

theorem entryViolation?_erase (params : List Reference) (result : TypeExpr) :
    entryViolation? (params.map Reference.erase) result.erase = entryViolation? params result := by
  have hparams : isEntryParams (params.map Reference.erase) = isEntryParams params := by
    match params with
    | [] => rfl
    | [param] =>
      simp only [List.map_cons, List.map_nil, isEntryParams, Reference.erase,
        TypeExpr.isImmutableGround_erase]
    | _ :: _ :: _ => rfl
  rw [entryViolation?, entryViolation?, TypeExpr.isImmutableGround_erase, hparams]

theorem checkEntryShapes_erase (ds : List Declaration) :
    checkEntryShapes (ds.map Declaration.erase) = .ok () ↔ checkEntryShapes ds = .ok () := by
  induction ds with
  | nil => rfl
  | cons d ds ih =>
    rw [List.map_cons]
    cases d with
    | letBind l bindings =>
      rw [Declaration.erase, checkEntryShapes, checkEntryShapes]
      exact ih
    | function l name params result body =>
      rw [Declaration.erase, checkEntryShapes, checkEntryShapes, entryViolation?_erase]
      by_cases hname : name = entryName
      · rw [if_pos hname, if_pos hname]
        cases entryViolation? params result with
        | none => exact ih
        | some violation => simp
      · rw [if_neg hname, if_neg hname]
        exact ih

theorem any_isEntry_erase (ds : List Declaration) :
    (ds.map Declaration.erase).any Declaration.isEntry = ds.any Declaration.isEntry := by
  have hsame : Declaration.isEntry ∘ Declaration.erase = Declaration.isEntry := by
    funext d
    cases d <;> rfl
  rw [List.any_map, hsame]

/-- A program has a proper entry point exactly if its functions named so are proper and there is
one. -/
theorem checkEntry_ok_iff (span : Location) (ds : List Declaration) :
    checkEntry span ds = .ok () ↔
      checkEntryShapes ds = .ok () ∧ ds.any Declaration.isEntry = true := by
  unfold checkEntry
  cases checkEntryShapes ds with
  | error e => simp [bind, Except.bind]
  | ok u => by_cases hany : ds.any Declaration.isEntry = true <;> simp [bind, Except.bind, hany]

/-- A program has a proper entry point exactly if it has one without locations, wherever a missing
one would be reported. -/
theorem checkEntry_erase (span span' : Location) (ds : List Declaration) :
    checkEntry span (ds.map Declaration.erase) = .ok () ↔ checkEntry span' ds = .ok () := by
  rw [checkEntry_ok_iff, checkEntry_ok_iff, checkEntryShapes_erase, any_isEntry_erase]

end Offside
