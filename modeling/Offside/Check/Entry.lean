import Offside.Check.Violation
import Offside.Syntax.Statement

/-!
# The entry point

* `isEntryParams`: the parameters of an entry point, one immutable unit.
* `checkEntry`: there is a function named `main`, and all functions of this name have the shape of
  an entry point.
-/

namespace Offside

/-- The name of the entry point. -/
def entryName : String := "main"

/-- Whether parameters are those of an entry point: one that is immutable and of unit type. -/
def isEntryParams : List Reference → Bool
  | [param] => !param.mutable && param.type.isImmutableGround .unit
  | _ => false

/-- The violation of a function that is named as the entry point, if there is one. -/
def entryViolation? (params : List Reference) (result : TypeExpr) : Option Violation :=
  if !result.isImmutableGround .int32 then some .mainResult
  else if !isEntryParams params then some .mainParameter
  else none

/-- Whether a declaration is a function that is named as the entry point. -/
def Declaration.isEntry : Declaration → Bool
  | function _ name .. => name == entryName
  | letBind .. => false

/-- Every function named `main` has the shape of an entry point. -/
def checkEntryShapes : List Declaration → Except (Located Violation) Unit
  | [] => .ok ()
  | .function loc name params result _ :: rest =>
    if name = entryName then
      match entryViolation? params result with
      | some violation => .error ⟨violation, loc⟩
      | none => checkEntryShapes rest
    else checkEntryShapes rest
  | .letBind .. :: rest => checkEntryShapes rest

/-- There is an entry point, and it has the right shape. That there is none is reported at
`span`. -/
def checkEntry (span : Location) (declarations : List Declaration) :
    Except (Located Violation) Unit := do
  checkEntryShapes declarations
  if declarations.any Declaration.isEntry then .ok () else .error ⟨.mainMissing, span⟩

end Offside
