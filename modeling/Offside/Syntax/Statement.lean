import Offside.Syntax.Expr

/-!
# Statements and declarations

* `Reference`: a name that is introduced; `Binding`: names and the value that they are bound to.
* `Statement`: the statements. A break holds how many loops it passes before the one that it leaves.
* `Declaration`: a function or a binding of the whole program.
-/

namespace Offside

/-- A name that is introduced, with its type. -/
structure Reference where
  /-- Where the name and its annotation are written. -/
  loc : Location
  /-- Whether the name is marked `var`. -/
  mutable : Bool
  /-- The name. -/
  name : String
  /-- The annotation; unknown and immutable if there is none. -/
  type : TypeExpr

/-- Names and the value that they are bound to. -/
structure Binding where
  /-- Where the binding is written. -/
  loc : Location
  /-- The names. -/
  names : List Reference
  /-- The value. -/
  value : Expr

/-- A statement. -/
inductive Statement where
  /-- Stores a value in a place. -/
  | assign (loc : Location) (target : Place) (value : Expr)
  /-- Leaves the loop that is `depth` loops outside the innermost. -/
  | breakLoop (loc : Location) (depth : Nat)
  /-- Applies a function for its effect. -/
  | call (loc : Location) (style : CallStyle) (function : Expr) (args : List Expr)
  /-- Repeats its body. -/
  | forever (loc : Location) (label? : Option String) (body : List Statement)
  /-- Runs one of two bodies; without `else` the second is empty. -/
  | branch (loc : Location) (condition : Expr) (yes no : List Statement)
  /-- Introduces names. -/
  | letBind (loc : Location) (bindings : List Binding)
  /-- Runs its body. -/
  | nested (loc : Location) (body : List Statement)
  /-- Ends the function with a value. -/
  | returnValue (loc : Location) (value : Expr)

/-- Where a statement is written. -/
def Statement.loc : Statement → Location
  | assign loc .. | breakLoop loc _ | call loc .. | forever loc .. | branch loc .. | letBind loc _
  | nested loc _ | returnValue loc _ => loc

/-- A declaration. -/
inductive Declaration where
  /-- A function. -/
  | function (loc : Location) (name : String) (params : List Reference) (result : TypeExpr)
      (body : List Statement)
  /-- A binding of the whole program. -/
  | letBind (loc : Location) (bindings : List Binding)

/-- Where a declaration is written. -/
def Declaration.loc : Declaration → Location
  | function loc .. | letBind loc _ => loc

end Offside
