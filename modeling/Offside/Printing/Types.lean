import Offside.Printing.Lists
import Offside.Syntax.TypeExpr

/-!
# Types in print

* `TypeExpr.print`: a type as source text. An arrow is put in parentheses to the left of another
  arrow, after a star, a buffer size or `var`; a pointer is put in parentheses after a star, because
  two stars in a row would be one operator.
-/

namespace Offside

open Printing

/-- The size of a buffer as source text. -/
def BufferSize.print : BufferSize → String
  | literal text => text
  | unknown => ""
  | external name => name

/-- A primitive type as source text. -/
def Ground.print : Ground → String
  | unit => "()"
  | g => g.name

namespace TypeExpr

/-- A type, given without its modality, with it. -/
def marked (m : Modality) (isArrow : Bool) (text : String) : String :=
  match m with
  | .mutable => "var " ++ parenthesizedIf isArrow text
  | .immutable => text

/-- A type to the left of an arrow, or after a star, given its text. -/
def operand (afterStar : Bool) (t : TypeExpr) (text : String) : String :=
  parenthesizedIf
    (t.modality == .immutable && (t.isArrow || afterStar && t.isPointer)) text

mutual

/-- A type as source text. -/
def print : TypeExpr → String
  | ground _ m g => marked m false g.print
  | arrow _ m domain codomain =>
    marked m true (domain.operand false domain.print ++ " -> " ++ codomain.print)
  | buffer _ m size element =>
    marked m false ("[" ++ size.print ++ "] " ++ parenthesizedIf element.isArrow element.print)
  | pointer _ m pointee => marked m false ("*" ++ pointee.operand true pointee.print)
  | tuple _ m members => marked m false (tupleText (printAll members))
  | unknown _ m => marked m false "_"

/-- Some types as source text. -/
def printAll : List TypeExpr → List String
  | [] => []
  | t :: ts => t.print :: printAll ts

end

end TypeExpr

end Offside
