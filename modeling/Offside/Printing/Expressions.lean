import Offside.Printing.Types
import Offside.Syntax.Expr
import Offside.Syntax.Operator

/-!
# Expressions in print

* `Expr.print`, `Place.print`: expressions and places as source text. Ascriptions, and applications
  without an argument list, are put in parentheses wherever they stand.
* `Expr.isOpen`: the expressions that need parentheses as an operand, and `Expr.beginsWithNumber`:
  those that moreover need them after a star, which reads as an operator before a digit.
* `Expr.applicationText`: an application, given the texts of its parts.
-/

namespace Offside

open Printing

namespace Expr

/-- Whether an expression needs parentheses to be juxtaposed, indexed or called. -/
def isOpen : Expr → Bool
  | addressOf .. | ifThen .. | valueAt .. => true
  | number _ text => text.toList.head? == some '-'
  | _ => false

/-- Whether the text of an expression begins with a number. -/
def beginsWithNumber : Expr → Bool
  | number .. => true
  | index _ base _ => !base.isOpen && beginsWithNumber base
  | apply _ .tupled function _ => !function.isOpen && beginsWithNumber function
  | _ => false

/-- An expression where it binds tightly, given its text. -/
def operand (e : Expr) (text : String) : String := parenthesizedIf e.isOpen text

/-- An expression after a star, given its text. -/
def pointee (e : Expr) (text : String) : String :=
  parenthesizedIf (e.beginsWithNumber || e.isOpen) text

/-- The binary operator that an expression names. -/
def operator? : Expr → Option String
  | ident _ name => if (bindingPower? name).isSome then some name else none
  | _ => none

/-- An application, given the texts of the function and of the arguments. Without parentheses it can
stand only as a statement. -/
def applicationText (parens : Bool) (style : CallStyle) (function : Expr) (args : List Expr)
    (functionText : String) (argTexts : List String) : String :=
  match style with
  | .tupled => function.operand functionText ++ parenthesized (commaList argTexts)
  | .curried =>
    parenthesizedIf parens
      (match function.operator?, argTexts with
        | some operator, [left, right] => left ++ " " ++ operator ++ " " ++ right
        | _, _ =>
          " ".intercalate (function.operand functionText :: List.zipWith operand args argTexts))

end Expr

mutual

/-- An expression as source text. -/
def Expr.print : Expr → String
  | .addressOf _ target => "&" ++ parenthesizedIf target.isIndirect target.print
  | .apply _ style function args =>
    Expr.applicationText true style function args function.print (Expr.printAll args)
  | .asType _ value type => parenthesized (value.print ++ " : " ++ type.print)
  | .buffer _ elements => "[" ++ commaList (Expr.printAll elements) ++ "]"
  | .ifThen _ condition yes no =>
    "if " ++ condition.print ++ " \x7b " ++ yes.print ++ " \x7d else \x7b " ++ no.print ++ " \x7d"
  | .index _ base offset => base.operand base.print ++ "[" ++ offset.print ++ "]"
  | .number _ text => text
  | .tuple _ parts => tupleText (Expr.printAll parts)
  | .valueAt _ address => "*" ++ address.pointee address.print
  | .ident _ name => name

/-- Some expressions as source text. -/
def Expr.printAll : List Expr → List String
  | [] => []
  | e :: es => e.print :: Expr.printAll es

/-- A place as source text. -/
def Place.print : Place → String
  | .direct _ name => name
  | .index _ base offset =>
    parenthesizedIf base.isIndirect base.print ++ "[" ++ offset.print ++ "]"
  | .indirect _ address => "*" ++ address.pointee address.print
  | .tuple _ parts => tupleText (Place.printAll parts)

/-- Some places as source text. -/
def Place.printAll : List Place → List String
  | [] => []
  | p :: ps => p.print :: Place.printAll ps

end

end Offside
