import Offside.Printing.Expressions
import Offside.Syntax.Statement

/-!
# Statements and programs in print

* `Statement.print`: a statement as source text, given the labels of the loops around it, innermost
  first. A break is printed with the label of the loop that it leaves, unless that is the innermost.
* `Statement.printAll`: statements as lines.
* `Declaration.print`, `printProgram`: declarations, with an empty line between each two.
-/

namespace Offside

open Printing

/-- An introduced name as source text. -/
def Reference.print (r : Reference) : String :=
  (if r.mutable then "var " else "") ++ r.name ++
    match r.type with
    | .unknown _ .immutable => ""
    | type => ": " ++ type.print

/-- A binding as source text. -/
def Binding.print (b : Binding) : String :=
  commaList (b.names.map Reference.print) ++ " = " ++ b.value.print

/-- Some bindings as source text. -/
def letText (bindings : List Binding) : String := "let " ++ commaList (bindings.map Binding.print)

namespace Statement

/-- A break as source text. -/
def breakText (loops : List (Option String)) (depth : Nat) : String :=
  match loops[depth]? with
  | some (some label) => if 0 < depth then "break " ++ label else "break"
  | _ => "break"

/-- The beginning of a loop as source text. -/
def foreverText : Option String → String
  | none => "forever "
  | some label => "forever " ++ label ++ " "

mutual

/-- A statement as source text. -/
def print (loops : List (Option String)) : Statement → String
  | assign _ target value => target.print ++ " = " ++ value.print
  | breakLoop _ depth => breakText loops depth
  | call _ style function args =>
    Expr.applicationText false style function args function.print (Expr.printAll args)
  | forever _ label? body =>
    foreverText label? ++ blockText ("\n".intercalate (printAll (label? :: loops) body))
  | branch _ condition yes no =>
    "if " ++ condition.print ++ " " ++ blockText ("\n".intercalate (printAll loops yes))
      ++ if no.isEmpty then ""
        else " else " ++ blockText ("\n".intercalate (printAll loops no))
  | letBind _ bindings => letText bindings
  | nested _ body => blockText ("\n".intercalate (printAll loops body))
  | returnValue _ value => "return " ++ value.print

/-- Some statements as source text. -/
def printAll (loops : List (Option String)) : List Statement → List String
  | [] => []
  | s :: ss => print loops s :: printAll loops ss

end

end Statement

/-- A declaration as source text. -/
def Declaration.print : Declaration → String
  | function _ name params result body =>
    "def " ++ name ++ parenthesized (commaList (params.map Reference.print)) ++ " "
      ++ result.print ++ " " ++ blockText ("\n".intercalate (Statement.printAll [] body))
  | letBind _ bindings => letText bindings

/-- A program as source text. -/
def printProgram (declarations : List Declaration) : String :=
  "\n\n".intercalate (declarations.map Declaration.print)

/-- Some statements as source text, one after another. -/
def printStatements (statements : List Statement) : String :=
  "\n".intercalate (Statement.printAll [] statements)

end Offside
