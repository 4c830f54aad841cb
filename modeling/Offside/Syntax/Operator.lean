/-!
# Binary operators

* `binaryOperators`: every binary operator with its binding power, loosest first.
* `bindingPower?`: the binding power of an operator.
-/

namespace Offside

/-- Every binary operator with its binding power, loosest first. -/
def binaryOperators : List (String × Nat) :=
  [ ("&&", 2), ("||", 2),
    ("<", 3), (">", 3), ("<=", 3), (">=", 3), ("==", 3), ("!=", 3),
    ("+", 5), ("-", 5),
    ("*", 6), ("/", 6), ("%", 6) ]

/-- The binding power of a binary operator. -/
def bindingPower? (operator : String) : Option Nat := binaryOperators.lookup operator

end Offside
