import Offside.Syntax.TypeExpr

/-!
# Expressions and places

* `Expr`: the expressions; `Place`: those of them that name a place in memory, the targets of
  assignments and of `&`.
* `Expr.describe`: what an expression is called in messages.
* `Place.ofExpr`: the place that an expression names, or the first part of it that names none.
* `Place.toExpr`: the expression that names a place.
-/

namespace Offside

/-- How the arguments of an application are written. -/
inductive CallStyle where
  /-- One after another, or on both sides of an operator. -/
  | curried
  /-- As a list in parentheses right after the function. -/
  | tupled
deriving DecidableEq

mutual

/-- An expression. -/
inductive Expr where
  /-- The address of a place. -/
  | addressOf (loc : Location) (target : Place)
  /-- The application of a function, or of an operator, to arguments. -/
  | apply (loc : Location) (style : CallStyle) (function : Expr) (args : List Expr)
  /-- An expression of a given type. -/
  | asType (loc : Location) (value : Expr) (type : TypeExpr)
  /-- A buffer given by its elements. -/
  | buffer (loc : Location) (elements : List Expr)
  /-- One of two values, chosen by a condition. -/
  | ifThen (loc : Location) (condition yes no : Expr)
  /-- An element of a buffer. -/
  | index (loc : Location) (base offset : Expr)
  /-- A number, kept as it is written. -/
  | number (loc : Location) (text : String)
  /-- A tuple. -/
  | tuple (loc : Location) (parts : List Expr)
  /-- The value at an address. -/
  | valueAt (loc : Location) (address : Expr)
  /-- A name. -/
  | ident (loc : Location) (name : String)

/-- A place in memory. -/
inductive Place where
  /-- The place of a name. -/
  | direct (loc : Location) (name : String)
  /-- The place of an element of a buffer. -/
  | index (loc : Location) (base : Place) (offset : Expr)
  /-- The place at an address. -/
  | indirect (loc : Location) (address : Expr)
  /-- Several places. -/
  | tuple (loc : Location) (parts : List Place)

end

namespace Expr

/-- Where an expression is written. -/
def loc : Expr → Location
  | addressOf loc _ | apply loc .. | asType loc .. | buffer loc _ | ifThen loc .. | index loc ..
  | number loc _ | tuple loc _ | valueAt loc _ | ident loc _ => loc

/-- The same expression at another location. -/
def relocate (loc : Location) : Expr → Expr
  | addressOf _ target => addressOf loc target
  | apply _ style function args => apply loc style function args
  | asType _ value type => asType loc value type
  | buffer _ elements => buffer loc elements
  | ifThen _ condition yes no => ifThen loc condition yes no
  | index _ base offset => index loc base offset
  | number _ text => number loc text
  | tuple _ parts => tuple loc parts
  | valueAt _ address => valueAt loc address
  | ident _ name => ident loc name

/-- What an expression is called in messages. -/
def describe : Expr → String
  | addressOf .. => "an address-of expression"
  | apply .. => "a function application"
  | asType .. => "a type ascription"
  | buffer .. => "a buffer literal"
  | ifThen .. => "an if expression"
  | index .. => "an index expression"
  | number .. => "a number"
  | tuple .. => "a tuple"
  | valueAt .. => "a dereference"
  | ident .. => "a variable"

end Expr

namespace Place

/-- Where a place is written. -/
def loc : Place → Location
  | direct loc _ | index loc .. | indirect loc _ | tuple loc _ => loc

/-- Whether a place is given by an address. -/
def isIndirect : Place → Bool
  | indirect .. => true
  | _ => false

mutual

/-- The place that an expression names. Names, values at an address, elements of places and tuples
of places do; otherwise the first part that names none is given back. -/
def ofExpr : Expr → Except Expr Place
  | .ident loc name => .ok (direct loc name)
  | .index loc base offset => do
    let base ← ofExpr base
    .ok (index loc base offset)
  | .valueAt loc address => .ok (indirect loc address)
  | .tuple loc parts => do
    let parts ← ofExprs parts
    .ok (tuple loc parts)
  | other => .error other

/-- The places that some expressions name. -/
def ofExprs : List Expr → Except Expr (List Place)
  | [] => .ok []
  | e :: es => do
    let place ← ofExpr e
    let places ← ofExprs es
    .ok (place :: places)

end

mutual

/-- The expression that names a place. -/
def toExpr : Place → Expr
  | direct loc name => .ident loc name
  | index loc base offset => .index loc (toExpr base) offset
  | indirect loc address => .valueAt loc address
  | tuple loc parts => .tuple loc (toExprs parts)

/-- The expressions that name some places. -/
def toExprs : List Place → List Expr
  | [] => []
  | p :: ps => toExpr p :: toExprs ps

end

end Place

end Offside
