import Offside.Proofs.Source.Relocation
import Offside.Syntax.Statement

/-!
# Syntax trees that are moved

* `TypeExpr.move`, `Expr.move`, `Place.move`, `Reference.move`, `Binding.move`, `Statement.move`,
  `Declaration.move`: a tree with all its locations moved.
* `Place.ofExpr_move`: an expression names a place wherever it stands.
* `Statement.move_stay`, `Declaration.move_stay`: where nothing moves, trees stay as they are.
-/

namespace Offside

variable (m : Relocation)

/-! ## Types -/

namespace TypeExpr

mutual

/-- A type with its locations moved. -/
def move : TypeExpr → TypeExpr
  | ground loc m' g => ground (loc.move m) m' g
  | arrow loc m' domain codomain => arrow (loc.move m) m' (move domain) (move codomain)
  | buffer loc m' size element => buffer (loc.move m) m' size (move element)
  | pointer loc m' pointee => pointer (loc.move m) m' (move pointee)
  | tuple loc m' members => tuple (loc.move m) m' (moveAll members)
  | unknown loc m' => unknown (loc.move m) m'

/-- Some types with their locations moved. -/
def moveAll : List TypeExpr → List TypeExpr
  | [] => []
  | type :: types => move type :: moveAll types

end

theorem moveAll_eq (types : List TypeExpr) : moveAll m types = types.map (move m) := by
  induction types with
  | nil => rw [moveAll, List.map_nil]
  | cons type types ih => rw [moveAll, List.map_cons, ih]

@[simp] theorem move_loc (type : TypeExpr) : (type.move m).loc = type.loc.move m := by
  cases type <;> simp only [move, loc]

@[simp] theorem move_relocate (type : TypeExpr) (l : Location) :
    (type.relocate l).move m = (type.move m).relocate (l.move m) := by
  cases type <;> simp only [move, relocate]

@[simp] theorem move_withModality (type : TypeExpr) (modality : Modality) :
    (type.withModality modality).move m = (type.move m).withModality modality := by
  cases type <;> simp only [move, withModality]

mutual

/-- Where nothing moves, a type stays as it is. -/
theorem move_stay : (type : TypeExpr) → type.move .stay = type
  | ground .. => by rw [move]; rfl
  | arrow _ _ domain codomain => by rw [move, move_stay domain, move_stay codomain]; rfl
  | buffer _ _ _ element => by rw [move, move_stay element]; rfl
  | pointer _ _ pointee => by rw [move, move_stay pointee]; rfl
  | tuple _ _ members => by rw [move, moveAll_stay members]; rfl
  | unknown .. => by rw [move]; rfl

/-- Where nothing moves, types stay as they are. -/
theorem moveAll_stay : (types : List TypeExpr) → moveAll .stay types = types
  | [] => by rw [moveAll]
  | type :: types => by rw [moveAll, move_stay type, moveAll_stay types]

end

end TypeExpr

/-! ## Expressions and places -/

mutual

/-- An expression with its locations moved. -/
def Expr.move : Expr → Expr
  | .addressOf loc target => .addressOf (loc.move m) target.move
  | .apply loc style function args => .apply (loc.move m) style function.move (Expr.moveAll args)
  | .asType loc value type => .asType (loc.move m) value.move (type.move m)
  | .buffer loc elements => .buffer (loc.move m) (Expr.moveAll elements)
  | .ifThen loc condition yes no => .ifThen (loc.move m) condition.move yes.move no.move
  | .index loc base offset => .index (loc.move m) base.move offset.move
  | .number loc text => .number (loc.move m) text
  | .tuple loc parts => .tuple (loc.move m) (Expr.moveAll parts)
  | .valueAt loc address => .valueAt (loc.move m) address.move
  | .ident loc name => .ident (loc.move m) name

/-- Some expressions with their locations moved. -/
def Expr.moveAll : List Expr → List Expr
  | [] => []
  | e :: es => e.move :: Expr.moveAll es

/-- A place with its locations moved. -/
def Place.move : Place → Place
  | .direct loc name => .direct (loc.move m) name
  | .index loc base offset => .index (loc.move m) base.move offset.move
  | .indirect loc address => .indirect (loc.move m) address.move
  | .tuple loc parts => .tuple (loc.move m) (Place.moveAll parts)

/-- Some places with their locations moved. -/
def Place.moveAll : List Place → List Place
  | [] => []
  | p :: ps => p.move :: Place.moveAll ps

end

namespace Expr

theorem moveAll_eq (es : List Expr) : moveAll m es = es.map (move m) := by
  induction es with
  | nil => rw [moveAll, List.map_nil]
  | cons e es ih => rw [moveAll, List.map_cons, ih]

@[simp] theorem move_loc (e : Expr) : (e.move m).loc = e.loc.move m := by
  cases e <;> simp only [move, loc]

@[simp] theorem move_relocate (e : Expr) (l : Location) :
    (e.relocate l).move m = (e.move m).relocate (l.move m) := by
  cases e <;> simp only [move, relocate]

@[simp] theorem move_describe (e : Expr) : (e.move m).describe = e.describe := by
  cases e <;> simp only [move, describe]

end Expr

namespace Place

mutual

/-- An expression names a place wherever it stands, and what names none moves along. -/
theorem ofExpr_move : (e : Expr) →
    ofExpr (e.move m) = ((ofExpr e).mapError (Expr.move m)).map (move m)
  | .ident loc name => by rw [Expr.move, ofExpr, ofExpr, mapError_ok, Except.map, move]
  | .valueAt loc address => by rw [Expr.move, ofExpr, ofExpr, mapError_ok, Except.map, move]
  | .index loc base offset => by
    rw [Expr.move, ofExpr, ofExpr, ofExpr_move base]
    cases ofExpr base with
    | error part => rfl
    | ok place =>
      show Except.ok _ = Except.ok _
      rw [move]
  | .tuple loc parts => by
    rw [Expr.move, ofExpr, ofExpr, ofExprs_move parts]
    cases ofExprs parts with
    | error part => rfl
    | ok places =>
      show Except.ok _ = Except.ok _
      rw [move]
  | .addressOf .. | .apply .. | .asType .. | .buffer .. | .ifThen .. | .number .. => by
    simp only [Expr.move, ofExpr, mapError_error, Except.map]

/-- Expressions name places wherever they stand. -/
theorem ofExprs_move : (es : List Expr) →
    ofExprs (Expr.moveAll m es) = ((ofExprs es).mapError (Expr.move m)).map (moveAll m)
  | [] => by rw [Expr.moveAll, ofExprs, mapError_ok, Except.map, moveAll]
  | e :: es => by
    rw [Expr.moveAll, ofExprs, ofExprs, ofExpr_move e, ofExprs_move es]
    cases ofExpr e with
    | error part => rfl
    | ok place =>
      cases ofExprs es with
      | error part => rfl
      | ok places =>
        show Except.ok _ = Except.ok _
        rw [moveAll]

end

end Place

mutual

/-- Where nothing moves, an expression stays as it is. -/
theorem Expr.move_stay : (e : Expr) → e.move .stay = e
  | .addressOf _ target => by rw [Expr.move, Place.move_stay target]; rfl
  | .apply _ _ function args => by
    rw [Expr.move, Expr.move_stay function, Expr.moveAll_stay args]; rfl
  | .asType _ value type => by rw [Expr.move, Expr.move_stay value, type.move_stay]; rfl
  | .buffer _ elements => by rw [Expr.move, Expr.moveAll_stay elements]; rfl
  | .ifThen _ condition yes no => by
    rw [Expr.move, Expr.move_stay condition, Expr.move_stay yes, Expr.move_stay no]; rfl
  | .index _ base offset => by rw [Expr.move, Expr.move_stay base, Expr.move_stay offset]; rfl
  | .number .. => by rw [Expr.move]; rfl
  | .tuple _ parts => by rw [Expr.move, Expr.moveAll_stay parts]; rfl
  | .valueAt _ address => by rw [Expr.move, Expr.move_stay address]; rfl
  | .ident .. => by rw [Expr.move]; rfl

/-- Where nothing moves, expressions stay as they are. -/
theorem Expr.moveAll_stay : (es : List Expr) → Expr.moveAll .stay es = es
  | [] => by rw [Expr.moveAll]
  | e :: es => by rw [Expr.moveAll, Expr.move_stay e, Expr.moveAll_stay es]

/-- Where nothing moves, a place stays as it is. -/
theorem Place.move_stay : (place : Place) → place.move .stay = place
  | .direct .. => by rw [Place.move]; rfl
  | .index _ base offset => by rw [Place.move, Place.move_stay base, Expr.move_stay offset]; rfl
  | .indirect _ address => by rw [Place.move, Expr.move_stay address]; rfl
  | .tuple _ parts => by rw [Place.move, Place.moveAll_stay parts]; rfl

/-- Where nothing moves, places stay as they are. -/
theorem Place.moveAll_stay : (places : List Place) → Place.moveAll .stay places = places
  | [] => by rw [Place.moveAll]
  | p :: ps => by rw [Place.moveAll, Place.move_stay p, Place.moveAll_stay ps]

end

/-! ## Statements and declarations -/

/-- An introduced name with its locations moved. -/
def Reference.move (r : Reference) : Reference :=
  ⟨r.loc.move m, r.mutable, r.name, r.type.move m⟩

/-- A binding with its locations moved. -/
def Binding.move (b : Binding) : Binding :=
  ⟨b.loc.move m, b.names.map (Reference.move m), b.value.move m⟩

theorem Reference.move_stay (r : Reference) : r.move .stay = r := by
  rw [Reference.move, r.type.move_stay]
  rfl

theorem Binding.move_stay (b : Binding) : b.move .stay = b := by
  rw [Binding.move, b.value.move_stay, funext Reference.move_stay, List.map_id']
  rfl

namespace Statement

mutual

/-- A statement with its locations moved. -/
def move : Statement → Statement
  | assign loc target value => assign (loc.move m) (target.move m) (value.move m)
  | breakLoop loc depth => breakLoop (loc.move m) depth
  | call loc style function args =>
    call (loc.move m) style (function.move m) (Expr.moveAll m args)
  | forever loc label? body => forever (loc.move m) label? (moveAll body)
  | branch loc condition yes no =>
    branch (loc.move m) (condition.move m) (moveAll yes) (moveAll no)
  | letBind loc bindings => letBind (loc.move m) (bindings.map (Binding.move m))
  | nested loc body => nested (loc.move m) (moveAll body)
  | returnValue loc value => returnValue (loc.move m) (value.move m)

/-- Some statements with their locations moved. -/
def moveAll : List Statement → List Statement
  | [] => []
  | x :: xs => move x :: moveAll xs

end

theorem moveAll_eq (xs : List Statement) : moveAll m xs = xs.map (move m) := by
  induction xs with
  | nil => rw [moveAll, List.map_nil]
  | cons x xs ih => rw [moveAll, List.map_cons, ih]

@[simp] theorem move_loc (x : Statement) : (x.move m).loc = x.loc.move m := by
  cases x <;> simp only [move, loc]

mutual

/-- Where nothing moves, a statement stays as it is. -/
theorem move_stay : (x : Statement) → x.move .stay = x
  | assign _ target value => by rw [move, target.move_stay, value.move_stay]; rfl
  | breakLoop .. => by rw [move]; rfl
  | call _ _ function args => by rw [move, function.move_stay, Expr.moveAll_stay args]; rfl
  | forever _ _ body => by rw [move, moveAll_stay body]; rfl
  | branch _ condition yes no => by
    rw [move, condition.move_stay, moveAll_stay yes, moveAll_stay no]; rfl
  | letBind _ bindings => by rw [move, funext Binding.move_stay, List.map_id']; rfl
  | nested _ body => by rw [move, moveAll_stay body]; rfl
  | returnValue _ value => by rw [move, value.move_stay]; rfl

/-- Where nothing moves, statements stay as they are. -/
theorem moveAll_stay : (xs : List Statement) → moveAll .stay xs = xs
  | [] => by rw [moveAll]
  | x :: xs => by rw [moveAll, move_stay x, moveAll_stay xs]

end

end Statement

namespace Declaration

/-- A declaration with its locations moved. -/
def move : Declaration → Declaration
  | function loc name params result body =>
    function (loc.move m) name (params.map (Reference.move m)) (result.move m)
      (Statement.moveAll m body)
  | letBind loc bindings => letBind (loc.move m) (bindings.map (Binding.move m))

@[simp] theorem move_loc (d : Declaration) : (d.move m).loc = d.loc.move m := by
  cases d <;> rfl

/-- Where nothing moves, a declaration stays as it is. -/
theorem move_stay (d : Declaration) : d.move .stay = d := by
  cases d with
  | function _ _ _ result body =>
    rw [move, funext Reference.move_stay, List.map_id', result.move_stay,
      Statement.moveAll_stay body]
    rfl
  | letBind _ bindings =>
    rw [move, funext Binding.move_stay, List.map_id']
    rfl

end Declaration

end Offside
