import Offside.Printing.Programs

/-!
# Syntax without locations

Two syntax trees are the same in everything except locations if they are equal once all locations
are forgotten.

* `TypeExpr.erase`, `Expr.erase`, `Place.erase`, `Reference.erase`, `Binding.erase`,
  `Statement.erase`, `Declaration.erase`: a tree with all its locations replaced by one and the same.
* `Place.ofExpr_of_erase`: whether an expression names a place does not depend on locations.
* `Place.print_eq`: a place is printed as the expression that names it.
-/

namespace Offside

/-- The location that stands for all others. -/
def Location.nowhere : Location := Location.point Cursor.origin

open Location

/-! ## Types -/

namespace TypeExpr

mutual

/-- A type without its locations. -/
def erase : TypeExpr → TypeExpr
  | ground _ m g => ground nowhere m g
  | arrow _ m domain codomain => arrow nowhere m (erase domain) (erase codomain)
  | buffer _ m size element => buffer nowhere m size (erase element)
  | pointer _ m pointee => pointer nowhere m (erase pointee)
  | tuple _ m members => tuple nowhere m (eraseAll members)
  | unknown _ m => unknown nowhere m

/-- Some types without their locations. -/
def eraseAll : List TypeExpr → List TypeExpr
  | [] => []
  | type :: types => erase type :: eraseAll types

end

@[simp] theorem erase_relocate (type : TypeExpr) (l : Location) :
    (type.relocate l).erase = type.erase := by
  cases type <;> simp only [relocate, erase]

theorem eraseAll_eq (types : List TypeExpr) : eraseAll types = types.map erase := by
  induction types with
  | nil => rw [eraseAll, List.map_nil]
  | cons type types ih => rw [eraseAll, List.map_cons, ih]

/-- Marking a type is the same without locations. -/
theorem erase_withModality (type : TypeExpr) (m : Modality) :
    (type.withModality m).erase = type.erase.withModality m := by
  cases type <;> simp only [withModality, erase]

end TypeExpr

/-! ## Expressions and places -/

mutual

/-- An expression without its locations. -/
def Expr.erase : Expr → Expr
  | .addressOf _ target => .addressOf nowhere target.erase
  | .apply _ style function args => .apply nowhere style function.erase (Expr.eraseAll args)
  | .asType _ value type => .asType nowhere value.erase type.erase
  | .buffer _ elements => .buffer nowhere (Expr.eraseAll elements)
  | .ifThen _ condition yes no => .ifThen nowhere condition.erase yes.erase no.erase
  | .index _ base offset => .index nowhere base.erase offset.erase
  | .number _ text => .number nowhere text
  | .tuple _ parts => .tuple nowhere (Expr.eraseAll parts)
  | .valueAt _ address => .valueAt nowhere address.erase
  | .ident _ name => .ident nowhere name

/-- Some expressions without their locations. -/
def Expr.eraseAll : List Expr → List Expr
  | [] => []
  | e :: es => e.erase :: Expr.eraseAll es

/-- A place without its locations. -/
def Place.erase : Place → Place
  | .direct _ name => .direct nowhere name
  | .index _ base offset => .index nowhere base.erase offset.erase
  | .indirect _ address => .indirect nowhere address.erase
  | .tuple _ parts => .tuple nowhere (Place.eraseAll parts)

/-- Some places without their locations. -/
def Place.eraseAll : List Place → List Place
  | [] => []
  | p :: ps => p.erase :: Place.eraseAll ps

end

theorem Expr.eraseAll_eq (es : List Expr) : eraseAll es = es.map erase := by
  induction es with
  | nil => rw [eraseAll, List.map_nil]
  | cons e es ih => rw [eraseAll, List.map_cons, ih]

@[simp] theorem Expr.erase_relocate (e : Expr) (l : Location) : (e.relocate l).erase = e.erase := by
  cases e <;> simp only [relocate, erase]

namespace Place

mutual

/-- An expression that differs from a place in locations only names a place that does so too. -/
theorem ofExpr_of_erase : (place : Place) → {e : Expr} → e.erase = place.toExpr.erase →
    ∃ place', ofExpr e = .ok place' ∧ place'.erase = place.erase
  | direct l name, e, h => by
    rw [toExpr, Expr.erase] at h
    cases e <;> rw [Expr.erase] at h <;> cases h
    exact ⟨_, by rw [ofExpr], by rw [erase, erase]⟩
  | indirect l address, e, h => by
    rw [toExpr, Expr.erase] at h
    cases e <;> rw [Expr.erase] at h <;> injection h
    rename_i haddress
    exact ⟨_, by rw [ofExpr], by rw [erase, erase, haddress]⟩
  | index l base offset, e, h => by
    rw [toExpr, Expr.erase] at h
    cases e <;> rw [Expr.erase] at h <;> injection h
    rename_i hbase hoffset
    obtain ⟨base', hok, herase⟩ := ofExpr_of_erase base hbase
    exact ⟨_, by rw [ofExpr, hok]; rfl, by rw [erase, erase, herase, hoffset]⟩
  | tuple l parts, e, h => by
    rw [toExpr, Expr.erase] at h
    cases e <;> rw [Expr.erase] at h <;> injection h
    rename_i hparts
    obtain ⟨parts', hok, herase⟩ := ofExprs_of_erase parts hparts
    exact ⟨_, by rw [ofExpr, hok]; rfl, by rw [erase, erase, herase]⟩

/-- Expressions that differ from places in locations only name places that do so too. -/
theorem ofExprs_of_erase : (places : List Place) → {es : List Expr} →
    Expr.eraseAll es = Expr.eraseAll (toExprs places) →
    ∃ places', ofExprs es = .ok places' ∧ eraseAll places' = eraseAll places
  | [], es, h => by
    rw [toExprs, Expr.eraseAll] at h
    cases es <;> rw [Expr.eraseAll] at h <;> cases h
    exact ⟨[], by rw [ofExprs], rfl⟩
  | p :: ps, es, h => by
    rw [toExprs, Expr.eraseAll] at h
    cases es <;> rw [Expr.eraseAll] at h <;> injection h
    rename_i hp hps
    obtain ⟨p', hok, herase⟩ := ofExpr_of_erase p hp
    obtain ⟨ps', hoks, herases⟩ := ofExprs_of_erase ps hps
    exact ⟨p' :: ps', by rw [ofExprs, hok, hoks]; rfl, by rw [eraseAll, eraseAll, herase, herases]⟩

end

/-- The places that are printed in parentheses where they bind tightly are the open expressions. -/
theorem isOpen_toExpr (place : Place) : place.toExpr.isOpen = place.isIndirect := by
  cases place <;> rw [toExpr] <;> rfl

mutual

/-- A place is printed as the expression that names it. -/
theorem print_eq : (place : Place) → place.print = place.toExpr.print
  | direct l name => by rw [print, toExpr, Expr.print]
  | indirect l address => by rw [print, toExpr, Expr.print]
  | index l base offset => by
    rw [print, toExpr, Expr.print, Expr.operand, isOpen_toExpr, print_eq base]
  | tuple l parts => by rw [print, toExpr, Expr.print, printAll_eq parts]

/-- Places are printed as the expressions that name them. -/
theorem printAll_eq : (places : List Place) → printAll places = Expr.printAll (toExprs places)
  | [] => by rw [printAll, toExprs, Expr.printAll]
  | p :: ps => by rw [printAll, toExprs, Expr.printAll, print_eq p, printAll_eq ps]

end

end Place

/-! ## Statements and declarations -/

/-- An introduced name without its locations. -/
def Reference.erase (r : Reference) : Reference := ⟨nowhere, r.mutable, r.name, r.type.erase⟩

/-- A binding without its locations. -/
def Binding.erase (b : Binding) : Binding :=
  ⟨nowhere, b.names.map Reference.erase, b.value.erase⟩

namespace Statement

mutual

/-- A statement without its locations. -/
def erase : Statement → Statement
  | assign _ target value => assign nowhere target.erase value.erase
  | breakLoop _ depth => breakLoop nowhere depth
  | call _ style function args => call nowhere style function.erase (Expr.eraseAll args)
  | forever _ label? body => forever nowhere label? (eraseAll body)
  | branch _ condition yes no => branch nowhere condition.erase (eraseAll yes) (eraseAll no)
  | letBind _ bindings => letBind nowhere (bindings.map Binding.erase)
  | nested _ body => nested nowhere (eraseAll body)
  | returnValue _ value => returnValue nowhere value.erase

/-- Some statements without their locations. -/
def eraseAll : List Statement → List Statement
  | [] => []
  | x :: xs => erase x :: eraseAll xs

end

theorem eraseAll_eq (xs : List Statement) : eraseAll xs = xs.map erase := by
  induction xs with
  | nil => rw [eraseAll, List.map_nil]
  | cons x xs ih => rw [eraseAll, List.map_cons, ih]

end Statement

/-- A declaration without its locations. -/
def Declaration.erase : Declaration → Declaration
  | function _ name params result body =>
    function nowhere name (params.map Reference.erase) result.erase (Statement.eraseAll body)
  | letBind _ bindings => letBind nowhere (bindings.map Binding.erase)

end Offside
