import Mathlib.Data.List.Basic
import Offside.Proofs.Grammar.Expressions
import Offside.Proofs.Syntax.Erasure

/-!
# Expressions that can be assigned to

* `Expr.Assignable`: the expressions that are built from names, values at an address, tuples and
  elements only, given as a relation of its own.
* `Expr.placeParts`: an expression and those parts of it that have to name a place for it to do so,
  outermost and leftmost first.
* `Place.ofExpr_outcome`: whether an expression names a place is decided by its first such part that
  is of none of the four forms.
* `Place.ofExpr_exact`: which expressions name a place, which place that is, and what is given back
  otherwise.
-/

namespace Offside

namespace Expr

/-- The expressions that can be assigned to. -/
inductive Assignable : Expr → Prop where
  /-- A name. -/
  | ident (loc : Location) (name : String) : Assignable (ident loc name)
  /-- The value at any address. -/
  | valueAt (loc : Location) (address : Expr) : Assignable (valueAt loc address)
  /-- Any element of what can be assigned to. -/
  | index (loc : Location) {base : Expr} (offset : Expr) (hbase : Assignable base) :
      Assignable (index loc base offset)
  /-- A tuple of what can be assigned to. -/
  | tuple (loc : Location) {parts : List Expr} (hparts : ∀ part ∈ parts, Assignable part) :
      Assignable (tuple loc parts)

/-- Whether an expression is a name, a value at an address, an element or a tuple. -/
def hasPlaceForm : Expr → Bool
  | ident .. | valueAt .. | index .. | tuple .. => true
  | _ => false

mutual

/-- An expression and the parts of it along tuples and bases, each before its own parts. -/
def placeParts : Expr → List Expr
  | e@(.index _ base _) => e :: placeParts base
  | e@(.tuple _ parts) => e :: placePartsAll parts
  | e => [e]

/-- The parts of some expressions along tuples and bases. -/
def placePartsAll : List Expr → List Expr
  | [] => []
  | e :: es => placeParts e ++ placePartsAll es

end

/-- The first part along tuples and bases that cannot name a place. -/
def misfit? (e : Expr) : Option Expr :=
  e.placeParts.find? (!·.hasPlaceForm)

/-- The first part of some expressions along tuples and bases that cannot name a place. -/
def misfitAmong? (es : List Expr) : Option Expr :=
  (placePartsAll es).find? (!·.hasPlaceForm)

@[simp] theorem misfit?_index (l : Location) (base offset : Expr) :
    (index l base offset).misfit? = base.misfit? := by
  simp [misfit?, placeParts, hasPlaceForm]

@[simp] theorem misfit?_tuple (l : Location) (parts : List Expr) :
    (tuple l parts).misfit? = misfitAmong? parts := by
  simp [misfit?, misfitAmong?, placeParts, hasPlaceForm]

@[simp] theorem misfitAmong?_nil : misfitAmong? [] = none := by
  simp [misfitAmong?, placePartsAll]

@[simp] theorem misfitAmong?_cons (e : Expr) (es : List Expr) :
    misfitAmong? (e :: es) = e.misfit?.or (misfitAmong? es) := by
  simp [misfit?, misfitAmong?, placePartsAll, List.find?_append]

end Expr

namespace Place

open Expr Location

mutual

/-- An expression either has no misfit and names a place, or its first misfit is given back. -/
theorem ofExpr_outcome : (e : Expr) →
    (e.misfit? = none ∧ ∃ place, ofExpr e = .ok place) ∨
      ∃ part, e.misfit? = some part ∧ ofExpr e = .error part
  | .ident .. | .valueAt .. =>
    .inl ⟨by simp [misfit?, placeParts, hasPlaceForm], _, by rw [ofExpr]⟩
  | .index l base offset => by
    rw [misfit?_index, ofExpr]
    obtain ⟨hnone, place, hbase⟩ | ⟨part, hsome, hbase⟩ := ofExpr_outcome base
    · exact .inl ⟨hnone, _, by rw [hbase]; rfl⟩
    · exact .inr ⟨part, hsome, by rw [hbase]; rfl⟩
  | .tuple l parts => by
    rw [misfit?_tuple, ofExpr]
    obtain ⟨hnone, places, hparts⟩ | ⟨part, hsome, hparts⟩ := ofExprs_outcome parts
    · exact .inl ⟨hnone, _, by rw [hparts]; rfl⟩
    · exact .inr ⟨part, hsome, by rw [hparts]; rfl⟩
  | .addressOf .. | .apply .. | .asType .. | .buffer .. | .ifThen .. | .number .. =>
    .inr ⟨_, by simp only [misfit?, placeParts, List.find?_cons, hasPlaceForm]; rfl, rfl⟩

/-- Expressions either have no misfit and name places, or their first misfit is given back. -/
theorem ofExprs_outcome : (es : List Expr) →
    (misfitAmong? es = none ∧ ∃ places, ofExprs es = .ok places) ∨
      ∃ part, misfitAmong? es = some part ∧ ofExprs es = .error part
  | [] => .inl ⟨misfitAmong?_nil, [], by rw [ofExprs]⟩
  | e :: es => by
    rw [misfitAmong?_cons, ofExprs]
    obtain ⟨hnone, place, he⟩ | ⟨part, hsome, he⟩ := ofExpr_outcome e
    · rw [hnone, Option.none_or]
      obtain ⟨hnones, places, hes⟩ | ⟨part, hsome, hes⟩ := ofExprs_outcome es
      · exact .inl ⟨hnones, _, by rw [he, hes]; rfl⟩
      · exact .inr ⟨part, hsome, by rw [he, hes]; rfl⟩
    · exact .inr ⟨part, by rw [hsome, Option.some_or], by rw [he]; rfl⟩

end

/-- What is given back is the first misfit. -/
theorem ofExpr_error_iff {e part : Expr} : ofExpr e = .error part ↔ e.misfit? = some part := by
  obtain ⟨hnone, place, hok⟩ | ⟨part', hsome, herror⟩ := ofExpr_outcome e
  · simp [hnone, hok]
  · simp [hsome, herror]

mutual

/-- The expression that names a place names that place. -/
theorem ofExpr_toExpr : (place : Place) → ofExpr place.toExpr = .ok place
  | .direct .. | .indirect .. => by rw [toExpr, ofExpr]
  | .index l base offset => by
    rw [toExpr, ofExpr, ofExpr_toExpr base]
    rfl
  | .tuple l parts => by
    rw [toExpr, ofExpr, ofExprs_toExprs parts]
    rfl

/-- The expressions that name some places name those places. -/
theorem ofExprs_toExprs : (places : List Place) → ofExprs (toExprs places) = .ok places
  | [] => by rw [toExprs, ofExprs]
  | p :: ps => by
    rw [toExprs, ofExprs, ofExpr_toExpr p, ofExprs_toExprs ps]
    rfl

end

/-- An expression names a place exactly when it is the expression of that place. -/
theorem ofExpr_ok_iff {e : Expr} {place : Place} : ofExpr e = .ok place ↔ place.toExpr = e :=
  ⟨toExpr_of_ofExpr e, fun h => h ▸ ofExpr_toExpr place⟩

mutual

/-- The expression of a place can be assigned to. -/
theorem assignable_toExpr : (place : Place) → place.toExpr.Assignable
  | .direct .. => by
    rw [toExpr]
    exact .ident ..
  | .indirect .. => by
    rw [toExpr]
    exact .valueAt ..
  | .index l base offset => by
    rw [toExpr]
    exact .index l offset (assignable_toExpr base)
  | .tuple l parts => by
    rw [toExpr]
    exact .tuple l (assignable_toExprs parts)

/-- The expressions of places can be assigned to. -/
theorem assignable_toExprs : (places : List Place) → ∀ e ∈ toExprs places, e.Assignable
  | [] => by simp [toExprs]
  | p :: ps => by
    rw [toExprs]
    exact List.forall_mem_cons.2 ⟨assignable_toExpr p, assignable_toExprs ps⟩

end

/-- Expressions that each name a place name places. -/
theorem exists_ofExprs {es : List Expr} (h : ∀ e ∈ es, ∃ place, ofExpr e = .ok place) :
    ∃ places, ofExprs es = .ok places := by
  induction es with
  | nil => exact ⟨[], by rw [ofExprs]⟩
  | cons e es ih =>
    obtain ⟨⟨place, he⟩, hes⟩ := List.forall_mem_cons.1 h
    obtain ⟨places, hplaces⟩ := ih hes
    exact ⟨place :: places, by rw [ofExprs, he, hplaces]; rfl⟩

/-- An expression that can be assigned to names a place. -/
theorem exists_ofExpr {e : Expr} (h : e.Assignable) : ∃ place, ofExpr e = .ok place := by
  induction h with
  | ident | valueAt => exact ⟨_, by rw [ofExpr]⟩
  | index l offset _ ih =>
    obtain ⟨place, hbase⟩ := ih
    exact ⟨_, by rw [ofExpr, hbase]; rfl⟩
  | tuple l _ ih =>
    obtain ⟨places, hparts⟩ := exists_ofExprs ih
    exact ⟨_, by rw [ofExpr, hparts]; rfl⟩

/-- The expressions that name a place are those that can be assigned to. The place is the only one
whose expression is the given one, locations included, and is located and printed as that; an
expression that names none gives back the first part, along tuples and bases, that is neither a name
nor a value at an address nor an element nor a tuple. -/
theorem ofExpr_exact (e : Expr) :
    ((∃ place, ofExpr e = .ok place) ↔ e.Assignable) ∧
      (∀ place, ofExpr e = .ok place ↔ place.toExpr = e) ∧
      (∀ place, ofExpr e = .ok place → place.loc = e.loc ∧ place.print = e.print) ∧
      ∀ part, ofExpr e = .error part ↔ e.placeParts.find? (!·.hasPlaceForm) = some part := by
  refine ⟨⟨?_, exists_ofExpr⟩, fun place => ofExpr_ok_iff, ?_, fun part => ofExpr_error_iff⟩
  · rintro ⟨place, h⟩
    rw [← ofExpr_ok_iff.1 h]
    exact assignable_toExpr place
  · intro place h
    rw [← ofExpr_ok_iff.1 h]
    exact ⟨(toExpr_loc place).symm, print_eq place⟩

/-- `(a[1], *(2))` names a place, and `(a, 1[b])` none because of the number. -/
theorem ofExpr_exact_pairs :
    (∃ place,
      ofExpr (.tuple nowhere [.index nowhere (.ident nowhere "a") (.number nowhere "1"),
        .valueAt nowhere (.number nowhere "2")]) = .ok place ∧
        place.loc = nowhere ∧ place.print = "(a[1], *(2))") ∧
      ofExpr (.tuple nowhere [.ident nowhere "a",
        .index nowhere (.number nowhere "1") (.ident nowhere "b")]) =
        .error (.number nowhere "1") := by
  constructor
  · obtain ⟨hiff, -, hsame, -⟩ :=
      ofExpr_exact (.tuple nowhere [.index nowhere (.ident nowhere "a") (.number nowhere "1"),
        .valueAt nowhere (.number nowhere "2")])
    obtain ⟨place, h⟩ := hiff.2 <| .tuple _ <| List.forall_mem_cons.2
      ⟨.index _ _ (.ident _ _), List.forall_mem_cons.2 ⟨.valueAt _ _, by simp⟩⟩
    refine ⟨place, h, (hsame place h).1, (hsame place h).2.trans ?_⟩
    cbv
  · exact ((ofExpr_exact _).2.2.2 _).2 (by cbv)

end Place

end Offside
