import Offside.Source.Location

/-!
# Types

* `Ground`: the primitive types; `Modality`: whether a value may be modified; `BufferSize`: the size
  of a buffer as far as it is written.
* `TypeExpr`: a type annotation. Every node carries its location and its modality.
-/

namespace Offside

/-- A primitive type. -/
inductive Ground where
  /-- Truth values. -/
  | boolean
  /-- Signed integers of eight bits. -/
  | int8
  /-- Signed integers of sixteen bits. -/
  | int16
  /-- Signed integers of thirty-two bits. -/
  | int32
  /-- Signed integers of sixty-four bits. -/
  | int64
  /-- Unsigned integers of eight bits. -/
  | uint8
  /-- Unsigned integers of sixteen bits. -/
  | uint16
  /-- Unsigned integers of thirty-two bits. -/
  | uint32
  /-- Unsigned integers of sixty-four bits. -/
  | uint64
  /-- The type of one value. -/
  | unit
deriving DecidableEq

namespace Ground

/-- The name of a primitive type. -/
def name : Ground → String
  | boolean => "Boolean"
  | int8 => "Int8"
  | int16 => "Int16"
  | int32 => "Int32"
  | int64 => "Int64"
  | uint8 => "UInt8"
  | uint16 => "UInt16"
  | uint32 => "UInt32"
  | uint64 => "UInt64"
  | unit => "Unit"

/-- Every primitive type. -/
def all : List Ground :=
  [boolean, int8, int16, int32, int64, uint8, uint16, uint32, uint64, unit]

/-- The primitive type of a name. -/
def ofName? (name : String) : Option Ground := all.find? fun g => g.name == name

/-- A primitive type is known by its name. -/
@[simp] theorem ofName?_name (g : Ground) : ofName? g.name = some g := by
  cases g <;> decide

end Ground

/-- Whether a value may be modified. -/
inductive Modality where
  /-- It may not. -/
  | immutable
  /-- It may. -/
  | mutable
deriving DecidableEq

/-- The size of a buffer. -/
inductive BufferSize where
  /-- A size given by a number. -/
  | literal (text : String)
  /-- A size left open. -/
  | unknown
  /-- A size named elsewhere. -/
  | external (name : String)
deriving DecidableEq

/-- A type annotation. -/
inductive TypeExpr where
  /-- A primitive type. -/
  | ground (loc : Location) (modality : Modality) (ground : Ground)
  /-- The functions from `domain` to `codomain`. -/
  | arrow (loc : Location) (modality : Modality) (domain codomain : TypeExpr)
  /-- The buffers of `size` elements. -/
  | buffer (loc : Location) (modality : Modality) (size : BufferSize) (element : TypeExpr)
  /-- The pointers to values of a type. -/
  | pointer (loc : Location) (modality : Modality) (pointee : TypeExpr)
  /-- The tuples with members of the given types. -/
  | tuple (loc : Location) (modality : Modality) (members : List TypeExpr)
  /-- A type left open. -/
  | unknown (loc : Location) (modality : Modality)

namespace TypeExpr

/-- Where a type is written. -/
def loc : TypeExpr → Location
  | ground loc .. | arrow loc .. | buffer loc .. | pointer loc .. | tuple loc .. | unknown loc .. =>
    loc

/-- Whether values of a type may be modified. -/
def modality : TypeExpr → Modality
  | ground _ m _ | arrow _ m .. | buffer _ m .. | pointer _ m _ | tuple _ m _ | unknown _ m => m

/-- The same type at another location. -/
def relocate (loc : Location) : TypeExpr → TypeExpr
  | ground _ m g => ground loc m g
  | arrow _ m domain codomain => arrow loc m domain codomain
  | buffer _ m size element => buffer loc m size element
  | pointer _ m pointee => pointer loc m pointee
  | tuple _ m members => tuple loc m members
  | unknown _ m => unknown loc m

/-- The same type with another modality. -/
def withModality (m : Modality) : TypeExpr → TypeExpr
  | ground loc _ g => ground loc m g
  | arrow loc _ domain codomain => arrow loc m domain codomain
  | buffer loc _ size element => buffer loc m size element
  | pointer loc _ pointee => pointer loc m pointee
  | tuple loc _ members => tuple loc m members
  | unknown loc _ => unknown loc m

/-- Whether a type is the given primitive type and immutable. -/
def isImmutableGround (g : Ground) : TypeExpr → Bool
  | ground _ .immutable h => h == g
  | _ => false

/-- Whether a type is a function type. -/
def isArrow : TypeExpr → Bool
  | arrow .. => true
  | _ => false

/-- Whether a type is a pointer type. -/
def isPointer : TypeExpr → Bool
  | pointer .. => true
  | _ => false

end TypeExpr

end Offside
