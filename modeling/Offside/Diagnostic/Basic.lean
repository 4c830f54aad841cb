import Offside.Diagnostic.Excerpt
import Offside.Diagnostic.Fault
import Offside.Diagnostic.Phase

/-!
# Diagnostics

* `Located`: a cause of failure and where it was found.
* `Failure`: why a stage stopped, which is a located cause or a fault. The second happens only on
  tokens that no source text gives rise to.
* `Diagnostic`: a phase, a location and a message, with its forms for programs
  (`Diagnostic.machine`), for people (`Diagnostic.human`), and for people beside the source text
  (`Diagnostic.full`). `Diagnostic.drawn` is this last form of a diagnostic at any location, which
  can be too long to be drawn.
-/

namespace Offside

/-- A cause of failure and where it was found. -/
structure Located (ε : Type) where
  /-- What is wrong. -/
  cause : ε
  /-- Where it is wrong. -/
  loc : Location

/-- The same place with another cause. -/
def Located.map {ε δ : Type} (f : ε → δ) (e : Located ε) : Located δ := ⟨f e.cause, e.loc⟩

/-- Why a stage stopped. -/
inductive Failure (ε : Type) where
  /-- The input is at fault. -/
  | reported (error : Located ε)
  /-- A rule of the program itself is broken. -/
  | fault (fault : Fault)

/-- The same failure with another cause. -/
def Failure.map {ε δ : Type} (f : ε → δ) : Failure ε → Failure δ
  | reported error => reported (error.map f)
  | fault broken => fault broken

/-- A problem as it is shown: which phase found it, where, and what it is. -/
structure Diagnostic where
  /-- The phase that found the problem. -/
  phase : Phase
  /-- Where the problem is. -/
  loc : Location
  /-- What the problem is, without phase and location. -/
  message : String
deriving DecidableEq

namespace Diagnostic

/-- The form `@r,c,r,c message`. -/
def machine (d : Diagnostic) : String := d.loc.machine ++ " " ++ d.message

/-- The form `Phase error at (r,c)-(r,c).  message`. -/
def human (d : Diagnostic) : String :=
  d.phase.name ++ " error at " ++ d.loc.human ++ ".  " ++ d.message

/-- The form for people, an empty line, and the excerpt of the source text. -/
def full (source : String) (d : Diagnostic) : String :=
  "\n".intercalate (d.human :: "" :: d.loc.excerpt source)

/-- The form for people beside the source text, if it is not too long to be drawn. -/
def drawn (source : String) (d : Diagnostic) : Except Fault String :=
  if d.loc.isDrawable then .ok (d.full source) else .error .overlong

end Diagnostic

end Offside
