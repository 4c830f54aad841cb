/-!
# Phases

* `Phase`: the stages of the front end that can report a problem, with a stage reserved for typing.
* `Phase.name`: how a phase is called in messages; `Phase.ofName?`: the phase of a name.
-/

namespace Offside

/-- The stage that reports a problem. -/
inductive Phase where
  /-- Malformed characters, unbalanced brackets, violations of the offside rule. -/
  | lexical
  /-- A token that does not fit the grammar. -/
  | parse
  /-- Control flow and the shape of the entry point. -/
  | wellFormedness
  /-- Kept for the type checker. -/
  | typing
  /-- A state of the front end that no source text should lead to. -/
  | internal
deriving DecidableEq

namespace Phase

/-- The name of a phase in messages. -/
def name : Phase → String
  | lexical => "Lexical"
  | parse => "Parse"
  | wellFormedness => "Well-formedness check"
  | typing => "Type"
  | internal => "Internal compiler"

/-- Every phase, in the order in which they run. -/
def all : List Phase := [lexical, parse, wellFormedness, typing, internal]

/-- The phase of the given name. -/
def ofName? (name : String) : Option Phase := all.find? fun phase => phase.name == name

/-- A phase is known by its name. -/
@[simp] theorem ofName?_name (phase : Phase) : ofName? phase.name = some phase := by
  cases phase <;> decide

end Phase

end Offside
