import Offside.Frontend
import Offside.Printing.Programs

/-!
# The command line

What the program does with one source text: it checks it, and on request prints one of its forms.

* `Form`: the forms that can be printed; `Request`: what is asked for.
* `Request.run`: the exit code and what is written to both outputs.
* `Request.ofArgs?`: the request that the arguments of the program spell, with the file to read.
-/

namespace Offside

/-- A form of the program that can be printed. -/
inductive Form where
  /-- The token trees before layout. -/
  | tokens
  /-- The token trees after layout. -/
  | layout
  /-- The checked program as source text. -/
  | ast
deriving DecidableEq

/-- The form of a name. -/
def Form.ofName? (name : String) : Option Form :=
  if name = "tokens" then some tokens
  else if name = "layout" then some layout
  else if name = "ast" then some ast
  else none

/-- What is asked for. -/
structure Request where
  /-- The form to print, if any. -/
  form? : Option Form
  /-- Whether problems are reported in the form for programs. -/
  machine : Bool
  /-- Whether there must be an entry point. -/
  requireMain : Bool

/-- What the program leaves behind. -/
structure Outcome where
  /-- The exit code. -/
  exitCode : Nat
  /-- What is written to standard output. -/
  stdout : String
  /-- What is written to standard error. -/
  stderr : String

namespace Request

/-- The text of the form asked for; a program that is only checked has none. -/
def output? (request : Request) (source : String) : Except (Failure Cause) (Option String) :=
  match request.form? with
  | some .tokens => do
    let tokens ← Frontend.tokenize source
    return some (Token.dumpAll tokens)
  | some .layout => do
    let tokens ← Frontend.tokenize source
    let laidOut ← Frontend.layOut tokens
    return some (Token.dumpAll laidOut)
  | some .ast => do
    let program ← Frontend.compile request.requireMain source
    return some (printProgram program)
  | none => do
    let _ ← Frontend.compile request.requireMain source
    return none

/-- How a problem is reported. -/
def report (request : Request) (source : String) (d : Diagnostic) : String :=
  if request.machine then d.machine else d.full source

/-- What the program does with a source text. -/
def run (request : Request) (source : String) : Outcome :=
  match request.output? source with
  | .ok none => ⟨0, "", ""⟩
  | .ok (some text) => ⟨0, text ++ "\n", ""⟩
  | .error (.reported e) => ⟨1, "", request.report source e.diagnostic ++ "\n"⟩
  | .error (.fault broken) => ⟨101, "", broken.message ++ "\n"⟩

/-! ## Arguments -/

/-- One more argument, given the file and the request so far, and the arguments after it. -/
def ofArgsFrom : Option String → Request → List String → Option (String × Request)
  | file?, request, [] => file?.map fun file => (file, request)
  | file?, request, "--machine" :: args => ofArgsFrom file? { request with machine := true } args
  | file?, request, "--allow-missing-main" :: args =>
    ofArgsFrom file? { request with requireMain := false } args
  | file?, request, "--emit" :: name :: args =>
    match Form.ofName? name with
    | some form => ofArgsFrom file? { request with form? := some form } args
    | none => none
  | none, request, file :: args =>
    if file.toList.head? = some '-' then none else ofArgsFrom (some file) request args
  | some _, _, _ :: _ => none

/-- The file and the request that the arguments spell. -/
def ofArgs? (args : List String) : Option (String × Request) :=
  ofArgsFrom none ⟨none, false, true⟩ args

/-- How the program is used. -/
def usage : String :=
  "usage: offside FILE [--emit tokens|layout|ast] [--machine] [--allow-missing-main]"

end Request

end Offside
