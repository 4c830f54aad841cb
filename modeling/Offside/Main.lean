import Offside.CommandLine

/-!
# The program

Reads the file that the arguments name, and writes what `Offside.Request.run` says.
-/

/-- Checks one source file. -/
def main (args : List String) : IO UInt32 := do
  match Offside.Request.ofArgs? args with
  | none =>
    IO.eprintln Offside.Request.usage
    return 2
  | some (file, request) =>
    let source ← IO.FS.readFile file
    let outcome := request.run source
    IO.print outcome.stdout
    IO.eprint outcome.stderr
    return outcome.exitCode.toUInt32
