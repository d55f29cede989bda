import ShaderVariants.Command

/-!
# Command line

Prints what an inspection command has to say, or why it cannot say it.
-/

open ShaderVariants

/-- How the commands are given. -/
def usage : String :=
  "usage: shaderset info FILE\n" ++
  "       shaderset variants FILE [--shader NAME]\n" ++
  "       shaderset source FILE SHADER\n"

/-- The bytes of a file, or why there are none. -/
def readBytes (path : String) : IO (Except String (List UInt8)) := do
  try
    let bytes ← IO.FS.readBinFile path
    return .ok bytes.toList
  catch
    | .noFileOrDirectory .. => return .error "No such file or directory (os error 2)"
    | e => return .error (toString e)

/-- Runs the command that the arguments give. -/
def main (arguments : List String) : IO UInt32 := do
  match Command.ofArguments? arguments with
  | none =>
    IO.eprint usage
    return 2
  | some command =>
    match command.run (← readBytes command.file) with
    | .ok text =>
      IO.print text
      return 0
    | .error failure =>
      IO.eprint failure.text
      return 1
