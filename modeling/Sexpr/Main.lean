import Sexpr.Command

/-!
# The program

Runs the command on its arguments and on the files of the system.
-/

namespace Sexpr.Command

/-- What an error of the system means for reading a file. Of the two kinds of
wrong type a path can have, 21 is that of a directory in place of a file; the
code comes with either sign, depending on which call failed. -/
def fileError : IO.Error → FileError
  | .noFileOrDirectory .. => .notFound
  | .inappropriateType _ code _ =>
    if code = 21 ∨ code + 21 = 0 then .isDirectory else .notDirectory
  | e => .other (toString e)

/-- The bytes of a file of the system. -/
def fetch (path : String) : IO (Except FileError ByteArray) := do
  try
    return .ok (← IO.FS.readBinFile path)
  catch e =>
    return .error (fileError e)

/-- Writes the outputs of a finished command and gives its exit code. -/
def report (f : Finished) : IO UInt32 := do
  IO.print f.output
  IO.eprint f.errors
  return f.exitCode

end Sexpr.Command

/-- The program: it reads a file only if it understands its arguments. -/
def main (arguments : List String) : IO UInt32 := do
  match Sexpr.Command.Options.ofArguments? arguments with
  | none => Sexpr.Command.report Sexpr.Command.usage
  | some options =>
    Sexpr.Command.report (Sexpr.Command.run options (← Sexpr.Command.fetch options.path))
