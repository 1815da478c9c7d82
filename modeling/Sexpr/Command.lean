import Sexpr.Datum.Tagged
import Sexpr.Files.Load

/-!
# The command

Reads the datum in a file and writes it, its tagged form, or both. Without an
option it only checks the file. What the command does is a function of its
arguments and of the file's contents.
-/

namespace Sexpr.Command

/-- What the command was asked for. -/
structure Options where
  path : String
  /-- Write the datum. -/
  print : Bool
  /-- Write its tagged form. -/
  tagged : Bool
deriving DecidableEq

/-- What the arguments up to some point amount to. -/
structure Draft where
  path? : Option String
  print : Bool
  tagged : Bool

/-- Takes a path; there may be one only, and it may not be empty. -/
def Draft.withPath? (d : Draft) (path : String) : Option Draft :=
  if path = "" ∨ d.path?.isSome then none else some { d with path? := some path }

/-- Takes one argument, unless options have ended before it. -/
def Draft.withArgument? (d : Draft) (argument : String) : Option Draft :=
  if argument = "--print" then
    if d.print then none else some { d with print := true }
  else if argument = "--dump" ∨ argument = "-d" then
    if d.tagged then none else some { d with tagged := true }
  else if argument.startsWith "-" ∧ argument ≠ "-" then none
  else d.withPath? argument

/-- Takes all arguments. After two hyphens there are no more options. -/
def Draft.withArguments? (d : Draft) : List String → Option Draft
  | [] => some d
  | "--" :: paths => paths.foldlM Draft.withPath? d
  | argument :: rest => (d.withArgument? argument).bind (·.withArguments? rest)

/-- The options that the arguments stand for, in any order; `none` if there is no
path, or anything that is not understood. -/
def Options.ofArguments? (arguments : List String) : Option Options :=
  let start : Draft := { path? := none, print := false, tagged := false }
  match start.withArguments? arguments with
  | some { path? := some path, print, tagged } => some { path, print, tagged }
  | _ => none

/-- What a finished command leaves: its exit code and its two outputs. -/
structure Finished where
  exitCode : UInt32
  output : String
  errors : String
deriving DecidableEq

/-- A text with all its lines indented. -/
def indented (text : String) : String :=
  String.ofList ("    ".toList ++ text.toList.flatMap fun c =>
    if c = '\n' then "\n    ".toList else [c])

/-- The report on an error. A read error is the cause of the failure to load the
file, and is told once as each. -/
def errorReport (e : LoadError) : String :=
  match e with
  | .file .. => "Error: " ++ e.message ++ "\n"
  | .read cause =>
    "Error: " ++ e.message ++ "\n\nCaused by:\n" ++ indented cause.message ++ "\n"

/-- The command on a file with these contents. The datum comes before its tagged
form, whatever the order of the options. -/
def run (options : Options) (contents : Except FileError ByteArray) : Finished :=
  match Datum.ofContents options.path contents with
  | .error e => { exitCode := 1, output := "", errors := errorReport e }
  | .ok d =>
    let data := (if options.print then [d] else []) ++ (if options.tagged then [d.tagged] else [])
    { exitCode := 0, output := Datum.lines data, errors := "" }

/-- The command on arguments that it does not understand. -/
def usage : Finished :=
  { exitCode := 2, output := ""
    errors := "Usage: sexpr [--print] [--dump | -d] PATH\n" }

/-- The command with its arguments, on files that `read` fetches. -/
def runArguments (arguments : List String) (read : String → Except FileError ByteArray) :
    Finished :=
  match Options.ofArguments? arguments with
  | none => usage
  | some options => run options (read options.path)

end Sexpr.Command
