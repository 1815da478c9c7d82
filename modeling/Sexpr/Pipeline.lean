import Sexpr.Files.Store
import Sexpr.Reader.Outcome

/-!
# The pipeline

What happens to a datum after it was read: a compiler makes a procedure of it, and
a machine runs the procedure. Both are given from outside and keep a state of their
own. A stage runs only if the one before it succeeded, and a stage that does not
run leaves its state as it was.
-/

namespace Sexpr

/-- What can be said about a compiled procedure. -/
class Procedure (P : Type) where
  /-- The bytecode, as the compiler chooses to show it. -/
  bytecode : P → String
  /-- The bytecode instruction by instruction. -/
  disassembly : P → String

/-- A compiler with states `S`, for procedures that run in environments `Env`. -/
structure Compiler (S Env P E : Type) where
  compile : Datum → Env → S → Except E P × S

/-- A machine with states `S`. -/
structure Machine (S Env P V E : Type) where
  environment : S → Env
  run : P → S → Except E V × S

/-- How far the pipeline goes. -/
inductive Mode where
  /-- Compiles and runs; the report tells the result. -/
  | run
  /-- Stops after compiling; the report shows the bytecode. -/
  | compileOnly
deriving DecidableEq

/-- The stage that failed, and its error. -/
inductive PipelineError (E F : Type) where
  | file (path : String) (error : FileError)
  | read (error : ReadError)
  | compile (name : String) (error : E)
  | run (name : String) (error : F)

/-- The error in words, from what was being done to what went wrong. -/
def PipelineError.chain {E F : Type} [ToString E] [ToString F] : PipelineError E F → List String
  | file path error => ["reading " ++ shownPath path, error.message]
  | read error => [error.message]
  | compile name error => ["compiling " ++ name, toString error]
  | run name error => ["running " ++ name, toString error]

/-- What came of a text: the report or the error, the states afterwards, and the
events on the way. -/
structure Execution (S T E F : Type) where
  report : Except (PipelineError E F) String
  compiler : S
  machine : T
  events : List Event

namespace Pipeline

/-- The report on a result. -/
def resultReport (value : String) : String :=
  "Result is " ++ value

/-- The report on a procedure that is not run. -/
def bytecodeReport {P : Type} [Procedure P] (p : P) : String :=
  "Bytecode:\n" ++ Procedure.bytecode p ++ "\nDisasm run:\n" ++ Procedure.disassembly p ++ "\n"

variable {S T Env P V E F : Type} [Procedure P] [ToString V]

/-- Runs a procedure, or only reports on it. -/
def finish (machine : Machine T Env P V F) (mode : Mode) (name : String) (p : P) (s : S) (t : T)
    (events : List Event) : Execution S T E F :=
  match mode with
  | .compileOnly =>
    { report := .ok (bytecodeReport p), compiler := s, machine := t, events := events }
  | .run =>
    match machine.run p t with
    | (.ok value, t') =>
      { report := .ok (resultReport (toString value)), compiler := s, machine := t',
        events := events }
    | (.error e, t') =>
      { report := .error (.run name e), compiler := s, machine := t', events := events }

/-- Reads, compiles and, depending on the mode, runs a text. -/
def runText (compiler : Compiler S Env P E) (machine : Machine T Env P V F) (mode : Mode)
    (name text : String) (s : S) (t : T) : Execution S T E F :=
  let outcome := Datum.readReporting { name := name } text
  match outcome.result with
  | .error e =>
    { report := .error (.read e), compiler := s, machine := t, events := outcome.events }
  | .ok d =>
    match compiler.compile d (machine.environment t) s with
    | (.error e, s') =>
      { report := .error (.compile name e), compiler := s', machine := t,
        events := outcome.events }
    | (.ok p, s') => finish machine mode name p s' t (outcome.events ++ [.compiled name])

/-- The same for the text of a file, which its path names. -/
def runFile (compiler : Compiler S Env P E) (machine : Machine T Env P V F) (mode : Mode)
    (store : FileStore) (path : String) (s : S) (t : T) : Execution S T E F :=
  match store.readText path with
  | .error e =>
    { report := .error (.file path e), compiler := s, machine := t, events := [] }
  | .ok text => runText compiler machine mode path text s t

end Pipeline

end Sexpr
