import Sexpr.Datum.Written
import Sexpr.Output.Sink

/-!
# Data as lines

Data are written out one to a line. `lines` is the text as a whole; `emitLines`
sends it to a sink piece by piece as it walks the trees, so it need never be held
in one place and what does not fit is not produced in vain.
-/

namespace Sexpr.Datum

/-- The written forms, each with a line feed after it. -/
def lines (ds : List Datum) : String :=
  String.join (ds.map fun d => d.text ++ "\n")

mutual

/-- Writes a datum. -/
def emit : Datum → Emit Unit
  | nil => Emit.put "()"
  | atom a => Emit.put (String.ofList a.written)
  | pair first rest => do
    Emit.put "("
    first.emit
    rest.emitRest

/-- Writes what follows an item, up to the closing parenthesis. -/
def emitRest : Datum → Emit Unit
  | nil => Emit.put ")"
  | atom a => do
    Emit.put " . "
    Emit.put (String.ofList a.written)
    Emit.put ")"
  | pair first rest => do
    Emit.put " "
    first.emit
    rest.emitRest

end

/-- Writes data one to a line, up to the first failure. -/
def emitLines : List Datum → Emit Unit
  | [] => return ()
  | d :: ds => do
    d.emit
    Emit.put "\n"
    emitLines ds

/-- What the sink holds after data were written to it, and whether all of them
were. -/
def writeLines (ds : List Datum) (sink : Sink) : Except WriteError Unit × Sink :=
  match emitLines ds sink with
  | .ok _ s => (.ok (), s)
  | .error e s => (.error e, s)

end Sexpr.Datum
