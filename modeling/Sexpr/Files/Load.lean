import Sexpr.Files.Store
import Sexpr.Output.Lines
import Sexpr.Reader.Outcome

/-!
# Data in files

A file holds one datum when it is read, and any number of lines when it is
written. The path names the text in read errors; errors about the file itself show
the path between quotes.
-/

namespace Sexpr

/-- Why a file gives no datum. -/
inductive LoadError where
  | file (path : String) (error : FileError)
  | read (error : ReadError)
deriving DecidableEq

/-- The error in words. -/
def LoadError.message : LoadError → String
  | file path error => shownPath path ++ ": " ++ error.message
  | read error => error.message

namespace Datum

/-- The datum in a file with this path and these contents, if it could be read. -/
def ofContents (path : String) (contents : Except FileError ByteArray) :
    Except LoadError Datum :=
  match contents.bind FileError.textOf with
  | .error e => .error (.file path e)
  | .ok text =>
    match read { name := path } text with
    | .error e => .error (.read e)
    | .ok d => .ok d

/-- Reads the one datum in a file. -/
def load (store : FileStore) (path : String) : Except LoadError Datum :=
  ofContents path (store.readBytes path)

/-- Writes data to a file, one to a line. -/
def save (store : FileStore) (path : String) (ds : List Datum) : Except FileError FileStore :=
  store.writeBytes path (writeLines ds Sink.unbounded).2.written

end Datum

end Sexpr
