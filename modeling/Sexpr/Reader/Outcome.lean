import Sexpr.Reader.Event
import Sexpr.Reader.Form

/-!
# Reading a text

A run of the reader over a whole text, and what comes of it: the datum or the first
error, and the events on the way to it. The events begin with the name and the size of
the text, name each datum at its first character, and end with the line that was
reached if the text was read.
-/

namespace Sexpr

/-- How a text is read. -/
structure Settings where
  /-- What errors and events call the text. -/
  name : String := "__unknown__"
  /-- How many lists and abbreviations may be nested in each other. -/
  depth : Nat := 500
deriving DecidableEq

/-- What came of reading a text: the datum or the error, and the events on the
way to it. -/
structure Outcome where
  result : Except ReadError Datum
  events : List Event

namespace Datum

/-- The run of the reader over a text. -/
def run (settings : Settings) (text : String) : EStateM.Result Cause Reading Datum :=
  Reader.onlyDatum settings.depth { cursor := .ofText text, sightings := [] }

/-- The events of a run that came to this point. -/
def eventsUpTo (settings : Settings) (text : String) (r : Reading) : List Event :=
  .reading settings.name text.utf8ByteSize
    :: r.sightings.reverse.map (Event.sighted settings.name)

/-- Reads a text and reports on it. -/
def readReporting (settings : Settings) (text : String) : Outcome :=
  match run settings text with
  | .ok d r =>
    { result := .ok d
      events := eventsUpTo settings text r ++ [.read settings.name r.cursor.line] }
  | .error cause r =>
    { result := .error { cause := cause, name := settings.name, line := r.cursor.line }
      events := eventsUpTo settings text r }

/-- Reads the one datum of a text. -/
def read (settings : Settings) (text : String) : Except ReadError Datum :=
  (readReporting settings text).result

end Datum

end Sexpr
