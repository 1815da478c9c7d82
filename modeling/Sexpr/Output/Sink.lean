/-!
# Sinks

A sink takes bytes and may have room for only so many. Text that does not fit is
taken as far as it does, and then writing fails: what the sink holds is always the
beginning of what was to be written, and nothing gets in after a failure because
the room is used up.
-/

namespace Sexpr

/-- Why writing failed. -/
inductive WriteError where
  /-- The sink takes no more bytes. -/
  | full
deriving DecidableEq

/-- The error in words. -/
def WriteError.message : WriteError → String
  | full => "failed to write whole buffer"

/-- What has been written, and for how many more bytes there is room; without a
number there is always room. -/
structure Sink where
  written : ByteArray
  room : Option Nat

namespace Sink

/-- An empty sink that takes anything. -/
def unbounded : Sink :=
  { written := .empty, room := none }

/-- An empty sink that takes this many bytes. -/
def ofRoom (n : Nat) : Sink :=
  { written := .empty, room := some n }

end Sink

/-- A step of writing. -/
abbrev Emit := EStateM WriteError Sink

/-- Writes a text in UTF-8, as much of it as there is room for. -/
def Emit.put (text : String) : Emit Unit := fun s =>
  let bytes := text.toUTF8
  match s.room with
  | none => .ok () { s with written := s.written ++ bytes }
  | some n =>
    if bytes.size ≤ n then .ok () { written := s.written ++ bytes, room := some (n - bytes.size) }
    else .error .full { written := s.written ++ bytes.extract 0 n, room := some 0 }

end Sexpr
