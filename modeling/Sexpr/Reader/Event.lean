import Sexpr.Text.Shown

/-!
# Events

What the reader reports while it works: that it begins with a text, which
character each datum begins with, that it is done. Events are data; their level
and text are what a log shows of them.
-/

namespace Sexpr

/-- What the first character of a datum says about its kind. -/
inductive Opening where
  | hash
  | list
  | quote
  | quasiquote
  | unquote
  | sign
  | string
  | digit
  | other
deriving DecidableEq

namespace Opening

/-- The class of a first character. Whatever has no class of its own begins a
symbol. -/
def ofChar (c : Char) : Opening :=
  match c with
  | '#' => hash
  | '(' => list
  | '\x27' => quote
  | '\x60' => quasiquote
  | ',' => unquote
  | '+' => sign
  | '-' => sign
  | '\x22' => string
  | c => if c.isDigit then digit else other

/-- The name of the class in the log. -/
def label : Opening → String
  | hash => "Pound"
  | list => "ListOpen"
  | quote => "Quote(Quote)"
  | quasiquote => "Quote(Quasiquote)"
  | unquote => "Unquote"
  | sign => "Sign"
  | string => "StringOpen"
  | digit => "Digit"
  | other => "Other"

end Opening

/-- The reader has come upon the first character of a datum. -/
structure Sighting where
  line : UInt32
  char : Char
deriving DecidableEq

/-- What is reported about a text, which `name` names throughout. -/
inductive Event where
  /-- Reading begins; the text has `size` bytes. -/
  | reading (name : String) (size : Nat)
  /-- A datum begins here. -/
  | sighted (name : String) (sighting : Sighting)
  /-- Reading succeeded and ended on this line. -/
  | read (name : String) (line : UInt32)
  /-- What was read has been compiled. -/
  | compiled (name : String)
deriving DecidableEq

/-- How much a log must be asked for to show an event. -/
inductive Level where
  | debug
  | trace
deriving DecidableEq

namespace Level

/-- The name of the level in the log. -/
def label : Level → String
  | debug => "DEBUG"
  | trace => "TRACE"

end Level

namespace Event

/-- Single data are reported at the more detailed level. -/
def level : Event → Level
  | sighted .. => .trace
  | _ => .debug

/-- The event in words. -/
def text : Event → String
  | reading name size => "parsing " ++ name ++ " (" ++ toString size ++ " bytes)"
  | sighted name s =>
    name ++ ":" ++ toString s.line.toNat ++ " " ++ (Opening.ofChar s.char).label
      ++ " at " ++ shownInLog s.char
  | read name line => "parsed " ++ name ++ " up to line " ++ toString line.toNat
  | compiled name => "compiled " ++ name

end Event

end Sexpr
