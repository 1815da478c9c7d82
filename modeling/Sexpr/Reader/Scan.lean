import Sexpr.Reader.Error
import Sexpr.Text.Blank
import Sexpr.Text.Cursor

/-!
# Scanning

Steps of reading that move a cursor and may fail. A failing step leaves the
cursor where it failed, which is where the error is reported.

Filler is what may stand between tokens: white space, and comments from a
semicolon to the end of the line.
-/

namespace Sexpr

/-- A step over the text that fails with a cause, at the place it has reached. -/
abbrev Scan := EStateM Cause Cursor

namespace Scan

/-- The next character. -/
def peek : Scan (Option Char) := do
  return (← get).peek?

/-- The character `n` characters ahead. -/
def peekAt (n : Nat) : Scan (Option Char) := do
  return (← get).peekAt? n

/-- Passes `n` characters. -/
def advance (n : Nat) : Scan Unit :=
  modify (·.advanceBy n)

/-- Passes the next character if it is the expected one. -/
def accept (expected : Char) : Scan Bool :=
  modifyGet (·.accept expected)

/-- Passes the longest run of characters with a property. -/
def takeWhile (p : Char → Bool) : Scan (List Char) :=
  modifyGet (·.takeWhile p)

end Scan

/-- The number of characters of filler in front, added to `width`. Inside a
comment everything up to the line feed belongs to it. -/
def fillerWidth (inComment : Bool) (width : Nat) : List Char → Nat
  | [] => width
  | c :: rest =>
    if inComment then fillerWidth (c != '\n') (width + 1) rest
    else if isBlank c then fillerWidth false (width + 1) rest
    else if c = ';' then fillerWidth true (width + 1) rest
    else width

/-- The place after the filler in front. -/
def Cursor.skipFiller (c : Cursor) : Cursor :=
  c.advanceBy (fillerWidth false 0 c.ahead)

/-- Passes filler. -/
def Scan.filler : Scan Unit :=
  modify Cursor.skipFiller

end Sexpr
