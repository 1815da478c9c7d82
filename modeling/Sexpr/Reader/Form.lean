import Sexpr.Datum.Abbreviation
import Sexpr.Reader.Event
import Sexpr.Reader.Numeral
import Sexpr.Reader.Token

/-!
# Reading a datum

A text holds one datum, with filler around it. The reader descends into lists and
abbreviations as deep as it is allowed to and stops at the first error.

The recursion has two parts. How deep it may still go is a natural number, and
`datum` recurses on it: one level reads its parts with the level below, or with
nothing if there is none. Along a list `listRest` recurses on the text that was
ahead when the list was opened, one character of it a turn. That is enough, as
every item uses up at least one character.

What the reader has seen survives an error, and so does the place: the line of an
error is the line of the cursor at that moment.
-/

namespace Sexpr

/-- What the reader works on. -/
structure Reading where
  cursor : Cursor
  /-- The first characters of the data come upon so far, the latest first. -/
  sightings : List Sighting

/-- A step of the reader. -/
abbrev Reader := EStateM Cause Reading

namespace Reader

/-- A step that only moves the cursor. -/
def scan {α : Type} (step : Scan α) : Reader α := fun r =>
  match step r.cursor with
  | .ok a c => .ok a { r with cursor := c }
  | .error e c => .error e { r with cursor := c }

/-- Records the first character of a datum. -/
def note (c : Char) : Reader Unit :=
  modify fun r => { r with sightings := { line := r.cursor.line, char := c } :: r.sightings }

/-! ## Lists -/

/-- What comes next in a list, after filler. -/
inductive ListStep where
  | close
  | dot
  | item
deriving DecidableEq

/-- A dot is one that no second dot follows, as two or more begin a symbol. -/
def ListStep.ofAhead : List Char → ListStep
  | [] => close
  | ')' :: _ => close
  | '.' :: '.' :: _ => item
  | '.' :: _ => dot
  | _ => item

/-- Closes a list of the items read so far, the latest first, with this tail. -/
def closeList (done : List Datum) (tail : Datum) : Reader Datum := do
  if ← scan (Scan.accept ')') then
    return done.foldl (fun rest first => .pair first rest) tail
  else throw (.unclosedList (← scan Scan.peek))

/-- The tail of a list, from the dot on. -/
def dottedTail (item : Reader Datum) (done : List Datum) : Reader Datum := do
  if done.isEmpty then throw .dotWithoutItem
  else
    scan (Scan.advance 1)
    scan Scan.filler
    if (← scan Scan.peek) = some ')' then throw .missingItemAfterDot
    else
      let tail ← item
      scan Scan.filler
      closeList done tail

/-- The rest of a list, after the items read so far. -/
def listRest (item : Reader Datum) : (clock : List Char) → (done : List Datum) → Reader Datum
  | [], done => closeList done .nil
  | _ :: clock, done => do
    scan Scan.filler
    match ListStep.ofAhead (← get).cursor.ahead with
    | .close => closeList done .nil
    | .dot => dottedTail item done
    | .item =>
      let d ← item
      listRest item clock (d :: done)

/-! ## Data -/

/-- A list, from its opening parenthesis on. -/
def list (item : Reader Datum) : Reader Datum := do
  scan (Scan.advance 1)
  listRest item (← get).cursor.ahead []

/-- A datum with a mark of one character in front. -/
def abbreviated (a : Abbreviation) (item : Reader Datum) : Reader Datum := do
  scan (Scan.advance 1)
  return a.expand (← item)

/-- A datum with a comma in front, and perhaps a second mark. -/
def unquoted (item : Reader Datum) : Reader Datum := do
  scan (Scan.advance 1)
  if ← scan (Scan.accept '@') then return Abbreviation.unquoteSplicing.expand (← item)
  else return Abbreviation.unquote.expand (← item)

/-- An atom read by a scanner. -/
def atom (token : Scan Atom) : Reader Datum := do
  return .atom (← scan token)

/-- A number read by a scanner. -/
def number (numeral : Scan Number) : Reader Datum := do
  return .number (← scan numeral)

/-- A datum that contains others. It takes one level of depth, which is missed
before anything of it is passed. -/
def nested (inner : Option (Reader Datum)) (form : Reader Datum → Reader Datum) : Reader Datum :=
  match inner with
  | none => throw .nestingTooDeep
  | some item => form item

/-- A datum that begins with a character of this class. A sign begins a number if
a digit follows. -/
def form (inner : Option (Reader Datum)) : Opening → Reader Datum
  | .hash => atom Scan.hashToken
  | .list => nested inner list
  | .quote => nested inner (abbreviated .quote)
  | .quasiquote => nested inner (abbreviated .quasiquote)
  | .unquote => nested inner unquoted
  | .sign => do
    if ((← scan (Scan.peekAt 1)).any Char.isDigit) then number Scan.numeral
    else atom Scan.symbolToken
  | .string => atom Scan.stringToken
  | .digit => number Scan.numeral
  | .other => atom Scan.symbolToken

/-- A datum whose parts `inner` reads. -/
def datumWith (inner : Option (Reader Datum)) : Reader Datum := do
  scan Scan.filler
  match ← scan Scan.peek with
  | none => throw .nothingToRead
  | some c =>
    note c
    form inner (Opening.ofChar c)

/-- A datum that is nested at most `depth` levels deep. -/
def datum : (depth : Nat) → Reader Datum
  | 0 => datumWith none
  | depth + 1 => datumWith (some (datum depth))

/-- A datum with nothing but filler after it. -/
def onlyDatum (depth : Nat) : Reader Datum := do
  let d ← datum depth
  scan Scan.filler
  match ← scan Scan.peek with
  | none => return d
  | some c => throw (.trailingContent c)

end Reader

end Sexpr
