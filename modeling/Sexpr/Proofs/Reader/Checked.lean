import Sexpr.Reader.Form

/-!
# A reader that checks its steps

The reader keeps the characters on both sides of its place, so it cannot be at a place that is none,
and its loops are recursions that end. Here it is once more with an offset in bytes for a place,
which could be anything. Every look at the text goes through the offset, whatever is taken from the
text is cut out between two offsets, the count of the lines must not run over, and a loop takes one
turn after the other, for which there may be too few. A step that cannot be taken ends the run, and
not with a cause. So if a run comes to a datum or to a cause, every step on the way was possible.

What happens on the way is written down: all places, all cuts, and for every datum how many are
being read when it is begun.

> `Halt`: how a run ends without a result.
> `advance`, `slice`, `loop`: the steps that check.
> `onlyDatum`: the same reader, made of these steps.
-/

namespace Sexpr

/-- Why a run has no result. -/
inductive Halt where
  /-- The text is no datum. -/
  | cause (e : Cause)
  /-- An offset lies beyond the end or inside a character, a piece of text ends before it begins, or
  a line has no number. -/
  | broken
  /-- A loop goes on when there have been as many turns as characters. -/
  | endless

/-- Where a run is, and what has happened on it. -/
structure Walk where
  text : List Char
  /-- The offset of the place in bytes. -/
  position : Nat
  line : UInt32
  /-- The first characters of the data come upon so far, the latest first. -/
  sightings : List Sighting
  /-- How many data are being read, each inside the next. -/
  active : Nat
  /-- The offsets and lines of all places so far, the latest first. -/
  stops : List (Nat × UInt32)
  /-- Where the pieces that were cut out begin and end. -/
  cuts : List (Nat × Nat)
  /-- For all data that were begun how many were being read then. -/
  begun : List Nat

/-- The beginning of a text. -/
def Walk.start (text : String) : Walk :=
  { text := text.toList, position := 0, line := 1, sightings := [], active := 0,
    stops := [(0, 1)], cuts := [], begun := [] }

/-- A step that is checked. -/
abbrev Checked := EStateM Halt Walk

namespace Checked

/-- The text is found to be no datum. -/
def fail {α : Type} (e : Cause) : Checked α :=
  throw (.cause e)

/-! ## Looking -/

/-- The characters from the offset on. -/
def ahead : Checked (List Char) := do
  let w ← get
  match dropBytes? w.position w.text with
  | some cs => return cs
  | none => throw .broken

/-- The next character. -/
def peek : Checked (Option Char) := do
  return (← ahead).head?

/-- The character `n` characters ahead. -/
def peekAt (n : Nat) : Checked (Option Char) := do
  return (← ahead)[n]?

/-- The offset of the place. -/
def position : Checked Nat := do
  return (← get).position

/-! ## Moving -/

/-- Comes to a place. -/
def moveTo (position : Nat) (line : UInt32) : Checked Unit :=
  modify fun w => { w with position, line, stops := (position, line) :: w.stops }

/-- Passes one character; stays at the end. Behind the last line that has a number there must be no
other one. -/
def advance : Checked Unit := do
  let w ← get
  match ← peek with
  | none => return ()
  | some c =>
    if c = '\n' ∧ w.line + 1 = 0 then throw .broken
    else moveTo (w.position + c.utf8Size) (if c = '\n' then w.line + 1 else w.line)

/-- Passes `n` characters, or all that are left. -/
def advanceBy : Nat → Checked Unit
  | 0 => return ()
  | n + 1 => do
    advance
    advanceBy n

/-- Passes the next character if it is the expected one, and says whether it was. -/
def accept (expected : Char) : Checked Bool := do
  if (← peek) = some expected then
    advance
    return true
  else return false

/-! ## Cutting out -/

/-- The text between two offsets. -/
def slice (start stop : Nat) : Checked String := do
  modify fun w => { w with cuts := (start, stop) :: w.cuts }
  let w ← get
  if stop < start then throw .broken
  else
    match (dropBytes? start w.text).bind (takeBytes? (stop - start)) with
    | some run => return String.ofList run
    | none => throw .broken

/-- The text from an offset up to the place. -/
def since (start : Nat) : Checked String := do
  slice start (← position)

/-! ## Loops -/

/-- Takes one turn after the other until one of them ends the loop; there may be `clock` turns. -/
def loopFor {α β : Type} (turn : α → Checked (α ⊕ β)) : (clock : Nat) → α → Checked β
  | 0, _ => throw .endless
  | clock + 1, a => do
    match ← turn a with
    | .inl a' => loopFor turn clock a'
    | .inr b => return b

/-- A loop with one turn for every character ahead, and one to end it. -/
def loop {α β : Type} (turn : α → Checked (α ⊕ β)) (a : α) : Checked β := do
  loopFor turn ((← ahead).length + 1) a

/-- Passes one character if it has the property, and otherwise ends the loop. -/
def whileTurn (p : Char → Bool) (_ : Unit) : Checked (Unit ⊕ Unit) := do
  if (← peek).any p then
    advance
    return .inl ()
  else return .inr ()

/-- Passes the longest run of characters with a property. -/
def skipWhile (p : Char → Bool) : Checked Unit :=
  loop (whileTurn p) ()

/-- Passes one character of a comment, the last one if it is a line feed. -/
def commentTurn (_ : Unit) : Checked (Unit ⊕ Unit) := do
  match ← peek with
  | none => return .inr ()
  | some c =>
    advance
    return if c = '\n' then .inr () else .inl ()

/-- Passes blanks, and a comment if there is one behind them. -/
def fillerTurn (_ : Unit) : Checked (Unit ⊕ Unit) := do
  skipWhile isBlank
  if (← peek) = some ';' then
    loop commentTurn ()
    return .inl ()
  else return .inr ()

/-- Passes filler. -/
def filler : Checked Unit :=
  loop fillerTurn ()

/-! ## Numbers -/

/-- The number that is spelled with a point or without; a point alone spells none. -/
def spelled? (isReal : Bool) (run : List Char) : Option Number :=
  let whole := run.takeWhile Char.isDigit
  if isReal then
    let fraction := run.drop (whole.length + 1)
    if whole.isEmpty && fraction.isEmpty then none
    else some (.real (Decimal.ofDigits whole fraction).toFloat)
  else some (.integer (Nat.ofDigitChars 10 whole 0))

/-- The number that was passed since an offset; `none` if nothing was. -/
def numberSince (start : Nat) (isReal : Bool) : Checked (Option Number) := do
  let run := (← since start).toList
  if run.isEmpty then return none
  else
    match spelled? isReal run with
    | some n => return some n
    | none => fail .invalidNumber

/-- An unsigned number; `none` if neither a digit nor a point comes next. -/
def unsigned : Checked (Option Number) := do
  let start ← position
  skipWhile Char.isDigit
  let isReal ← accept '.'
  skipWhile Char.isDigit
  numberSince start isReal

/-- The rest of a quotient, if a slash follows its first part. -/
def quotient (base : Number) : Checked Number := do
  if ← accept '/' then
    match ← unsigned with
    | none => fail .missingDenominator
    | some divisor =>
      if divisor.isZero then fail .divisionByZero
      else return .real (base.toFloat / divisor.toFloat)
  else return base

/-- Passes a minus, a plus, or one of each in this order; says whether there was a minus. -/
def sign : Checked Bool := do
  let negative ← accept '-'
  let _ ← accept '+'
  return negative

/-- An imaginary part whose sign comes next. -/
def imaginary (base : Number) : Checked Number := do
  let negative ← sign
  let magnitude ← unsigned
  if ← accept 'i' then return base.withImaginary negative (magnitude.getD (.integer 1))
  else fail (.missingImaginaryUnit (← peek))

/-- The imaginary part, if a sign follows the real one. -/
def imaginaryIfSigned (base : Number) : Checked Number := do
  let next ← peek
  if next = some '+' ∨ next = some '-' then imaginary base else return base

/-- A number. -/
def numeral : Checked Number := do
  let negative ← sign
  match ← unsigned with
  | none => fail .invalidNumber
  | some base =>
    let value ← imaginaryIfSigned (← quotient base)
    return if negative then -value else value

/-! ## Other tokens -/

/-- A token that begins with a number sign. -/
def hashToken : Checked Atom := do
  let found ← peekAt 1
  if found = some 't' then
    advanceBy 2
    return .bool true
  else if found = some 'f' then
    advanceBy 2
    return .bool false
  else if found = some '(' then fail .vectorUnsupported
  else fail (.invalidHashToken found)

/-- A symbol, whatever its first character is. -/
def symbolToken : Checked Atom := do
  let start ← position
  advance
  skipWhile continuesSymbol
  return .symbol (← since start)

/-- Passes one character of a string, or two that are an escape. What was copied last is the text
up to the last escape, and what follows it begins at the offset. -/
def stringTurn (copied : String × Nat) : Checked ((String × Nat) ⊕ (String × Nat)) := do
  match ← peek with
  | none => return .inr copied
  | some c =>
    if c = '\x22' then return .inr copied
    else if c = '\\' then
      let backslash ← position
      advance
      match (← peek).bind Quoted.unescape? with
      | some x =>
        let chunk ← slice copied.2 backslash
        advance
        return .inl ((copied.1 ++ chunk).push x, ← position)
      | none => return .inl copied
    else
      advance
      return .inl copied

/-- A string. -/
def stringToken : Checked Atom := do
  let _ ← accept '\x22'
  let copied ← loop stringTurn ("", ← position)
  let chunk ← since copied.2
  if ← accept '\x22' then return .string (copied.1 ++ chunk) else fail .unterminatedString

/-! ## Lists -/

/-- Closes a list of the items read so far, the latest first, with this tail. -/
def closeList (done : List Datum) (tail : Datum) : Checked Datum := do
  if ← accept ')' then return done.foldl (fun rest first => .pair first rest) tail
  else fail (.unclosedList (← peek))

/-- The tail of a list, from the dot on. -/
def dottedTail (item : Checked Datum) (done : List Datum) : Checked Datum := do
  if done.isEmpty then fail .dotWithoutItem
  else
    advance
    filler
    if (← peek) = some ')' then fail .missingItemAfterDot
    else
      let tail ← item
      filler
      closeList done tail

/-- Reads one item, or the end of the list. -/
def listTurn (item : Checked Datum) (done : List Datum) : Checked (List Datum ⊕ Datum) := do
  filler
  match Reader.ListStep.ofAhead (← ahead) with
  | .close => return .inr (← closeList done .nil)
  | .dot => return .inr (← dottedTail item done)
  | .item => return .inl ((← item) :: done)

/-- A list, from its opening parenthesis on. -/
def list (item : Checked Datum) : Checked Datum := do
  let _ ← accept '('
  loop (listTurn item) []

/-! ## Data -/

/-- A datum with a mark of one character in front. -/
def abbreviated (a : Abbreviation) (item : Checked Datum) : Checked Datum := do
  advance
  return a.expand (← item)

/-- A datum with a comma in front, and perhaps a second mark. -/
def unquoted (item : Checked Datum) : Checked Datum := do
  let _ ← accept ','
  if ← accept '@' then return Abbreviation.unquoteSplicing.expand (← item)
  else return Abbreviation.unquote.expand (← item)

/-- An atom read from a token. -/
def atom (token : Checked Atom) : Checked Datum := do
  return .atom (← token)

/-- A number as a datum. -/
def number : Checked Datum := do
  return .number (← numeral)

/-- A datum that contains others, if there is depth for them. -/
def nested (inner : Option (Checked Datum)) (form : Checked Datum → Checked Datum) :
    Checked Datum :=
  match inner with
  | none => fail .nestingTooDeep
  | some item => form item

/-- A datum that begins with a character of this class. -/
def form (inner : Option (Checked Datum)) : Opening → Checked Datum
  | .hash => atom hashToken
  | .list => nested inner list
  | .quote => nested inner (abbreviated .quote)
  | .quasiquote => nested inner (abbreviated .quasiquote)
  | .unquote => nested inner unquoted
  | .sign => do
    if (← peekAt 1).any Char.isDigit then number else atom symbolToken
  | .string => atom stringToken
  | .digit => number
  | .other => atom symbolToken

/-- One datum more is being read. -/
def enter : Checked Unit :=
  modify fun w => { w with active := w.active + 1, begun := (w.active + 1) :: w.begun }

/-- The datum that was begun last has been read. -/
def leave : Checked Unit :=
  modify fun w => { w with active := w.active - 1 }

/-- Records the first character of a datum. -/
def note (c : Char) : Checked Unit :=
  modify fun w => { w with sightings := { line := w.line, char := c } :: w.sightings }

/-- A datum whose parts `inner` reads. -/
def datumWith (inner : Option (Checked Datum)) : Checked Datum := do
  enter
  filler
  match ← peek with
  | none => fail .nothingToRead
  | some c =>
    note c
    let d ← form inner (Opening.ofChar c)
    leave
    return d

/-- A datum that is nested at most `depth` levels deep. -/
def datum : (depth : Nat) → Checked Datum
  | 0 => datumWith none
  | depth + 1 => datumWith (some (datum depth))

/-- A datum with nothing but filler after it. -/
def onlyDatum (depth : Nat) : Checked Datum := do
  let d ← datum depth
  filler
  match ← peek with
  | none => return d
  | some c => fail (.trailingContent c)

end Checked

end Sexpr
