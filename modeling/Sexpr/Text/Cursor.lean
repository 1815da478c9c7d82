/-!
# Cursor

A place in a text: the characters already passed and the characters still ahead,
with the byte offset and the line number kept along. All reading goes through a
cursor, so what was consumed, where a token lies and on which line something
happened can always be read off it.

Offsets count bytes of UTF-8, lookahead counts characters. Lines are counted in
32 bits, so the count starts over after `2 ^ 32` of them.
-/

namespace Sexpr

/-- The number of bytes the characters take in UTF-8. -/
def byteCount : List Char → Nat
  | [] => 0
  | c :: cs => c.utf8Size + byteCount cs

/-- The characters from byte `n` on; `none` if `n` lies beyond the end or inside
a character. -/
def dropBytes? : Nat → List Char → Option (List Char)
  | 0, cs => some cs
  | _ + 1, [] => none
  | n + 1, c :: cs => if c.utf8Size ≤ n + 1 then dropBytes? (n + 1 - c.utf8Size) cs else none

/-- The characters that fill exactly the first `n` bytes; `none` if there are
fewer bytes or byte `n` lies inside a character. -/
def takeBytes? : Nat → List Char → Option (List Char)
  | 0, _ => some []
  | _ + 1, [] => none
  | n + 1, c :: cs =>
    if c.utf8Size ≤ n + 1 then (takeBytes? (n + 1 - c.utf8Size) cs).map (c :: ·) else none

/-- A place in a text. -/
structure Cursor where
  /-- The characters before the place, the nearest first. -/
  passed : List Char
  /-- The characters after it. -/
  ahead : List Char
  /-- The number of bytes passed. -/
  position : Nat
  /-- One more than the number of line feeds passed. -/
  line : UInt32
deriving DecidableEq

namespace Cursor

/-- The beginning of a text. -/
def ofText (text : String) : Cursor :=
  { passed := [], ahead := text.toList, position := 0, line := 1 }

/-- The whole text around the cursor. -/
def text (c : Cursor) : List Char :=
  c.passed.reverse ++ c.ahead

/-! ## Looking -/

/-- The next character. -/
def peek? (c : Cursor) : Option Char :=
  c.ahead.head?

/-- The character `n` characters ahead. -/
def peekAt? (c : Cursor) (n : Nat) : Option Char :=
  c.ahead[n]?

/-- Whether anything is left. -/
def hasMore (c : Cursor) : Bool :=
  !c.ahead.isEmpty

/-- The length of the whole text in bytes. -/
def size (c : Cursor) : Nat :=
  c.position + byteCount c.ahead

/-- Whether the whole text is empty. -/
def isEmpty (c : Cursor) : Bool :=
  c.size == 0

/-! ## Moving -/

/-- Passes one character; stays at the end. -/
def advance (c : Cursor) : Cursor :=
  match c.ahead with
  | [] => c
  | ch :: rest =>
    { passed := ch :: c.passed
      ahead := rest
      position := c.position + ch.utf8Size
      line := if ch = '\n' then c.line + 1 else c.line }

/-- Passes `n` characters, or all that are left. -/
def advanceBy (c : Cursor) : Nat → Cursor
  | 0 => c
  | n + 1 => c.advance.advanceBy n

/-- Passes the next character if it is the expected one, and says whether it was. -/
def accept (c : Cursor) (expected : Char) : Bool × Cursor :=
  if c.peek? = some expected then (true, c.advance) else (false, c)

/-- The longest run of characters with a property, and the place after it. -/
def takeWhile (c : Cursor) (p : Char → Bool) : List Char × Cursor :=
  let run := c.ahead.takeWhile p
  (run, c.advanceBy run.length)

/-! ## Cutting out -/

/-- The text between two byte offsets; `none` if they are out of order, beyond
the end or inside a character. -/
def slice? (c : Cursor) (start stop : Nat) : Option String :=
  if start ≤ stop then
    ((dropBytes? start c.text).bind (takeBytes? (stop - start))).map String.ofList
  else none

/-- The text from an earlier offset up to here. It walks back from the cursor, so
it costs only what it returns. -/
def since? (c : Cursor) (start : Nat) : Option String :=
  if start ≤ c.position then
    (takeBytes? (c.position - start) c.passed).map fun run => String.ofList run.reverse
  else none

/-! ## One equation per operation -/

@[simp] theorem text_advance (c : Cursor) : c.advance.text = c.text := by
  unfold advance
  split
  · rfl
  · next h => simp [text, h]

@[simp] theorem text_advanceBy (c : Cursor) (n : Nat) : (c.advanceBy n).text = c.text := by
  induction n generalizing c with
  | zero => rfl
  | succ n ih => rw [advanceBy, ih, text_advance]

/-- A step forward leaves the text behind the next character. -/
@[simp] theorem ahead_advance (c : Cursor) : c.advance.ahead = c.ahead.tail := by
  unfold advance
  split
  · next h => simp [h]
  · next h => simp [h]

/-- Several steps pass as many characters, or all there are. -/
@[simp] theorem ahead_advanceBy (c : Cursor) (n : Nat) :
    (c.advanceBy n).ahead = c.ahead.drop n := by
  induction n generalizing c with
  | zero => rfl
  | succ n ih => rw [advanceBy, ih, ahead_advance, List.drop_tail]

/-- What a run leaves ahead starts with no character of the run's kind. -/
theorem ahead_takeWhile (c : Cursor) (p : Char → Bool) :
    (c.takeWhile p).2.ahead = c.ahead.dropWhile p := by
  simp only [takeWhile, ahead_advanceBy]
  have whole : (c.ahead.takeWhile p ++ c.ahead.dropWhile p).drop (c.ahead.takeWhile p).length
      = c.ahead.dropWhile p := List.drop_left
  rwa [List.takeWhile_append_dropWhile] at whole

end Cursor

end Sexpr
