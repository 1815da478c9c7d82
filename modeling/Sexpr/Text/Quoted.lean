import Sexpr.Text.Cursor

/-!
# String literals

A string is written between double quotes. The double quote, the backslash, the
line feed and the tab are written as a backslash and a second character; every
other character stands for itself. Reading is more lenient than writing: a line
feed may stand for itself, and a backslash that begins no escape is an ordinary
character.

> `encode`: the characters between the quotes.
> `scanBody`: finds the closing quote, copying what stands between escapes as one chunk.
-/

namespace Sexpr.Quoted

/-- What follows the backslash when the character is written. -/
def escape? (c : Char) : Option Char :=
  match c with
  | '\x22' => some '\x22'
  | '\\' => some '\\'
  | '\n' => some 'n'
  | '\t' => some 't'
  | _ => none

/-- The character that a backslash and this one stand for. -/
def unescape? (c : Char) : Option Char :=
  match c with
  | '\x22' => some '\x22'
  | '\\' => some '\\'
  | 'n' => some '\n'
  | 't' => some '\t'
  | _ => none

/-- Reading an escape gives back the character it was written for. -/
theorem unescape?_of_escape? {c e : Char} (h : escape? c = some e) : unescape? e = some c := by
  unfold escape? at h
  split at h <;> cases h <;> rfl

/-- The characters as they are written between the quotes. -/
def encode (cs : List Char) : List Char :=
  cs.flatMap fun c =>
    match escape? c with
    | some e => ['\\', e]
    | none => [c]

/-- A whole literal. -/
def written (text : String) : List Char :=
  '\x22' :: (encode text.toList ++ ['\x22'])

/-- The text with the chunk that begins at the byte `start` and ends at the cursor. There always is
one, as the cursor comes from there. -/
def copyChunk (copied : String) (start : Nat) (c : Cursor) : String :=
  copied ++ (c.since? start).getD ""

/-- Reads on behind an opening quote, up to the closing one or the end of the text, and returns
what the characters stand for.

`copied` is the text up to the last escape. What follows it, from the byte `start` on, is copied
as one chunk when the next escape or the end is reached. A backslash before any other character
belongs to the chunk, and the character after it is looked at again, as it may be the first of an
escape or the closing quote. The characters to read are those ahead of the cursor. -/
def scanBody (copied : String) (start : Nat) (c : Cursor) : List Char → String × Cursor
  | [] => (copyChunk copied start c, c)
  | '\x22' :: _ => (copyChunk copied start c, c)
  | '\\' :: e :: rest =>
    match unescape? e with
    | some x =>
      let behind := c.advanceBy 2
      scanBody ((copyChunk copied start c).push x) behind.position behind rest
    | none => scanBody copied start c.advance (e :: rest)
  | _ :: rest => scanBody copied start c.advance rest

end Sexpr.Quoted
