import Sexpr.Text.Hidden

/-!
# Characters in messages

How a message or a log line shows a character, and how it shows the path of a
file. Some characters have a short form with a backslash, hidden ones are named
by their code in hexadecimal, the rest stand for themselves.
-/

namespace Sexpr

/-- The short form of a character that is never shown as it is. -/
def shortForm? (c : Char) : Option Char :=
  if c = '\x00' then some '0'
  else if c = '\t' then some 't'
  else if c = '\r' then some 'r'
  else if c = '\n' then some 'n'
  else if c = '\\' then some '\\'
  else none

/-- A character named by its code, without leading zeros. -/
def codeForm (c : Char) : String :=
  "\\u\x7b" ++ String.ofList (Nat.toDigits 16 c.toNat) ++ "\x7d"

/-- A character inside a delimiter that the text around it uses: `quotes` are the
characters that need a backslash because of that. -/
def shownInside (quotes : List Char) (c : Char) : String :=
  match shortForm? c with
  | some s => String.ofList ['\\', s]
  | none =>
    if quotes.contains c then String.ofList ['\\', c]
    else if isHidden c then codeForm c
    else String.singleton c

/-- A character as an error message shows it, between single quotes. Either kind of
quotation mark has a backslash. -/
def shownInMessage (c : Char) : String :=
  "'" ++ shownInside ['\x27', '\x22'] c ++ "'"

/-- A character as the log shows it: as in a message, but the double quote needs
no backslash there. -/
def shownInLog (c : Char) : String :=
  "'" ++ shownInside ['\x27'] c ++ "'"

/-- A path as messages about files show it, between double quotes. A single quote
needs no backslash there. -/
def shownPath (path : String) : String :=
  "\"" ++ String.join (path.toList.map (shownInside ['\x22'])) ++ "\""

end Sexpr
