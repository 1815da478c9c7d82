import Sexpr.Datum.Basic
import Sexpr.Reader.Scan
import Sexpr.Text.Quoted

/-!
# Tokens

The atoms other than numbers: truth values, symbols and strings. Each reader here
starts at the first character of its token and stops right behind the last.
-/

namespace Sexpr

/-- The marks that end a symbol. A string, a comment or another mark does not:
its first character belongs to the symbol. -/
def isDelimiter (c : Char) : Bool :=
  c == '\x27' || c == ')' || c == '(' || c == ',' || c == '@'

/-- Whether a symbol goes on with this character. -/
def continuesSymbol (c : Char) : Bool :=
  !(isBlank c || isDelimiter c)

namespace Scan

/-- A token that begins with a number sign. -/
def hashToken : Scan Atom := do
  match ← peekAt 1 with
  | some 't' => advance 2; return .bool true
  | some 'f' => advance 2; return .bool false
  | some '(' => throw .vectorUnsupported
  | found => throw (.invalidHashToken found)

/-- A symbol. Its first character is taken as it is, even if it is one that would
end a symbol. -/
def symbolToken : Scan Atom := do
  let first ← peek
  advance 1
  let rest ← takeWhile continuesSymbol
  return .symbol (String.ofList (first.toList ++ rest))

/-- What stands behind an opening quote, up to the closing one or the end of the text. -/
def stringBody : Scan String :=
  modifyGet fun c => Quoted.scanBody "" c.position c c.ahead

/-- A string. Without a closing quote the rest of the text is passed. -/
def stringToken : Scan Atom := do
  advance 1
  let text ← stringBody
  if ← accept '\x22' then return .string text else throw .unterminatedString

end Scan

end Sexpr
