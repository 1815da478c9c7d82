import Sexpr.Datum.Basic
import Sexpr.Number.Written
import Sexpr.Text.Quoted

/-!
# The written form of a datum

One line of text for every datum: the items of a chain with a blank between two
of them, and a tail other than the empty list after a dot. Abbreviations are
written out. Symbols are written as they are, so one that no reader produced may
not read back.
-/

namespace Sexpr

/-- The written form of an atom. -/
def Atom.written : Atom → List Char
  | bool true => "#t".toList
  | bool false => "#f".toList
  | string text => Quoted.written text
  | symbol name => name.toList
  | number n => n.written

namespace Datum

mutual

/-- The written form of a datum. -/
def written : Datum → List Char
  | nil => ['(', ')']
  | atom a => a.written
  | pair first rest => '(' :: (first.written ++ rest.restWritten)

/-- The written form of what follows an item, up to the closing parenthesis. -/
def restWritten : Datum → List Char
  | nil => [')']
  | atom a => ' ' :: '.' :: ' ' :: (a.written ++ [')'])
  | pair first rest => ' ' :: (first.written ++ rest.restWritten)

end

/-- The written form as a string. -/
def text (d : Datum) : String :=
  String.ofList d.written

instance : ToString Datum := ⟨text⟩

end Datum

end Sexpr
