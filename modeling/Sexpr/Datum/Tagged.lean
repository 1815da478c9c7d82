import Sexpr.Datum.Basic

/-!
# The tagged form of a datum

A datum that spells out another one: every node becomes a symbol or a list headed
by a symbol that names its kind, and the names of symbols and the contents of
strings become the codes of their characters. Written out, it tells apart what
the written form alone does not, such as a string from a symbol or the empty list
from a symbol of that spelling.
-/

namespace Sexpr

/-- A list headed by a symbol. -/
def Datum.headed (name : String) (items : List Datum) : Datum :=
  .list (.symbol name :: items)

/-- The codes of the characters. -/
def Datum.codes (text : String) : List Datum :=
  text.toList.map fun c => .number (.integer c.toNat)

/-- The tagged form of a number: its kind and its parts. -/
def Number.tagged : Number → Datum
  | integer n => .headed "integer" [.number (.integer n)]
  | real x => .headed "real" [.number (.real x)]
  | complex re im => .headed "complex" [.number (.real re), .number (.real im)]

/-- The tagged form of an atom. -/
def Atom.tagged : Atom → Datum
  | bool true => .symbol "true"
  | bool false => .symbol "false"
  | string text => .headed "string" (Datum.codes text)
  | symbol name => .headed "symbol" (Datum.codes name)
  | number n => n.tagged

namespace Datum

mutual

/-- The tagged form of a datum. -/
def tagged : Datum → Datum
  | nil => symbol "nil"
  | atom a => a.tagged
  | pair first rest =>
    pair (symbol (if rest.isList then "list" else "improper-list"))
      (pair first.tagged rest.restTagged)

/-- The tagged items of a chain, a tail other than the empty list as the last. -/
def restTagged : Datum → Datum
  | nil => nil
  | atom a => pair a.tagged nil
  | pair first rest => pair first.tagged rest.restTagged

end

end Datum

end Sexpr
