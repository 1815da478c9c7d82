import Sexpr.Datum.Basic

/-!
# Abbreviations

Four marks before a datum abbreviate a list of a symbol and that datum. The
reader expands them, and nothing after it can tell which way a list was written.
-/

namespace Sexpr

/-- The kinds of quotation that have a mark of their own. -/
inductive Abbreviation where
  | quote
  | quasiquote
  | unquote
  | unquoteSplicing
deriving DecidableEq

namespace Abbreviation

/-- The name of the symbol that stands for the mark. The splicing form goes by
`unquote-slicing` here, a letter short of the name usual in Scheme. -/
def name : Abbreviation → String
  | quote => "quote"
  | quasiquote => "quasiquote"
  | unquote => "unquote"
  | unquoteSplicing => "unquote-slicing"

/-- The list that a mark before the datum abbreviates. -/
def expand (a : Abbreviation) (d : Datum) : Datum :=
  .list [.symbol a.name, d]

end Abbreviation

end Sexpr
