import Sexpr.Datum.Abbreviation
import Sexpr.Datum.Written
import Sexpr.Reader.Token

/-!
# Ways to write a datum

The written form is one way among many. A list may be cut behind any of its items, with a dot
and the rest of the chain as a datum of its own; a list of one of four symbols and a datum may
be abbreviated to a mark and that datum; and there may be filler wherever a token ends. So a
text is made from a datum in two stages, and each of them leaves choices: what it is spelled
with, a list of tokens, and how these are laid out.

What keeps two tokens apart depends on the first of them. A symbol goes on until a character
ends it, a number until its grammar does; a parenthesis ends with itself.

> `Spells`: the tokens a datum may be spelled with, and the depth that reading them takes.
> `Filler`, `LastFiller`: what may stand in front of a token, and behind the last one.
> `Token.EndsBefore`: what may follow a token so that it ends there.
> `Layout`: the texts that a list of tokens may be laid out as.
-/

namespace Sexpr

/-- The mark of the abbreviation. -/
def Abbreviation.mark : Abbreviation → List Char
  | quote => ['\x27']
  | quasiquote => ['\x60']
  | unquote => [',']
  | unquoteSplicing => [',', '@']

/-! ## Spelling -/

/-- The smallest parts of a text that stand for something. -/
inductive Token where
  | opening
  | closing
  | dot
  | mark (a : Abbreviation)
  | atom (a : Atom)

/-- The token in characters. -/
def Token.written : Token → List Char
  | opening => ['(']
  | closing => [')']
  | dot => ['.']
  | mark a => a.mark
  | atom a => a.written

/-- What is spelled: a datum where one may begin, or what is left of a list behind one of its
items. -/
inductive Part where
  | whole
  | rest

/-- These tokens spell the part of a datum. Reading them takes this depth: each list and each
mark takes one level, and what stands behind a dot is inside the list. The lists that marks
abbreviate are spelled out here, so they do not depend on what the reader makes of a mark. -/
inductive Spells : Part → Datum → Nat → List Token → Prop where
  | nil : Spells .whole .nil 1 [.opening, .closing]
  | atom (a : Atom) : Spells .whole (.atom a) 0 [.atom a]
  | quote {d : Datum} {depth : Nat} {ts : List Token} (h : Spells .whole d depth ts) :
      Spells .whole (.list [.symbol "quote", d]) (depth + 1) (.mark .quote :: ts)
  | quasiquote {d : Datum} {depth : Nat} {ts : List Token} (h : Spells .whole d depth ts) :
      Spells .whole (.list [.symbol "quasiquote", d]) (depth + 1) (.mark .quasiquote :: ts)
  | unquote {d : Datum} {depth : Nat} {ts : List Token} (h : Spells .whole d depth ts) :
      Spells .whole (.list [.symbol "unquote", d]) (depth + 1) (.mark .unquote :: ts)
  | unquoteSplicing {d : Datum} {depth : Nat} {ts : List Token} (h : Spells .whole d depth ts) :
      Spells .whole (.list [.symbol "unquote-slicing", d]) (depth + 1)
        (.mark .unquoteSplicing :: ts)
  | pair {first rest : Datum} {m n : Nat} {ts us : List Token} (h : Spells .whole first m ts)
      (hrest : Spells .rest rest n us) :
      Spells .whole (.pair first rest) (max m n + 1) (.opening :: (ts ++ us))
  | close : Spells .rest .nil 0 [.closing]
  | dot {d : Datum} {depth : Nat} {ts : List Token} (h : Spells .whole d depth ts) :
      Spells .rest d depth (.dot :: (ts ++ [.closing]))
  | item {first rest : Datum} {m n : Nat} {ts us : List Token} (h : Spells .whole first m ts)
      (hrest : Spells .rest rest n us) :
      Spells .rest (.pair first rest) (max m n) (ts ++ us)

/-! ## Layout -/

/-- White space and comments, each of which a line feed ends. -/
inductive Filler : List Char → Prop where
  | nil : Filler []
  | blank {c : Char} {cs : List Char} (hc : isBlank c = true) (h : Filler cs) : Filler (c :: cs)
  | comment {comment cs : List Char} (hc : '\n' ∉ comment) (h : Filler cs) :
      Filler (';' :: (comment ++ '\n' :: cs))

/-- Filler at the end of a text, where the last comment need not be ended. -/
inductive LastFiller : List Char → Prop where
  | ended {cs : List Char} (h : Filler cs) : LastFiller cs
  | unended {cs comment : List Char} (h : Filler cs) (hc : '\n' ∉ comment) :
      LastFiller (cs ++ ';' :: comment)

/-- The number ends before this text. A point would go on with an integer, and so would a slash
or a sign with any number but a complex one, which its unit ends. -/
def Number.EndsBefore : Number → List Char → Prop
  | integer _, text => ∀ x ∈ text.head?, x.isDigit = false ∧ x ∉ ['.', '/', '+', '-']
  | real _, text => ∀ x ∈ text.head?, x.isDigit = false ∧ x ∉ ['/', '+', '-']
  | complex _ _, _ => True

/-- The atom ends before this text. Truth values and strings end with themselves. -/
def Atom.EndsBefore : Atom → List Char → Prop
  | bool _, _ => True
  | string _, _ => True
  | symbol _, text => ∀ x ∈ text.head?, continuesSymbol x = false
  | number n, text => n.EndsBefore text

/-- The token ends before this text. A second dot would make a symbol of the dot, and an at sign
another mark of the comma. -/
def Token.EndsBefore : Token → List Char → Prop
  | opening, _ => True
  | closing, _ => True
  | dot, text => text.head? ≠ some '.'
  | mark a, text => a = .unquote → text.head? ≠ some '@'
  | atom a, text => a.EndsBefore text

/-- The text consists of these tokens, with filler around them. -/
inductive Layout : List Token → List Char → Prop where
  | nil {text : List Char} (h : LastFiller text) : Layout [] text
  | cons {filler text : List Char} {t : Token} {ts : List Token} (hfiller : Filler filler)
      (hends : t.EndsBefore text) (h : Layout ts text) :
      Layout (t :: ts) (filler ++ (t.written ++ text))

end Sexpr
