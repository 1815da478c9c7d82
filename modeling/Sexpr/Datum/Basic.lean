import Sexpr.Number.Basic

/-!
# Data

What the reader produces: the empty list, atoms, and pairs. A list is a chain of
pairs through their second parts, and what the chain ends in makes it a list (the
empty list) or a dotted one (anything else). `items` and `tail` take a chain
apart, `ofItems` puts it together.

> `ofItems_items`: a datum is its items chained onto its tail.
> `items_ofItems`, `tail_ofItems`: the way back.
-/

namespace Sexpr

/-- A datum without parts. Symbols are equal when their names are. -/
inductive Atom where
  | bool (b : Bool)
  | string (text : String)
  | symbol (name : String)
  | number (n : Number)

/-- Equality of atoms, never across kinds. -/
def Atom.same : Atom → Atom → Bool
  | bool a, bool b => a == b
  | string s, string t => s == t
  | symbol s, symbol t => s == t
  | number m, number n => m == n
  | _, _ => false

instance : BEq Atom := ⟨Atom.same⟩

/-- A tree of pairs with atoms and empty lists as its leaves. -/
inductive Datum where
  | nil
  | atom (a : Atom)
  | pair (first rest : Datum)

namespace Datum

/-- The symbol of this name. -/
def symbol (name : String) : Datum :=
  atom (.symbol name)

/-- The number as a datum. -/
def number (n : Number) : Datum :=
  atom (.number n)

/-- Equality of data. Along a chain it goes on only as long as the items agree. -/
def same : Datum → Datum → Bool
  | nil, nil => true
  | atom a, atom b => a == b
  | pair a r, pair b s => if a.same b then r.same s else false
  | _, _ => false

instance : BEq Datum := ⟨same⟩

/-! ## Chains -/

/-- The first parts of the pairs of the chain. -/
def items : Datum → List Datum
  | pair first rest => first :: rest.items
  | _ => []

/-- What the chain ends in; the datum itself if it is no pair. -/
def tail : Datum → Datum
  | pair _ rest => rest.tail
  | d => d

/-- Whether the chain ends in the empty list. -/
def isList (d : Datum) : Bool :=
  match d.tail with
  | nil => true
  | _ => false

/-- The items chained onto a tail. -/
def ofItems (items : List Datum) (tail : Datum) : Datum :=
  items.foldr pair tail

/-- The list of these items. -/
def list (items : List Datum) : Datum :=
  ofItems items nil

@[simp] theorem ofItems_nil (t : Datum) : ofItems [] t = t := rfl

@[simp] theorem ofItems_cons (d : Datum) (ds : List Datum) (t : Datum) :
    ofItems (d :: ds) t = pair d (ofItems ds t) := rfl

/-- A datum is the chain of its items with its tail at the end. -/
theorem ofItems_items (d : Datum) : ofItems d.items d.tail = d := by
  induction d with
  | nil => rfl
  | atom => rfl
  | pair first rest _ ih => rw [items, tail, ofItems_cons, ih]

/-- The items of the chain, and behind them those that the tail has. -/
theorem items_ofItems (ds : List Datum) (t : Datum) : (ofItems ds t).items = ds ++ t.items := by
  induction ds with
  | nil => rfl
  | cons d ds ih => rw [ofItems_cons, items, ih, List.cons_append]

/-- The end of the chain is the end of what it was built on. -/
theorem tail_ofItems (ds : List Datum) (t : Datum) : (ofItems ds t).tail = t.tail := by
  induction ds with
  | nil => rfl
  | cons d ds ih => rw [ofItems_cons, tail, ih]

end Datum

end Sexpr
