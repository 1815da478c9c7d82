import Sexpr.Datum.Basic

/-!
# Copying a datum

A chain is walked along from its first pair, item by item, and built from its last one. A datum is
copied by doing both: the copies of its items are chained onto a copy of its tail. So the depth of
the recursion is that of the nesting, however long the chains are.

> `next?`: one step of a walk along a chain.
> `copyWith`: the copy, given how atoms are copied.
-/

namespace Sexpr.Datum

/-- The item that comes next along the chain, and what is left of it. -/
def next? : Datum → Option (Datum × Datum)
  | pair first rest => some (first, rest)
  | _ => none

/-- Items are smaller than the datum, so copying them comes to an end. -/
theorem sizeOf_lt_of_mem_items {d item : Datum} (h : item ∈ d.items) : sizeOf item < sizeOf d := by
  induction d with
  | nil => exact absurd h List.not_mem_nil
  | atom a => exact absurd h List.not_mem_nil
  | pair first rest _ ih =>
    rw [pair.sizeOf_spec]
    rcases List.mem_cons.mp h with rfl | h
    · omega
    · have hrest := ih h
      omega

/-- The tail is no larger than the datum. -/
theorem sizeOf_tail_le (d : Datum) : sizeOf d.tail ≤ sizeOf d := by
  induction d with
  | nil => exact Nat.le_refl _
  | atom a => exact Nat.le_refl _
  | pair first rest _ ih =>
    rw [tail, pair.sizeOf_spec]
    omega

/-- The copy of a datum, with copies of its atoms. -/
def copyWith (copyAtom : Atom → Atom) : Datum → Datum
  | nil => nil
  | atom a => atom (copyAtom a)
  | pair first rest =>
    ofItems ((pair first rest).items.attach.map fun item => copyWith copyAtom item.1)
      (copyWith copyAtom (pair first rest).tail)
termination_by d => sizeOf d
decreasing_by
  · exact sizeOf_lt_of_mem_items item.2
  · have hle := sizeOf_tail_le rest
    rw [tail, pair.sizeOf_spec]
    omega

/-- The copy of a datum. The contents of an atom are kept bit by bit. -/
def copy (d : Datum) : Datum :=
  d.copyWith id

end Sexpr.Datum
