import Sexpr.Datum.Copy
import Sexpr.Reader.Outcome

/-!
# Chains

A chain is walked along from left to right and built from right to left. The two undo each other:
what is built of some items on a tail is a chain of these items and whatever the tail is a chain of,
and building a chain anew of what a walk along it comes upon gives the same chain. So the copy of a
datum is the datum, with copies of the atoms in the places of the atoms. How atoms are copied is
left open, so this speaks also of what no comparison shows, such as the bits of a NaN.

> `walks_iff`: a walk comes upon the items and ends at the tail.
> `walks_iff_ofItems`: walking and building undo each other.
> `copyWith_eq_mapAtoms`, `copy_eq`: copies.
> `chain_laws`: all of this about items, tails and copies.
-/

namespace Sexpr.Datum

/-! ## Walking -/

/-- A walk from a datum along its chain comes upon these items and ends here. -/
inductive Walks : Datum → List Datum → Datum → Prop
  | stop {d : Datum} (h : d.next? = none) : Walks d [] d
  | step {d first rest t : Datum} {ds : List Datum} (h : d.next? = some (first, rest))
      (hrest : Walks rest ds t) : Walks d (first :: ds) t

/-- The walk comes upon the items and ends at the tail. -/
theorem walks_items (d : Datum) : d.Walks d.items d.tail := by
  induction d with
  | nil => exact .stop rfl
  | atom a => exact .stop rfl
  | pair first rest _ ih => exact .step rfl ih

/-- Only a pair goes on, with what it holds. -/
theorem next?_eq_some_iff {d first rest : Datum} :
    d.next? = some (first, rest) ↔ d = pair first rest := by
  cases d with
  | nil => simp [next?]
  | atom a => simp [next?]
  | pair a r => simp [next?]

theorem next?_eq_none_iff {d : Datum} : d.next? = none ↔ ∀ first rest, d ≠ pair first rest := by
  cases d with
  | nil => simp [next?]
  | atom a => simp [next?]
  | pair a r => simp [next?]

/-- What a walk came upon, chained again, is the datum it set out from. -/
theorem Walks.eq_ofItems {d t : Datum} {ds : List Datum} (h : d.Walks ds t) :
    d = ofItems ds t ∧ t.next? = none := by
  induction h with
  | stop h => exact ⟨rfl, h⟩
  | step h _ ih =>
    obtain ⟨rfl, ht⟩ := ih
    exact ⟨next?_eq_some_iff.mp h, ht⟩

/-- Where a walk ends there are no items, and the tail is all there is. -/
theorem items_of_next? {t : Datum} (h : t.next? = none) : t.items = [] ∧ t.tail = t := by
  cases t with
  | nil => exact ⟨rfl, rfl⟩
  | atom a => exact ⟨rfl, rfl⟩
  | pair first rest => exact absurd h (by simp [next?])

/-- A walk comes upon some items and a tail exactly along the chain that is built of them. -/
theorem walks_iff_ofItems {d t : Datum} {ds : List Datum} :
    d.Walks ds t ↔ d = ofItems ds t ∧ t.next? = none := by
  refine ⟨Walks.eq_ofItems, ?_⟩
  rintro ⟨rfl, ht⟩
  have hwalk := walks_items (ofItems ds t)
  rwa [items_ofItems, tail_ofItems, (items_of_next? ht).1, (items_of_next? ht).2,
    List.append_nil] at hwalk

/-- There is one walk from a datum. -/
theorem walks_iff {d t : Datum} {ds : List Datum} : d.Walks ds t ↔ ds = d.items ∧ t = d.tail := by
  constructor
  · intro h
    obtain ⟨rfl, ht⟩ := h.eq_ofItems
    rw [items_ofItems, tail_ofItems, (items_of_next? ht).1, (items_of_next? ht).2, List.append_nil]
    exact ⟨rfl, rfl⟩
  · rintro ⟨rfl, rfl⟩
    exact walks_items d

/-! ## Building -/

/-- Items in front do not change whether the chain ends in the empty list. -/
theorem isList_ofItems (ds : List Datum) (t : Datum) : (ofItems ds t).isList = t.isList := by
  rw [isList, isList, tail_ofItems]

theorem ofItems_append (ds es : List Datum) (t : Datum) :
    ofItems (ds ++ es) t = ofItems ds (ofItems es t) :=
  List.foldr_append

/-! ## Copying -/

/-- The datum with other atoms in the places of its atoms. -/
def mapAtoms (f : Atom → Atom) : Datum → Datum
  | nil => nil
  | atom a => atom (f a)
  | pair first rest => pair (first.mapAtoms f) (rest.mapAtoms f)

/-- Nothing is changed if no atom is. -/
theorem mapAtoms_id (d : Datum) : d.mapAtoms id = d := by
  induction d with
  | nil => rfl
  | atom a => rfl
  | pair first rest ihfirst ihrest => rw [mapAtoms, ihfirst, ihrest]

/-- Atoms are mapped item by item. -/
theorem mapAtoms_ofItems (f : Atom → Atom) (ds : List Datum) (t : Datum) :
    (ofItems ds t).mapAtoms f = ofItems (ds.map (mapAtoms f)) (t.mapAtoms f) := by
  induction ds with
  | nil => rfl
  | cons d ds ih => rw [ofItems_cons, mapAtoms, ih, List.map_cons, ofItems_cons]

/-- A copy has the same shape, and in every place the copy of the atom that is there. -/
theorem copyWith_eq_mapAtoms (copyAtom : Atom → Atom) (d : Datum) :
    d.copyWith copyAtom = d.mapAtoms copyAtom := by
  fun_induction copyWith copyAtom d with
  | case1 => rfl
  | case2 a => rfl
  | case3 first rest ihitem ihtail =>
    have hitems : ((pair first rest).items.attach.map fun item => item.1.copyWith copyAtom)
        = (pair first rest).items.map (mapAtoms copyAtom) := by
      rw [List.attach_map_val]
      exact List.map_congr_left fun item hitem => ihitem ⟨item, hitem⟩
    rw [hitems, ihtail, ← mapAtoms_ofItems, ofItems_items]

/-- The copy is the datum itself. -/
theorem copy_eq (d : Datum) : d.copy = d :=
  (copyWith_eq_mapAtoms id d).trans (mapAtoms_id d)

/-! ## Both ways -/

/-- What is chained onto a tail comes before the items of the tail and leaves what they end in. A
walk along a chain comes upon what the chain is built of, and of that it is built again, so a copy
is no other datum; however atoms are copied, the copies are where the atoms were. Items that are
chained onto a chain make one chain with it, so a list behind a dot is the rest of the list. -/
theorem chain_laws :
    (∀ (ds : List Datum) (t : Datum), (ofItems ds t).items = ds ++ t.items ∧
      (ofItems ds t).tail = t.tail ∧ (ofItems ds t).isList = t.isList) ∧
    (∀ d : Datum, (∀ first rest, d.tail ≠ pair first rest) ∧ ofItems d.items d.tail = d ∧
      (∀ ds t, d.Walks ds t ↔ ds = d.items ∧ t = d.tail) ∧
      (∀ ds t, d.Walks ds t ↔ d = ofItems ds t ∧ ∀ first rest, t ≠ pair first rest) ∧
      d.copy = d ∧ ∀ copyAtom, d.copyWith copyAtom = d.mapAtoms copyAtom) ∧
    (∀ (ds es : List Datum) (t : Datum), ofItems ds (ofItems es t) = ofItems (ds ++ es) t) ∧
    ∀ ds es : List Datum, ofItems ds (list es) = list (ds ++ es) := by
  refine ⟨fun ds t => ⟨items_ofItems ds t, tail_ofItems ds t, isList_ofItems ds t⟩, fun d => ?_,
    fun ds es t => (ofItems_append ds es t).symm, fun ds es => (ofItems_append ds es nil).symm⟩
  refine ⟨?_, ofItems_items d, fun ds t => walks_iff, fun ds t => ?_, copy_eq d,
    fun copyAtom => copyWith_eq_mapAtoms copyAtom d⟩
  · exact next?_eq_none_iff.mp (walks_items d).eq_ofItems.2
  · rw [walks_iff_ofItems, next?_eq_none_iff]

/-- The reader does not tell apart which way a list was written. -/
example : read ⟨"", 2⟩ "(a . (b c))" = read ⟨"", 2⟩ "(a b c)" := by cbv

end Sexpr.Datum
