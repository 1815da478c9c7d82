import Mathlib
import Sexpr.Proofs.Datum.Chains
import Sexpr.Proofs.Datum.Tagged

/-!
# Equality of data

Two data are compared along their chains in a loop, which calls the comparison itself for the items
only. What it finds is what the trees say: they have one shape, and the atoms in the same places are
of one kind and have equal contents, doubles as IEEE 754 compares them. That is symmetric and
transitive, and only a NaN keeps a datum from being equal to itself.

The tagged form is a datum too, and it tells apart exactly what equality tells apart. In it the two
zeros stay equal and a NaN differs from itself, as its numbers are those of the datum.

> `Matches`: two data of one shape with equal atoms.
> `beq_iff_matches`: what the comparison finds.
> `loops_same`, `eq_same_of_loops`: the loop comes to it, and to nothing else.
> `matches_iff`: data are equal if they are the same but for the signs of zeros, and have no NaN.
> `matches_tagged_iff`: the tagged forms match if the data do, and only then.
> `equality_laws`: all of this about `==`.
-/

namespace Sexpr

/-! ## What equality means -/

/-- Numbers of one kind with equal parts. -/
inductive Number.Matches : Number → Number → Prop
  | integer (n : Int) : Matches (integer n) (integer n)
  | real {x y : Float} (h : (x == y) = true) : Matches (real x) (real y)
  | complex {a b c d : Float} (hre : (a == c) = true) (him : (b == d) = true) :
      Matches (complex a b) (complex c d)

/-- Atoms of one kind with equal contents. -/
inductive Atom.Matches : Atom → Atom → Prop
  | bool (b : Bool) : Matches (bool b) (bool b)
  | string (text : String) : Matches (string text) (string text)
  | symbol (name : String) : Matches (symbol name) (symbol name)
  | number {m n : Number} (h : m.Matches n) : Matches (number m) (number n)

/-- Data of one shape with equal atoms in the same places. -/
inductive Datum.Matches : Datum → Datum → Prop
  | nil : Matches nil nil
  | atom {a b : Atom} (h : a.Matches b) : Matches (atom a) (atom b)
  | pair {a b r s : Datum} (hfirst : a.Matches b) (hrest : r.Matches s) :
      Matches (pair a r) (pair b s)

/-- No part of the number is a NaN. -/
def Number.HasNoNaN : Number → Prop
  | integer _ => True
  | real x => x.isNaN = false
  | complex re im => re.isNaN = false ∧ im.isNaN = false

/-- The atom is not a number that has a NaN for a part. -/
def Atom.HasNoNaN : Atom → Prop
  | number n => n.HasNoNaN
  | _ => True

/-! ## What the comparison finds -/

/-- The comparison of numbers decides whether they match. -/
theorem Number.beq_iff_matches (m n : Number) : (m == n) = true ↔ m.Matches n := by
  constructor
  · show m.same n = true → m.Matches n
    fun_cases Number.same m n with
    | case1 a b =>
      intro h
      obtain rfl : a = b := eq_of_beq h
      exact .integer a
    | case2 x y => exact .real
    | case3 a b c d =>
      intro h
      obtain ⟨hre, him⟩ := (Bool.and_eq_true _ _).mp h
      exact .complex hre him
    | case4 => exact fun h => absurd h Bool.false_ne_true
  · intro h
    cases h with
    | integer n => exact beq_self_eq_true n
    | real h => exact h
    | complex hre him => exact (Bool.and_eq_true _ _).mpr ⟨hre, him⟩

/-- The comparison of atoms decides whether they match. -/
theorem Atom.beq_iff_matches (a b : Atom) : (a == b) = true ↔ a.Matches b := by
  constructor
  · show a.same b = true → a.Matches b
    fun_cases Atom.same a b with
    | case1 a b =>
      intro h
      obtain rfl : a = b := eq_of_beq h
      exact .bool a
    | case2 s t =>
      intro h
      obtain rfl : s = t := eq_of_beq h
      exact .string s
    | case3 s t =>
      intro h
      obtain rfl : s = t := eq_of_beq h
      exact .symbol s
    | case4 m n => exact fun h => .number ((Number.beq_iff_matches m n).mp h)
    | case5 => exact fun h => absurd h Bool.false_ne_true
  · intro h
    cases h with
    | bool b => exact beq_self_eq_true b
    | string text => exact beq_self_eq_true text
    | symbol name => exact beq_self_eq_true name
    | number h => exact (Number.beq_iff_matches _ _).mpr h

namespace Datum

/-- The comparison along the chain decides whether the data match at every place. -/
theorem beq_iff_matches (v w : Datum) : (v == w) = true ↔ v.Matches w := by
  constructor
  · show v.same w = true → v.Matches w
    fun_induction same v w with
    | case1 => exact fun _ => .nil
    | case2 a b => exact fun h => .atom ((Atom.beq_iff_matches a b).mp h)
    | case3 a r b s hfirst ihfirst ihrest => exact fun h => .pair (ihfirst hfirst) (ihrest h)
    | case4 => exact fun h => absurd h Bool.false_ne_true
    | case5 => exact fun h => absurd h Bool.false_ne_true
  · intro h
    induction h with
    | nil => rfl
    | atom h => exact (Atom.beq_iff_matches _ _).mpr h
    | @pair a b r s _ _ ihfirst ihrest =>
      show (if a.same b then r.same s else false) = true
      rw [show a.same b = true from ihfirst, if_pos rfl]
      exact ihrest

end Datum

/-! ## The loop -/

/-- A loop of turns, each of which says how to go on or ends it, comes to this end. -/
inductive Loops {α β : Type} (turn : α → α ⊕ β) : α → β → Prop
  | last {a : α} {b : β} (h : turn a = .inr b) : Loops turn a b
  | again {a a' : α} {b : β} (h : turn a = .inl a') (hrest : Loops turn a' b) : Loops turn a b

/-- A loop has one end. -/
theorem Loops.unique {α β : Type} {turn : α → α ⊕ β} {a : α} {b b' : β} (h : Loops turn a b)
    (h' : Loops turn a b') : b = b' := by
  induction h with
  | last h =>
    cases h' with
    | last h' => exact Sum.inr.inj (h.symm.trans h')
    | again h' _ => exact absurd (h.symm.trans h') (by simp)
  | again h _ ih =>
    cases h' with
    | last h' => exact absurd (h.symm.trans h') (by simp)
    | again h' hrest =>
      obtain rfl := Sum.inl.inj (h.symm.trans h')
      exact ih hrest

namespace Datum

/-- One turn of the comparison of two chains, given how items are compared: what is left of the
chains, or the answer. -/
def compareTurn (items : Datum → Datum → Bool) : Datum × Datum → (Datum × Datum) ⊕ Bool
  | (pair a r, pair b s) => if items a b then .inl (r, s) else .inr false
  | (nil, nil) => .inr true
  | (atom a, atom b) => .inr (a == b)
  | _ => .inr false

/-- Two pairs with equal first items leave their rests to compare. -/
theorem compareTurn_pair (items : Datum → Datum → Bool) (a r b s : Datum) :
    compareTurn items (pair a r, pair b s) = if items a b then .inl (r, s) else .inr false := rfl

/-- What is not of one kind is different, whatever it holds. -/
theorem compareTurn_of_other (items : Datum → Datum → Bool) {v w : Datum}
    (hnil : v = nil → w = nil → False) (hatom : ∀ a b, v = atom a → w = atom b → False)
    (hpair : ∀ a r b s, v = pair a r → w = pair b s → False) :
    compareTurn items (v, w) = .inr false := by
  unfold compareTurn
  split
  · next a r b s heq =>
    obtain ⟨hv, hw⟩ := Prod.mk.inj heq
    exact (hpair a r b s hv hw).elim
  · next heq =>
    obtain ⟨hv, hw⟩ := Prod.mk.inj heq
    exact (hnil hv hw).elim
  · next a b heq =>
    obtain ⟨hv, hw⟩ := Prod.mk.inj heq
    exact (hatom a b hv hw).elim
  · rfl

/-- The loop that compares items by itself comes to what the comparison finds. -/
theorem loops_same (v w : Datum) : Loops (compareTurn same) (v, w) (v.same w) := by
  fun_induction same v w with
  | case1 => exact .last rfl
  | case2 a b => exact .last rfl
  | case3 a r b s h _ ih => exact .again (by rw [compareTurn_pair, if_pos h]) ih
  | case4 a r b s h _ => exact .last (by rw [compareTurn_pair, if_neg h])
  | case5 v w hnil hatom hpair => exact .last (compareTurn_of_other same hnil hatom hpair)

/-- No other function comes to what its own loop comes to. -/
theorem eq_same_of_loops {f : Datum → Datum → Bool}
    (hf : ∀ v w, Loops (compareTurn f) (v, w) (f v w)) : f = same := by
  funext v w
  fun_induction same v w with
  | case1 => exact (hf nil nil).unique (.last rfl)
  | case2 a b => exact (hf (atom a) (atom b)).unique (.last rfl)
  | case3 a r b s h hitem hrest =>
    refine (hf (pair a r) (pair b s)).unique (.again ?_ (hrest ▸ hf r s))
    rw [compareTurn_pair, hitem, if_pos h]
  | case4 a r b s h hitem =>
    refine (hf (pair a r) (pair b s)).unique (.last ?_)
    rw [compareTurn_pair, hitem, if_neg h]
  | case5 v w hnil hatom hpair =>
    exact (hf v w).unique (.last (compareTurn_of_other f hnil hatom hpair))

end Datum

/-! ## Symmetry, transitivity, and what is equal to itself -/

namespace Number.Matches

variable {l m n : Number}

theorem symm (h : m.Matches n) : n.Matches m := by
  cases h with
  | integer n => exact .integer n
  | real h => exact .real (BEq.symm h)
  | complex hre him => exact .complex (BEq.symm hre) (BEq.symm him)

theorem trans (h : l.Matches m) (h' : m.Matches n) : l.Matches n := by
  cases h with
  | integer n => exact h'
  | real h =>
    cases h' with
    | real h' => exact .real (BEq.trans h h')
  | complex hre him =>
    cases h' with
    | complex hre' him' => exact .complex (BEq.trans hre hre') (BEq.trans him him')

end Number.Matches

namespace Atom.Matches

variable {a b c : Atom}

theorem symm (h : a.Matches b) : b.Matches a := by
  cases h with
  | bool b => exact .bool b
  | string text => exact .string text
  | symbol name => exact .symbol name
  | number h => exact .number h.symm

theorem trans (h : a.Matches b) (h' : b.Matches c) : a.Matches c := by
  cases h with
  | bool b => exact h'
  | string text => exact h'
  | symbol name => exact h'
  | number h =>
    cases h' with
    | number h' => exact .number (h.trans h')

end Atom.Matches

namespace Datum.Matches

variable {u v w : Datum}

theorem symm (h : v.Matches w) : w.Matches v := by
  induction h with
  | nil => exact .nil
  | atom h => exact .atom h.symm
  | pair _ _ ihfirst ihrest => exact .pair ihfirst ihrest

theorem trans (h : u.Matches v) (h' : v.Matches w) : u.Matches w := by
  induction h generalizing w with
  | nil => exact h'
  | atom h =>
    cases h' with
    | atom h' => exact .atom (h.trans h')
  | pair _ _ ihfirst ihrest =>
    cases h' with
    | pair hfirst hrest => exact .pair (ihfirst hfirst) (ihrest hrest)

end Datum.Matches

instance : PartialEquivBEq Datum where
  symm {v w} h := (Datum.beq_iff_matches w v).mpr ((Datum.beq_iff_matches v w).mp h).symm
  trans {u v w} h h' := (Datum.beq_iff_matches u w).mpr
    (((Datum.beq_iff_matches u v).mp h).trans ((Datum.beq_iff_matches v w).mp h'))

/-! ## Equality up to the sign of a zero -/

/-- The double, without the sign if it is a zero. -/
def unsignedZero (x : Float) : Float :=
  if x == 0 then 0 else x

/-- Apart from NaN, doubles are equal if they are the same but for the sign of a zero. -/
theorem beq_iff_unsignedZero (x y : Float) :
    (x == y) = true ↔ unsignedZero x = unsignedZero y ∧ x.isNaN = false := by
  have hzero : ((0 : Float) == 0) = true := by decide
  unfold unsignedZero
  rw [Float.isNaN_eq_decide_eq_nan, decide_eq_false_iff_not]
  constructor
  · intro h
    obtain ⟨hx, _, hcases⟩ := Float.beq_iff_ne_nan_and_eq.mp h
    refine ⟨?_, hx⟩
    rcases hcases with rfl | ⟨rfl, rfl⟩ | ⟨rfl, rfl⟩
    · rfl
    · decide
    · decide
  · rintro ⟨h, hx⟩
    by_cases hx0 : (x == 0) = true
    · by_cases hy0 : (y == 0) = true
      · exact BEq.trans hx0 (BEq.symm hy0)
      · rw [if_pos hx0, if_neg hy0] at h
        exact absurd (h ▸ hzero) hy0
    · by_cases hy0 : (y == 0) = true
      · rw [if_neg hx0, if_pos hy0] at h
        exact absurd (h ▸ hzero) hx0
      · rw [if_neg hx0, if_neg hy0] at h
        rw [← h]
        exact Float.beq_self_iff.mpr hx

/-- The number, without the signs of zeros in it. -/
def Number.unsignedZeros : Number → Number
  | integer n => integer n
  | real x => real (unsignedZero x)
  | complex re im => complex (unsignedZero re) (unsignedZero im)

/-- Numbers match if they are the same but for the signs of zeros, and have no NaN. -/
theorem Number.matches_iff (m n : Number) :
    m.Matches n ↔ m.unsignedZeros = n.unsignedZeros ∧ m.HasNoNaN := by
  constructor
  · intro h
    cases h with
    | integer n => exact ⟨rfl, trivial⟩
    | real h =>
      obtain ⟨hsame, hnan⟩ := (beq_iff_unsignedZero _ _).mp h
      exact ⟨congrArg real hsame, hnan⟩
    | complex hre him =>
      obtain ⟨hre, hnan⟩ := (beq_iff_unsignedZero _ _).mp hre
      obtain ⟨him, hnan'⟩ := (beq_iff_unsignedZero _ _).mp him
      exact ⟨congrArg₂ complex hre him, hnan, hnan'⟩
  · rintro ⟨h, hnan⟩
    cases m with
    | integer a =>
      cases n with
      | integer b => exact integer.inj h ▸ .integer a
      | _ => exact absurd h nofun
    | real x =>
      cases n with
      | real y => exact .real ((beq_iff_unsignedZero x y).mpr ⟨real.inj h, hnan⟩)
      | _ => exact absurd h nofun
    | complex a b =>
      cases n with
      | complex c d =>
        obtain ⟨hre, him⟩ := complex.inj h
        exact .complex ((beq_iff_unsignedZero a c).mpr ⟨hre, hnan.1⟩)
          ((beq_iff_unsignedZero b d).mpr ⟨him, hnan.2⟩)
      | _ => exact absurd h nofun

/-- The atom, without the signs of zeros in it. -/
def Atom.unsignedZeros : Atom → Atom
  | number n => number n.unsignedZeros
  | a => a

/-- The same for atoms. -/
theorem Atom.matches_iff (a b : Atom) :
    a.Matches b ↔ a.unsignedZeros = b.unsignedZeros ∧ a.HasNoNaN := by
  constructor
  · intro h
    cases h with
    | bool b => exact ⟨rfl, trivial⟩
    | string text => exact ⟨rfl, trivial⟩
    | symbol name => exact ⟨rfl, trivial⟩
    | number h =>
      obtain ⟨hsame, hnan⟩ := (Number.matches_iff _ _).mp h
      exact ⟨congrArg number hsame, hnan⟩
  · rintro ⟨h, hnan⟩
    cases a with
    | bool x =>
      cases b with
      | bool y => exact bool.inj h ▸ .bool x
      | _ => exact absurd h nofun
    | string s =>
      cases b with
      | string t => exact string.inj h ▸ .string s
      | _ => exact absurd h nofun
    | symbol s =>
      cases b with
      | symbol t => exact symbol.inj h ▸ .symbol s
      | _ => exact absurd h nofun
    | number m =>
      cases b with
      | number n => exact .number ((Number.matches_iff m n).mpr ⟨number.inj h, hnan⟩)
      | _ => exact absurd h nofun

namespace Datum

/-- The datum, without the signs of zeros in it. -/
def unsignedZeros (d : Datum) : Datum :=
  d.mapAtoms Atom.unsignedZeros

/-- Data are equal if they are the same but for the signs of zeros, and have no NaN. -/
theorem matches_iff (v w : Datum) :
    v.Matches w ↔ v.unsignedZeros = w.unsignedZeros ∧ v.Every Atom.HasNoNaN := by
  constructor
  · intro h
    induction h with
    | nil => exact ⟨rfl, trivial⟩
    | atom h =>
      obtain ⟨hsame, hnan⟩ := (Atom.matches_iff _ _).mp h
      exact ⟨congrArg atom hsame, hnan⟩
    | pair _ _ ihfirst ihrest =>
      exact ⟨congrArg₂ pair ihfirst.1 ihrest.1, ihfirst.2, ihrest.2⟩
  · rintro ⟨h, hnan⟩
    induction v generalizing w with
    | nil =>
      cases w with
      | nil => exact .nil
      | _ => exact absurd h nofun
    | atom a =>
      cases w with
      | atom b => exact .atom ((Atom.matches_iff a b).mpr ⟨atom.inj h, hnan⟩)
      | _ => exact absurd h nofun
    | pair a r ihfirst ihrest =>
      cases w with
      | pair b s =>
        obtain ⟨hfirst, hrest⟩ := pair.inj h
        exact .pair (ihfirst b hfirst hnan.1) (ihrest s hrest hnan.2)
      | _ => exact absurd h nofun

/-- A datum is equal to itself unless there is a NaN in it. -/
theorem matches_self_iff (v : Datum) : v.Matches v ↔ v.Every Atom.HasNoNaN := by
  rw [matches_iff]
  exact and_iff_right rfl

/-! ## Tagged forms -/

/-- Different data have different tagged forms, since a datum is found again in its own. -/
theorem tagged_injective : Function.Injective tagged := by
  intro v w h
  have huntag := (untagged?_tagged v).1
  rw [h, (untagged?_tagged w).1] at huntag
  exact (Option.some.inj huntag).symm

/-- Mapping atoms does not change where the chain ends. -/
theorem isList_mapAtoms (f : Atom → Atom) (d : Datum) : (d.mapAtoms f).isList = d.isList := by
  induction d with
  | nil => rfl
  | atom a => rfl
  | pair first rest _ ih => exact ih

theorem unsignedZeros_headed (kind : String) (ds : List Datum) :
    (headed kind ds).unsignedZeros = headed kind (ds.map unsignedZeros) :=
  mapAtoms_ofItems Atom.unsignedZeros (symbol kind :: ds) nil

/-- The codes of a text are natural numbers, which have no signs. -/
theorem unsignedZeros_codes (text : String) :
    (codes text).map unsignedZeros = codes text := by
  rw [codes, List.map_map]
  rfl

/-- The tagged form of an atom holds the number of the atom as it is. -/
theorem tagged_unsignedZeros_atom (a : Atom) :
    a.unsignedZeros.tagged = a.tagged.unsignedZeros := by
  cases a with
  | bool b => cases b <;> rfl
  | string text =>
    rw [Atom.tagged, unsignedZeros_headed, unsignedZeros_codes]
    rfl
  | symbol name =>
    rw [Atom.tagged, unsignedZeros_headed, unsignedZeros_codes]
    rfl
  | number n => cases n <;> rfl

/-- The numbers of the tagged form are those of the datum. -/
theorem tagged_unsignedZeros (d : Datum) :
    d.unsignedZeros.tagged = d.tagged.unsignedZeros ∧
      d.unsignedZeros.restTagged = d.restTagged.unsignedZeros := by
  induction d with
  | nil => exact ⟨rfl, rfl⟩
  | atom a =>
    have ha := tagged_unsignedZeros_atom a
    exact ⟨ha, congrArg (pair · nil) ha⟩
  | pair first rest ihfirst ihrest =>
    have hitems := congrArg₂ pair ihfirst.1 ihrest.2
    refine ⟨?_, hitems⟩
    have hlist : rest.unsignedZeros.isList = rest.isList := isList_mapAtoms _ rest
    show pair (symbol (if rest.unsignedZeros.isList then _ else _)) _ = _
    rw [hlist]
    exact congrArg (pair _) hitems

/-- A list has a property of atoms if its items have it. -/
theorem every_list_iff {p : Atom → Prop} {ds : List Datum} :
    (list ds).Every p ↔ ∀ d ∈ ds, d.Every p := by
  induction ds with
  | nil => exact iff_of_true trivial (List.forall_mem_nil _)
  | cons d ds ih =>
    rw [List.forall_mem_cons, ← ih]
    exact Iff.rfl

theorem every_headed_iff {kind : String} {ds : List Datum} :
    (headed kind ds).Every Atom.HasNoNaN ↔ ∀ d ∈ ds, d.Every Atom.HasNoNaN := by
  rw [← every_list_iff]
  exact and_iff_right trivial

theorem every_codes (text : String) : ∀ d ∈ codes text, d.Every Atom.HasNoNaN := by
  intro d hd
  obtain ⟨n, rfl⟩ := exists_of_mem_codes hd
  trivial

/-- The tagged form of an atom is free of NaNs if the atom is. -/
theorem every_taggedAtom_iff (a : Atom) : a.tagged.Every Atom.HasNoNaN ↔ a.HasNoNaN := by
  cases a with
  | bool b => cases b <;> exact Iff.rfl
  | string text => exact iff_of_true (every_headed_iff.mpr (every_codes text)) trivial
  | symbol name => exact iff_of_true (every_headed_iff.mpr (every_codes name)) trivial
  | number n =>
    cases n with
    | integer n =>
      refine every_headed_iff.trans ?_
      rw [List.forall_mem_singleton]
      exact Iff.rfl
    | real x =>
      refine every_headed_iff.trans ?_
      rw [List.forall_mem_singleton]
      exact Iff.rfl
    | complex re im =>
      refine every_headed_iff.trans ?_
      rw [List.forall_mem_cons, List.forall_mem_singleton]
      exact Iff.rfl

/-- There is a NaN in the tagged form if there is one in the datum. -/
theorem every_tagged_iff (d : Datum) :
    (d.tagged.Every Atom.HasNoNaN ↔ d.Every Atom.HasNoNaN) ∧
      (d.restTagged.Every Atom.HasNoNaN ↔ d.Every Atom.HasNoNaN) := by
  induction d with
  | nil => exact ⟨iff_of_true trivial trivial, Iff.rfl⟩
  | atom a => exact ⟨every_taggedAtom_iff a, (and_iff_left trivial).trans (every_taggedAtom_iff a)⟩
  | pair first rest ihfirst ihrest =>
    have hitems := and_congr ihfirst.1 ihrest.2
    exact ⟨(and_iff_right trivial).trans hitems, hitems⟩

/-- Tagged forms match if the data do, and only then. -/
theorem matches_tagged_iff (v w : Datum) : v.tagged.Matches w.tagged ↔ v.Matches w := by
  rw [matches_iff, matches_iff, ← (tagged_unsignedZeros v).1, ← (tagged_unsignedZeros w).1,
    tagged_injective.eq_iff, (every_tagged_iff v).1]

/-! ## All of it -/

/-- The comparison is the function that its own loop comes to, and finds what `Matches` says. It is
symmetric and transitive, and holds between a datum and itself if there is no NaN in it. The tagged
forms of two data are equal if the data are, and only then. -/
theorem equality_laws :
    (∀ f : Datum → Datum → Bool,
      (∀ v w, Loops (compareTurn f) (v, w) (f v w)) ↔ ∀ v w, f v w = (v == w)) ∧
    (∀ v w : Datum, (v == w) = true ↔ v.Matches w) ∧
    (∀ v w : Datum, (v == w) = (w == v)) ∧
    (∀ u v w : Datum, (u == v) = true → (v == w) = true → (u == w) = true) ∧
    (∀ v : Datum, (v == v) = true ↔ v.Every Atom.HasNoNaN) ∧
    ∀ v w : Datum, (v.tagged == w.tagged) = (v == w) := by
  refine ⟨fun f => ⟨fun hf v w => ?_, fun hf => ?_⟩, beq_iff_matches, fun v w => BEq.comm,
    fun u v w => BEq.trans, fun v => ?_, fun v w => ?_⟩
  · rw [eq_same_of_loops hf]
    rfl
  · obtain rfl : f = same := funext fun v => funext fun w => hf v w
    exact loops_same
  · rw [beq_iff_matches, matches_self_iff]
  · rw [Bool.eq_iff_iff, beq_iff_matches, beq_iff_matches, matches_tagged_iff]

/-- A dotted list with this double in it and a nameless symbol. -/
def zeroSample (x : Float) : Datum :=
  .pair (.symbol "") (.number (.complex x 1.0))

/-- The signs of zeros make no difference, neither here nor in the tagged forms. -/
theorem equality_laws_sample :
    (zeroSample 0.0 == zeroSample (-0.0)) = true ∧ (zeroSample (-0.0) == zeroSample 0.0) = true ∧
    (zeroSample 0.0 == zeroSample 0.0) = true ∧
    ((zeroSample 0.0).tagged == (zeroSample (-0.0)).tagged) = true := by
  obtain ⟨_, _, hsymm, htrans, _, htagged⟩ := equality_laws
  have hzero : (zeroSample 0.0 == zeroSample (-0.0)) = true := by decide +kernel
  have hback : (zeroSample (-0.0) == zeroSample 0.0) = true := by rw [hsymm, hzero]
  exact ⟨hzero, hback, htrans _ _ _ hzero hback, by rw [htagged, hzero]⟩

end Datum

end Sexpr
