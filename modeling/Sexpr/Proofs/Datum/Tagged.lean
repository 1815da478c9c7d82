import Sexpr.Datum.Tagged
import Sexpr.Proofs.Reader.Produced
import Sexpr.Proofs.Reader.Roundtrip

/-!
# Taking tags off

The tagged form says of every node what kind it is, and nothing of the datum is lost in it: a
decoder gives the datum back. Its own symbols are a fixed few that read back wherever they
stand, and the names and texts of the datum are in it as numbers only. So it reads back even
where the written form of the datum does not, with at most one level more than the datum has.

> `untagged?_tagged`: the decoder undoes the tags.
> `writable_tagged`, `nest_tagged`: the tagged form is made to be read.
> `tagged_identifies`: the written tagged form stands for one datum only.
-/

namespace Sexpr

/-! ## The decoder -/

namespace Datum

/-- The character that a code stands for. -/
def char? : Datum → Option Char
  | atom (.number (.integer n)) => some (Char.ofNat n.toNat)
  | _ => none

/-- The text that a list of codes spells out. -/
def text? (codes : List Datum) : Option String :=
  (codes.mapM char?).map String.ofList

end Datum

/-- The number of this kind that has these parts. -/
def Number.untagged? : String → List Datum → Option Number
  | "integer", [.atom (.number (.integer n))] => some (.integer n)
  | "real", [.atom (.number (.real x))] => some (.real x)
  | "complex", [.atom (.number (.real re)), .atom (.number (.real im))] => some (.complex re im)
  | _, _ => none

/-- The atom of this kind that these parts describe. -/
def Atom.untagged? (kind : String) (parts : List Datum) : Option Atom :=
  if kind = "string" then (Datum.text? parts).map .string
  else if kind = "symbol" then (Datum.text? parts).map .symbol
  else (Number.untagged? kind parts).map .number

/-- The node that is described by a name alone. -/
def Datum.named? (name : String) : Option Datum :=
  if name = "nil" then some .nil
  else if name = "true" then some (.atom (.bool true))
  else if name = "false" then some (.atom (.bool false))
  else none

/-- The items chained onto the last of them. -/
def Datum.ofDotted? (ds : List Datum) : Option Datum :=
  ds.getLast?.map (ofItems ds.dropLast)

namespace Datum

mutual

/-- The datum that a tagged form describes. -/
def untagged? : Datum → Option Datum
  | nil => none
  | atom (.symbol name) => named? name
  | atom _ => none
  | pair (atom (.symbol kind)) parts =>
    if kind = "list" then parts.untaggedItems?.map list
    else if kind = "improper-list" then parts.untaggedItems?.bind ofDotted?
    else (Atom.untagged? kind parts.items).map atom
  | pair _ _ => none

/-- The data that the items of a list describe. -/
def untaggedItems? : Datum → Option (List Datum)
  | nil => some []
  | atom _ => none
  | pair first rest => do
    let d ← first.untagged?
    let ds ← rest.untaggedItems?
    return d :: ds

end

end Datum

/-! ## Nothing is lost -/

namespace Datum

/-- A text is found again from its codes. -/
theorem text?_codes (text : String) : text? (codes text) = some text := by
  have hchars : ∀ cs : List Char,
      (cs.map fun c => number (.integer c.toNat)).mapM char? = some cs := by
    intro cs
    induction cs with
    | nil => rfl
    | cons c cs ih =>
      rw [List.map_cons, List.mapM_cons, ih]
      show some (Char.ofNat (c.toNat : Int).toNat :: cs) = some (c :: cs)
      rw [Int.toNat_natCast, Char.ofNat_toNat]
  rw [text?, codes, hchars, Option.map_some, String.ofList_toList]

/-- The parts behind a tag are items of the list that the tag heads. -/
theorem items_list (ds : List Datum) : (list ds).items = ds := by
  rw [list, items_ofItems]
  exact List.append_nil ds

/-- The word in front says what the parts are of. -/
theorem untagged?_headed (kind : String) (parts : List Datum) (hlist : kind ≠ "list")
    (hdotted : kind ≠ "improper-list") :
    (headed kind parts).untagged? = (Atom.untagged? kind parts).map atom := by
  show untagged? (pair (atom (.symbol kind)) (list parts)) = _
  rw [untagged?, if_neg hlist, if_neg hdotted, items_list]

/-- An atom is found again from its tagged form. -/
theorem untagged?_taggedAtom (a : Atom) : a.tagged.untagged? = some (atom a) := by
  cases a with
  | bool b =>
    cases b with
    | true => rfl
    | false => rfl
  | string text =>
    rw [Atom.tagged, untagged?_headed _ _ (by decide) (by decide), Atom.untagged?, if_pos rfl,
      text?_codes]
    rfl
  | symbol name =>
    rw [Atom.tagged, untagged?_headed _ _ (by decide) (by decide), Atom.untagged?,
      if_neg (by decide), if_pos rfl, text?_codes]
    rfl
  | number n =>
    cases n with
    | integer n => rfl
    | real x => rfl
    | complex re im => rfl

/-- What the tagged items of a chain describe: its items, and its tail if it is dotted. -/
def parts (d : Datum) : List Datum :=
  d.items ++ if d.isList then [] else [d.tail]

/-- The chain is put together again as its first tag says. -/
theorem untagged?_tagged_pair {first rest : Datum} (hfirst : first.tagged.untagged? = some first)
    (hrest : rest.restTagged.untaggedItems? = some rest.parts) :
    (pair first rest).tagged.untagged? = some (pair first rest) := by
  have hitems : (pair first.tagged rest.restTagged).untaggedItems?
      = some (first :: rest.parts) := by
    rw [untaggedItems?, hfirst, hrest]
    rfl
  rw [tagged]
  cases hlist : rest.isList with
  | true =>
    have htail : rest.tail = nil := by
      unfold isList at hlist
      split at hlist
      · next h => exact h
      · exact absurd hlist (by decide)
    rw [if_pos rfl, symbol, untagged?, if_pos rfl, hitems, parts, hlist, if_pos rfl,
      List.append_nil, Option.map_some, list, ofItems_cons, ← htail, ofItems_items]
  | false =>
    rw [if_neg (by decide), symbol, untagged?, if_neg (by decide), if_pos rfl, hitems, parts,
      hlist, if_neg (by decide), ← List.cons_append, Option.bind_some, ofDotted?,
      List.getLast?_concat, List.dropLast_concat, Option.map_some, ofItems_cons, ofItems_items]

/-- A datum is found again from its tagged form, and so are the parts of a chain. -/
theorem untagged?_tagged (d : Datum) :
    d.tagged.untagged? = some d ∧ d.restTagged.untaggedItems? = some d.parts := by
  induction d with
  | nil => exact ⟨rfl, rfl⟩
  | atom a =>
    have ha := untagged?_taggedAtom a
    refine ⟨ha, ?_⟩
    rw [restTagged, untaggedItems?, ha]
    rfl
  | pair first rest ihfirst ihrest =>
    refine ⟨untagged?_tagged_pair ihfirst.1 ihrest.2, ?_⟩
    rw [restTagged, untaggedItems?, ihfirst.1, ihrest.2]
    rfl

/-! ## Made to be read -/

theorem every_list {p : Atom → Prop} {ds : List Datum} (h : ∀ d ∈ ds, d.Every p) :
    (list ds).Every p := by
  induction ds with
  | nil => trivial
  | cons d ds ih =>
    exact ⟨h d List.mem_cons_self, ih fun e he => h e (List.mem_cons_of_mem d he)⟩

theorem itemsNest_list {n : Nat} {ds : List Datum} (h : ∀ d ∈ ds, d.nest ≤ n) :
    (list ds).itemsNest ≤ n := by
  induction ds with
  | nil => exact Nat.zero_le n
  | cons d ds ih =>
    exact Nat.max_le.mpr
      ⟨h d List.mem_cons_self, ih fun e he => h e (List.mem_cons_of_mem d he)⟩

/-- A tagged form reads back everywhere if its word and its parts do. -/
theorem writable_headed {kind : String} {parts : List Datum} (hkind : WritableName kind.toList)
    (hparts : ∀ d ∈ parts, d.Every Atom.Writable) : (headed kind parts).Every Atom.Writable := by
  refine every_list fun d hd => ?_
  rcases List.mem_cons.mp hd with rfl | hd
  · exact hkind
  · exact hparts d hd

theorem nest_headed {kind : String} {parts : List Datum} (hparts : ∀ d ∈ parts, d.nest = 0) :
    (headed kind parts).nest ≤ 1 := by
  have hitems : (list parts).itemsNest ≤ 0 := itemsNest_list fun d hd => (hparts d hd).le
  show 1 + max 0 (list parts).itemsNest ≤ 1
  omega

/-- A code is a number, so it can be written and takes no depth. -/
theorem exists_of_mem_codes {text : String} {d : Datum} (h : d ∈ codes text) :
    ∃ n : Int, d = number (.integer n) := by
  obtain ⟨c, _, rfl⟩ := List.mem_map.mp h
  exact ⟨c.toNat, rfl⟩

/-- The tagged form of an atom reads back everywhere, unless a number is not finite. -/
theorem writable_taggedAtom {a : Atom} (ha : a.IsFinite) : a.tagged.Every Atom.Writable := by
  have hcodes : ∀ (text : String), ∀ d ∈ codes text, d.Every Atom.Writable := by
    intro text d hd
    obtain ⟨n, rfl⟩ := exists_of_mem_codes hd
    trivial
  cases a with
  | bool b =>
    cases b with
    | true => exact (by decide : WritableName "true".toList)
    | false => exact (by decide : WritableName "false".toList)
  | string text => exact writable_headed (by decide) (hcodes text)
  | symbol name => exact writable_headed (by decide) (hcodes name)
  | number n =>
    cases n with
    | integer n => exact writable_headed (by decide) (by simp [number, Every, Atom.Writable])
    | real x =>
      refine writable_headed (by decide) fun d hd => ?_
      rw [List.mem_singleton.mp hd]
      exact ha
    | complex re im =>
      refine writable_headed (by decide) fun d hd => ?_
      rcases List.mem_cons.mp hd with rfl | hd
      · exact ha.1
      · rw [List.mem_singleton.mp hd]
        exact ha.2

/-- The tagged form of an atom is one list at most. -/
theorem nest_taggedAtom (a : Atom) : a.tagged.nest ≤ 1 := by
  have hcodes : ∀ (text : String), ∀ d ∈ codes text, d.nest = 0 := by
    intro text d hd
    obtain ⟨n, rfl⟩ := exists_of_mem_codes hd
    rfl
  cases a with
  | bool b => cases b <;> exact Nat.zero_le 1
  | string text => exact nest_headed (hcodes text)
  | symbol name => exact nest_headed (hcodes name)
  | number n =>
    cases n with
    | integer n => exact nest_headed (by simp [number, nest])
    | real x => exact nest_headed (by simp [number, nest])
    | complex re im => exact nest_headed (by simp [number, nest])

/-- All symbols of a tagged form read back wherever they stand. -/
theorem writable_tagged {d : Datum} (hd : d.Every Atom.IsFinite) :
    d.tagged.Every Atom.Writable ∧ d.restTagged.Every Atom.Writable := by
  induction d with
  | nil => exact ⟨(by decide : WritableName "nil".toList), trivial⟩
  | atom a => exact ⟨writable_taggedAtom hd, writable_taggedAtom hd, trivial⟩
  | pair first rest ihfirst ihrest =>
    have hitems := And.intro (ihfirst hd.1).1 (ihrest hd.2).2
    refine ⟨⟨?_, hitems⟩, hitems⟩
    cases rest.isList with
    | true => exact (by decide : WritableName "list".toList)
    | false => exact (by decide : WritableName "improper-list".toList)

/-- Tags take at most one level of depth, which is that of the atoms at the bottom. -/
theorem nest_tagged (d : Datum) :
    d.tagged.nest ≤ d.nest + 1 ∧ d.restTagged.itemsNest ≤ d.itemsNest + 1 := by
  induction d with
  | nil => exact ⟨Nat.zero_le 2, Nat.zero_le 1⟩
  | atom a =>
    exact ⟨nest_taggedAtom a, Nat.max_le.mpr ⟨nest_taggedAtom a, Nat.zero_le 1⟩⟩
  | pair first rest ihfirst ihrest =>
    have hfirst := ihfirst.1
    have hrest := ihrest.2
    refine ⟨?_, ?_⟩
    · show 1 + max 0 (max first.tagged.nest rest.restTagged.itemsNest)
        ≤ 1 + max first.nest rest.itemsNest + 1
      omega
    · show max first.tagged.nest rest.restTagged.itemsNest ≤ max first.nest rest.itemsNest + 1
      omega

/-! ## What is written -/

/-- The tagged form reads back, with one level more than the datum has. -/
theorem read_text_tagged {v : Datum} (hv : v.Every Atom.IsFinite) {name : String} {depth : Nat}
    (hdepth : v.nest < depth) : read ⟨name, depth⟩ v.tagged.text = .ok v.tagged := by
  obtain ⟨hread, hstray, _, _⟩ := readable_of_writable (writable_tagged hv).1
  exact read_text_of_readable hread hstray (Nat.le_trans (nest_tagged v).1 hdepth)

/-- Two data with the same written tagged form are the same. -/
theorem eq_of_text_tagged {v w : Datum} (hv : v.Every Atom.IsFinite) (hw : w.Every Atom.IsFinite)
    (h : v.tagged.text = w.tagged.text) : v = w := by
  have hreadv : read ⟨"", v.nest + w.nest + 1⟩ v.tagged.text = .ok v.tagged :=
    read_text_tagged hv (by omega)
  have hreadw : read ⟨"", v.nest + w.nest + 1⟩ w.tagged.text = .ok w.tagged :=
    read_text_tagged hw (by omega)
  rw [h, hreadw] at hreadv
  injection hreadv with htagged
  have huntag := (untagged?_tagged v).1
  rw [← htagged, (untagged?_tagged w).1] at huntag
  exact (Option.some.inj huntag).symm

/-- The written tagged form of a datum with finite numbers is read as the tagged form, which is
decoded as the datum, so it is the written tagged form of no other one. -/
theorem tagged_identifies (v : Datum) (hv : v.Every Atom.IsFinite) :
    (∀ (name : String) (depth : Nat), v.nest < depth →
      read ⟨name, depth⟩ v.tagged.text = .ok v.tagged) ∧
    v.tagged.untagged? = some v ∧
    ∀ w : Datum, w.Every Atom.IsFinite → v.tagged.text = w.tagged.text → v = w :=
  ⟨fun _ _ hdepth => read_text_tagged hv hdepth, (untagged?_tagged v).1,
    fun _ hw h => eq_of_text_tagged hv hw h⟩

/-- Behind a first item a nameless symbol and a number without an imaginary part, which do not
read back. -/
def unreadableSample (first : Datum) : Datum :=
  .pair first (.pair (.symbol "") (.number (.complex (-0.0) 0.0)))

/-- With the empty list as the first item, or a symbol of that name, the written form is the
same, and the written tagged form is not. -/
theorem tagged_identifies_sample :
    read ⟨"sample", 2⟩ (unreadableSample (.symbol "()")).tagged.text
      = .ok (unreadableSample (.symbol "()")).tagged ∧
    (unreadableSample (.symbol "()")).tagged.untagged?
      = some (unreadableSample (.symbol "()")) ∧
    (unreadableSample (.symbol "()")).tagged.text ≠ (unreadableSample .nil).tagged.text := by
  have hzero : (-0.0 : Float).isFinite = true ∧ (0.0 : Float).isFinite = true := by
    decide +kernel
  have hfin : (unreadableSample (.symbol "()")).Every Atom.IsFinite := ⟨trivial, trivial, hzero⟩
  have hnil : (unreadableSample .nil).Every Atom.IsFinite := ⟨trivial, trivial, hzero⟩
  obtain ⟨hread, huntag, hsame⟩ := tagged_identifies (unreadableSample (.symbol "()")) hfin
  refine ⟨hread "sample" 2 (by decide), huntag, fun htext => ?_⟩
  have heq := hsame (unreadableSample .nil) hnil htext
  injection heq with hfirst
  exact absurd hfirst (by simp [symbol])

end Datum

end Sexpr
