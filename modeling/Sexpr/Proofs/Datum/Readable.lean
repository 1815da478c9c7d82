import Sexpr.Proofs.Reader.Tokens

/-!
# Data that can be written

Not every datum reads back from its written form. A symbol is written as it is, so its name
has to be one that the reader takes for a symbol, and where it stands matters: behind a dot
a closing parenthesis ends the list, and an item that begins with one, or with a single dot,
is not taken for an item. A double has to be finite, and a complex number must not have lost
its imaginary part.

> `Datum.Readable`: every atom is readable, and none is mistaken for the end of a list.
> `Datum.HasNoStray`: no item is mistaken for something else.
> `Datum.nest`: how deep lists are nested in each other.
> `Datum.written_start`, `Datum.newline_not_mem`: what written data begin with, and lack.
> `readable_of_writable`: whatever is writable is readable and has no strays.
-/

namespace Sexpr

/-! ## Readable atoms -/

/-- The names that are read as symbols where a datum may begin. -/
def Lexeme : List Char → Prop
  | [] => False
  | first :: more =>
    isBlank first = false ∧ first ≠ ';' ∧ (∀ x ∈ more, continuesSymbol x = true) ∧
      (Opening.ofChar first = .other ∨
        Opening.ofChar first = .sign ∧ ∀ x ∈ more.head?, x.isDigit = false)

/-- The atoms that read back, standing alone. -/
def Atom.Readable : Atom → Prop
  | bool _ => True
  | string _ => True
  | symbol name => Lexeme name.toList
  | number n => n.Readable

namespace Datum

/-- The atoms read back, and no tail is taken for the end of its list. -/
def Readable : Datum → Prop
  | nil => True
  | atom a => a.Readable
  | pair first rest => first.Readable ∧ rest.Readable ∧ rest.written.head? ≠ some ')'

/-- Where an item may stand the datum is taken for one. -/
def IsItem (d : Datum) : Prop :=
  Reader.ListStep.ofAhead d.written = .item

/-- Every item is taken for one. -/
def HasNoStray : Datum → Prop
  | nil => True
  | atom _ => True
  | pair first rest => first.IsItem ∧ first.HasNoStray ∧ rest.HasNoStray

mutual

/-- How deep lists are nested in each other. -/
def nest : Datum → Nat
  | nil => 1
  | atom _ => 0
  | pair first rest => 1 + max first.nest rest.itemsNest

/-- The same for the items of a chain. -/
def itemsNest : Datum → Nat
  | nil => 0
  | atom _ => 0
  | pair first rest => max first.nest rest.itemsNest

end

/-- Every atom has the property. -/
def Every (p : Atom → Prop) : Datum → Prop
  | nil => True
  | atom a => p a
  | pair first rest => first.Every p ∧ rest.Every p

end Datum

/-! ## How written data begin -/

/-- An atom that reads back is written with a first character that is no filler. -/
theorem Atom.written_start {a : Atom} (ha : a.Readable) :
    ∃ x run, a.written = x :: run ∧ isBlank x = false ∧ x ≠ ';' := by
  cases a with
  | bool b =>
    cases b with
    | true => exact ⟨'#', ['t'], rfl, by decide, by decide⟩
    | false => exact ⟨'#', ['f'], rfl, by decide, by decide⟩
  | string text => exact ⟨_, _, rfl, by decide, by decide⟩
  | symbol name =>
    cases hname : name.toList with
    | nil => rw [Atom.Readable, hname] at ha; exact ha.elim
    | cons x run =>
      rw [Atom.Readable, hname] at ha
      exact ⟨x, run, hname, ha.1, ha.2.1⟩
  | number n =>
    obtain ⟨d, run, hd, hwritten | hwritten⟩ := Scan.written_number_start ha
    · exact ⟨d, run, hwritten, isDigit_solid hd⟩
    · exact ⟨'-', d :: run, hwritten, by decide, by decide⟩

/-- The same for any datum, since lists begin with a parenthesis. -/
theorem Datum.written_start {d : Datum} (hd : d.Readable) :
    ∃ x run, d.written = x :: run ∧ isBlank x = false ∧ x ≠ ';' := by
  cases d with
  | nil => exact ⟨_, _, rfl, by decide, by decide⟩
  | atom a => exact a.written_start hd
  | pair first rest => exact ⟨_, _, rfl, by decide, by decide⟩

/-- What begins neither like the end of the list nor like a dot is an item. -/
theorem ofAhead_of_ne {x : Char} {run : List Char} (hclose : x ≠ ')') (hdot : x ≠ '.') :
    Reader.ListStep.ofAhead (x :: run) = .item := by
  simp [Reader.ListStep.ofAhead, hclose, hdot]

/-- A single dot begins the tail. -/
theorem ofAhead_dot_of_ne {run : List Char} (h : run.head? ≠ some '.') :
    Reader.ListStep.ofAhead ('.' :: run) = .dot := by
  cases run with
  | nil => rfl
  | cons x run =>
    have hx : x ≠ '.' := fun hx => h (by rw [hx]; rfl)
    simp [Reader.ListStep.ofAhead, hx]

/-- Only a symbol can begin like the end of a list or like a dot. -/
theorem Atom.symbol_or_start {a : Atom} (ha : a.Readable) :
    (∃ name, a = .symbol name) ∨ ∃ x run, a.written = x :: run ∧ x ≠ ')' ∧ x ≠ '.' := by
  cases a with
  | bool b =>
    cases b with
    | true => exact Or.inr ⟨'#', ['t'], rfl, by decide, by decide⟩
    | false => exact Or.inr ⟨'#', ['f'], rfl, by decide, by decide⟩
  | string text => exact Or.inr ⟨_, _, rfl, by decide, by decide⟩
  | symbol name => exact Or.inl ⟨name, rfl⟩
  | number n =>
    obtain ⟨d, run, hd, hwritten | hwritten⟩ := Scan.written_number_start ha
    · exact Or.inr ⟨d, run, hwritten, isDigit_ne hd (by decide), isDigit_ne hd (by decide)⟩
    · exact Or.inr ⟨'-', d :: run, hwritten, by decide, by decide⟩

/-! ## Names that read back wherever they stand -/

/-- The names of symbols that no reader takes for anything else, whether they stand alone,
in a list or behind a dot. -/
def WritableName : List Char → Prop
  | [] => False
  | first :: more =>
    isBlank first = false ∧ first.isDigit = false ∧
      first ∉ [';', '#', '(', ')', '\x27', '\x60', ',', '\x22'] ∧
      (first = '.' → more.head? = some '.') ∧
      (first = '+' ∨ first = '-' → ∀ x ∈ more.head?, x.isDigit = false) ∧
      ∀ x ∈ more, isBlank x = false ∧ x ∉ ['\x27', '(', ')', ',', '@']

-- The characters are looked through one by one: a decision for all characters that there are
-- would be found as well, and is never done.
instance : DecidablePred WritableName
  | [] => inferInstanceAs (Decidable False)
  | first :: more =>
    letI : Decidable (∀ x ∈ more.head?, x.isDigit = false) :=
      Option.decidableForallMem more.head?
    letI : Decidable (∀ x ∈ more, isBlank x = false ∧ x ∉ ['\x27', '(', ')', ',', '@']) :=
      List.decidableBAll _ more
    inferInstanceAs (Decidable (isBlank first = false ∧ first.isDigit = false ∧
      first ∉ [';', '#', '(', ')', '\x27', '\x60', ',', '\x22'] ∧
      (first = '.' → more.head? = some '.') ∧
      (first = '+' ∨ first = '-' → ∀ x ∈ more.head?, x.isDigit = false) ∧
      ∀ x ∈ more, isBlank x = false ∧ x ∉ ['\x27', '(', ')', ',', '@']))

/-- The atoms that read back wherever they stand. -/
def Atom.Writable : Atom → Prop
  | bool _ => True
  | string _ => True
  | symbol name => WritableName name.toList
  | number (.integer _) => True
  | number (.real x) => x.isFinite = true
  | number (.complex re im) => re.isFinite = true ∧ im.isFinite = true ∧ (im == 0.0) = false

/-- A name that reads back everywhere reads back where it stands alone. -/
theorem lexeme_of_writable {name : List Char} (h : WritableName name) : Lexeme name := by
  cases name with
  | nil => exact h
  | cons first more =>
    obtain ⟨hblank, hdigit, hmark, _, hsign, hmore⟩ := h
    simp only [List.mem_cons, List.not_mem_nil, or_false, not_or] at hmark hmore
    obtain ⟨hsemi, hhash, hopen, _, hquote, hquasi, hcomma, hstring⟩ := hmark
    refine ⟨hblank, hsemi, fun x hx => ?_, ?_⟩
    · obtain ⟨hxblank, h₁, h₂, h₃, h₄, h₅⟩ := hmore x hx
      simp [continuesSymbol, isDelimiter, hxblank, h₁, h₂, h₃, h₄, h₅]
    · by_cases hplus : first = '+' ∨ first = '-'
      · refine Or.inr ⟨?_, hsign hplus⟩
        rcases hplus with rfl | rfl
        · rfl
        · rfl
      · rw [not_or] at hplus
        obtain ⟨hplus, hminus⟩ := hplus
        refine Or.inl ?_
        simp [Opening.ofChar, hdigit]

namespace Datum

/-- Such an atom reads back, and a list takes it for an item. -/
theorem readable_atom_of_writable {a : Atom} (h : a.Writable) :
    a.Readable ∧ (atom a).IsItem ∧ a.written.head? ≠ some ')' := by
  have hread : a.Readable := by
    cases a with
    | bool b => trivial
    | string text => trivial
    | symbol name => exact lexeme_of_writable h
    | number n =>
      cases n with
      | integer n => trivial
      | real x => exact h
      | complex re im => exact h
  refine ⟨hread, ?_⟩
  obtain ⟨name, rfl⟩ | ⟨x, run, hrun, hclose, hdot⟩ := a.symbol_or_start hread
  · rw [IsItem, written, Atom.written]
    rw [Atom.Writable] at h
    cases hname : name.toList with
    | nil =>
      rw [hname] at h
      exact h.elim
    | cons first more =>
      rw [hname] at h
      obtain ⟨_, _, hmark, hdot, _, _⟩ := h
      have hclose : first ≠ ')' := by
        rintro rfl
        exact hmark (by decide)
      refine ⟨?_, fun hhead => hclose (Option.some.inj hhead)⟩
      by_cases hfirst : first = '.'
      · obtain ⟨run, hrun⟩ := List.head?_eq_some_iff.mp (hdot hfirst)
        rw [hfirst, hrun]
        rfl
      · exact ofAhead_of_ne hclose hfirst
  · rw [IsItem, written, hrun]
    exact ⟨ofAhead_of_ne hclose hdot, fun hhead => hclose (Option.some.inj hhead)⟩

/-- A datum whose atoms read back wherever they stand is readable and has no strays. -/
theorem readable_of_writable {d : Datum} (h : d.Every Atom.Writable) :
    d.Readable ∧ d.HasNoStray ∧ d.IsItem ∧ d.written.head? ≠ some ')' := by
  induction d with
  | nil => exact ⟨trivial, trivial, rfl, by decide⟩
  | atom a =>
    obtain ⟨hread, hitem, hclose⟩ := readable_atom_of_writable h
    exact ⟨hread, trivial, hitem, hclose⟩
  | pair first rest ihfirst ihrest =>
    obtain ⟨hfirst, hsfirst, hitem, _⟩ := ihfirst h.1
    obtain ⟨hrest, hsrest, _, hclose⟩ := ihrest h.2
    refine ⟨⟨hfirst, hrest, hclose⟩, ⟨hitem, hsfirst, hsrest⟩, ?_, ?_⟩
    · exact ofAhead_of_ne (by decide) (by decide)
    · rw [written, List.head?_cons]
      decide

end Datum

/-! ## No line feeds -/

theorem newline_not_mem_of_isDigit {cs : List Char} (h : ∀ x ∈ cs, x.isDigit = true) :
    '\n' ∉ cs :=
  fun hmem => absurd (h '\n' hmem) (by decide)

/-- The digits of a float are written without a line feed. -/
theorem newline_not_mem_magnitude (x : Float) : '\n' ∉ Number.magnitudeWritten x := by
  obtain ⟨hwhole, hfraction⟩ := Scan.isDigit_digits (Decimal.shortest x)
  unfold Number.magnitudeWritten
  split
  · decide
  · split
    · decide
    · rw [Decimal.written, List.mem_append, List.mem_cons]
      rintro (h | h | h)
      · exact newline_not_mem_of_isDigit hwhole h
      · exact absurd h (by decide)
      · exact newline_not_mem_of_isDigit hfraction h

theorem newline_not_mem_complex (re im : Float) : '\n' ∉ Number.complexWritten re im := by
  rw [Number.complexWritten, List.mem_append, List.mem_cons, List.mem_append, List.mem_singleton]
  rintro (h | h | h | h)
  · exact newline_not_mem_magnitude re h
  · split at h
    · exact absurd h (by decide)
    · exact absurd h (by decide)
  · exact newline_not_mem_magnitude im.abs h
  · exact absurd h (by decide)

theorem newline_not_mem_number (n : Number) : '\n' ∉ n.written := by
  cases n with
  | integer n =>
    have hdigits : '\n' ∉ Nat.toDigits 10 n.natAbs := newline_not_mem_of_isDigit fun x hx =>
      Nat.isDigit_of_mem_toDigits (by decide) (by decide) hx
    rw [Number.written_integer]
    split
    · exact List.not_mem_cons_of_ne_of_not_mem (by decide) hdigits
    · exact hdigits
  | real x =>
    rw [Number.written]
    unfold Number.realWritten
    split
    · decide
    · split
      · exact List.not_mem_cons_of_ne_of_not_mem (by decide) (newline_not_mem_magnitude (-x))
      · split
        · decide
        · exact newline_not_mem_magnitude x
  | complex re im =>
    rw [Number.written]
    split
    · exact List.not_mem_cons_of_ne_of_not_mem (by decide) (newline_not_mem_complex (-re) (-im))
    · exact newline_not_mem_complex re im

/-- Between quotes a line feed is written as an escape. -/
theorem newline_not_mem_encode (cs : List Char) : '\n' ∉ Quoted.encode cs := by
  intro h
  obtain ⟨c, _, hc⟩ := List.mem_flatMap.mp h
  cases hesc : Quoted.escape? c with
  | some e =>
    rw [hesc, List.mem_cons, List.mem_singleton] at hc
    rcases hc with hc | hc
    · exact absurd hc (by decide)
    · -- nothing is undone from a line feed, so no escape is written with one
      rw [← hc] at hesc
      exact absurd (Quoted.unescape?_of_escape? hesc) (by simp [Quoted.unescape?])
  | none =>
    rw [hesc, List.mem_singleton] at hc
    rw [← hc] at hesc
    exact absurd hesc (by decide)

theorem Lexeme.newline_not_mem {name : List Char} (h : Lexeme name) : '\n' ∉ name := by
  cases name with
  | nil => exact List.not_mem_nil
  | cons x run =>
    rw [List.mem_cons]
    rintro (rfl | hmem)
    · exact absurd h.1 (by decide)
    · exact absurd (h.2.2.1 '\n' hmem) (by decide)

/-- If the atom is a symbol, its name is read as one. -/
def Atom.Named : Atom → Prop
  | symbol name => Lexeme name.toList
  | _ => True

/-- The written form of an atom stays on its line if its name does. -/
theorem Atom.newline_not_mem_written {a : Atom} (ha : a.Named) : '\n' ∉ a.written := by
  cases a with
  | bool b =>
    cases b with
    | true => decide
    | false => decide
  | string text =>
    rw [Atom.written, Quoted.written, List.mem_cons, List.mem_append, List.mem_singleton]
    rintro (h | h | h)
    · exact absurd h (by decide)
    · exact newline_not_mem_encode _ h
    · exact absurd h (by decide)
  | symbol name => exact ha.newline_not_mem
  | number n => exact newline_not_mem_number n

namespace Datum

/-- In a datum that reads back every name is one that the reader takes for a token. -/
theorem Readable.named {d : Datum} (h : d.Readable) : d.Every Atom.Named := by
  induction d with
  | nil => trivial
  | atom a =>
    cases a with
    | symbol name => exact h
    | bool b => trivial
    | string text => trivial
    | number n => trivial
  | pair first rest ihfirst ihrest => exact ⟨ihfirst h.1, ihrest h.2.1⟩

/-- Whatever its numbers are, a datum is written in one line. -/
theorem newline_not_mem {d : Datum} (hd : d.Every Atom.Named) :
    '\n' ∉ d.written ∧ '\n' ∉ d.restWritten := by
  induction d with
  | nil => exact ⟨by decide, by decide⟩
  | atom a =>
    have ha := a.newline_not_mem_written hd
    refine ⟨ha, ?_⟩
    rw [restWritten, List.mem_cons, List.mem_cons, List.mem_cons, List.mem_append,
      List.mem_singleton]
    rintro (h | h | h | h | h)
    · exact absurd h (by decide)
    · exact absurd h (by decide)
    · exact absurd h (by decide)
    · exact ha h
    · exact absurd h (by decide)
  | pair first rest ihfirst ihrest =>
    have hfirst := (ihfirst hd.1).1
    have hrest := (ihrest hd.2).2
    refine ⟨?_, ?_⟩
    · rw [written, List.mem_cons, List.mem_append]
      rintro (h | h | h)
      · exact absurd h (by decide)
      · exact hfirst h
      · exact hrest h
    · rw [restWritten, List.mem_cons, List.mem_append]
      rintro (h | h | h)
      · exact absurd h (by decide)
      · exact hfirst h
      · exact hrest h

end Datum

end Sexpr
