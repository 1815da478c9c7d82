import Sexpr.Proofs.Reader.Produced
import Sexpr.Proofs.Reader.Roundtrip

/-!
# Atoms on their own

Wherever an atom stands in what was read, it reads back from its written form alone. Data as a
whole need not, since behind a mark of quotation a symbol may begin like the end of a list; but
where nothing is before it even such a symbol is one. So this needs no more of an atom than what
its token is read from, and every atom comes from a token of its own or names a mark.

> `Atom.Lexed`: what is true of every atom that was read.
> `every_lexed_datum`: it is true of all atoms of a datum, by the forms that data have.
> `read_atoms`: atoms read back on their own, and what was read is written in one line.
-/

namespace Sexpr

/-- Symbols have names that are read as symbols, complex numbers an imaginary part. -/
def Atom.Lexed : Atom → Prop
  | symbol name => Lexeme name.toList
  | number n => n.IsProper
  | _ => True

/-- What the reader takes for a token has a name without line feeds. -/
theorem Atom.Lexed.named {a : Atom} (h : a.Lexed) : a.Named := by
  cases a with
  | symbol name => exact h
  | bool b => trivial
  | string text => trivial
  | number n => trivial

/-- With finite parts it reads back on its own. -/
theorem Atom.Lexed.readable {a : Atom} (h : a.Lexed) (hfin : a.IsFinite) : a.Readable := by
  cases a with
  | symbol name => exact h
  | bool b => trivial
  | string text => trivial
  | number n =>
    cases n with
    | integer n => trivial
    | real x => exact hfin
    | complex re im => exact ⟨hfin.1, hfin.2, h⟩

/-- A property of all atoms may be weakened. -/
theorem Datum.Every.mono {p q : Atom → Prop} {d : Datum} (h : d.Every p) (hpq : ∀ a, p a → q a) :
    d.Every q := by
  induction d with
  | nil => trivial
  | atom a => exact hpq a h
  | pair first rest ihfirst ihrest => exact ⟨ihfirst h.1, ihrest h.2⟩

/-- The names that marks stand for are such as the reader takes for symbols. -/
theorem Abbreviation.lexeme_name (a : Abbreviation) : Lexeme a.name.toList := by
  have hname : WritableName a.name.toList := by
    cases a with
    | quote => decide
    | quasiquote => decide
    | unquote => decide
    | unquoteSplicing => decide
  exact lexeme_of_writable hname

namespace Reader

variable {r : Reading} {item : Reader Datum}

/-- All atoms of what the step gives have been read from tokens. -/
def YieldsLexed (m : Reader Datum) (r : Reading) : Prop :=
  Yields (Datum.Every Atom.Lexed) m r

/-! ## Lists -/

/-- The items of a list come before what its tail is made of. -/
theorem every_foldl {p : Atom → Prop} {done : List Datum} (hdone : ∀ d ∈ done, d.Every p)
    {tail : Datum} (htail : tail.Every p) :
    (done.foldl (fun rest first => .pair first rest) tail).Every p := by
  induction done generalizing tail with
  | nil => exact htail
  | cons d done ih =>
    exact ih (fun e he => hdone e (List.mem_cons_of_mem d he))
      ⟨hdone d List.mem_cons_self, htail⟩

/-- A closed list has the atoms of its items and of its tail. -/
theorem every_lexed_closeList {done : List Datum} (hdone : ∀ d ∈ done, d.Every Atom.Lexed)
    {tail : Datum} (htail : tail.Every Atom.Lexed) : YieldsLexed (closeList done tail) r := by
  intro w r' hw
  rw [yields_closeList done tail w r' hw]
  exact every_foldl hdone htail

section

variable (hitem : ∀ r, YieldsLexed item r)
include hitem

/-- The tail behind a dot is a datum with atoms of its own. -/
theorem every_lexed_dottedTail {done : List Datum} (hdone : ∀ d ∈ done, d.Every Atom.Lexed) :
    YieldsLexed (dottedTail item done) r := by
  unfold dottedTail
  split
  · exact yields_throw
  · refine yields_bind (yields_any _) fun _ r₁ _ => ?_
    refine yields_bind (yields_any _) fun _ r₂ _ => ?_
    refine yields_bind (yields_any _) fun next r₃ _ => ?_
    split
    · exact yields_throw
    · refine yields_bind (hitem r₃) fun tail r₄ htail => ?_
      exact yields_bind (yields_any _) fun _ r₅ _ => every_lexed_closeList hdone htail

/-- Along the characters that bound the recursion: the atoms of every item are lexed. -/
theorem every_lexed_listRest (clock : List Char) {done : List Datum}
    (hdone : ∀ d ∈ done, d.Every Atom.Lexed) : YieldsLexed (listRest item clock done) r := by
  induction clock generalizing done r with
  | nil => exact every_lexed_closeList hdone trivial
  | cons x clock ih =>
    refine yields_bind (yields_any _) fun _ r₁ _ => ?_
    refine yields_bind (yields_any _) fun r₂ r₃ _ => ?_
    cases ListStep.ofAhead r₂.cursor.ahead with
    | close => exact every_lexed_closeList hdone trivial
    | dot => exact every_lexed_dottedTail hitem hdone
    | item =>
      refine yields_bind (hitem r₃) fun d r₄ hd => ih fun e he => ?_
      rcases List.mem_cons.mp he with rfl | he
      · exact hd
      · exact hdone e he

/-- A list has the atoms of its items. -/
theorem every_lexed_list : YieldsLexed (list item) r := by
  unfold list
  refine yields_bind (yields_any _) fun _ r₁ _ => ?_
  refine yields_bind (yields_any _) fun r₂ r₃ _ => ?_
  exact every_lexed_listRest hitem r₂.cursor.ahead fun d hd => absurd hd List.not_mem_nil

/-! ## Data of every form -/

/-- A mark adds its name to the atoms behind it. -/
theorem every_lexed_expanded (a : Abbreviation) :
    YieldsLexed (do return a.expand (← item)) r :=
  yields_bind (hitem r) fun _ _ hd => yields_pure ⟨a.lexeme_name, hd, trivial⟩

theorem every_lexed_abbreviated (a : Abbreviation) : YieldsLexed (abbreviated a item) r :=
  yields_bind (yields_any _) fun _ _ _ => every_lexed_expanded hitem a

theorem every_lexed_unquoted : YieldsLexed (unquoted item) r := by
  unfold unquoted
  refine yields_bind (yields_any _) fun _ r₁ _ => ?_
  refine yields_bind (yields_any _) fun splicing r₂ _ => ?_
  split
  · exact every_lexed_expanded hitem .unquoteSplicing
  · exact every_lexed_expanded hitem .unquote

end

/-- A number that is read has an imaginary part if it is complex. -/
theorem every_lexed_number : YieldsLexed (number Scan.numeral) r := by
  unfold number
  exact yields_bind (yields_scan Scan.yields_numeral) fun n r₁ hn => yields_pure hn

/-- A symbol that is read has a name that ends where the reader ended it. -/
theorem every_lexed_symbol {x : Char} {run : List Char} (h : r.cursor.ahead = x :: run)
    (hlexeme : Lexeme (x :: run.takeWhile continuesSymbol)) :
    YieldsLexed (atom Scan.symbolToken) r := by
  refine yields_atom (yields_symbolToken h) ?_
  rintro a rfl
  show Lexeme (String.ofList (x :: run.takeWhile continuesSymbol)).toList
  rw [String.toList_ofList]
  exact hlexeme

/-- A form with parts has lexed atoms if it does so for every reader of its parts. -/
theorem every_lexed_nested {inner : Option (Reader Datum)} {form : Reader Datum → Reader Datum}
    (hform : ∀ item ∈ inner, YieldsLexed (form item) r) : YieldsLexed (nested inner form) r := by
  unfold nested
  split
  · exact yields_throw
  · exact hform _ rfl

/-- Every form gives atoms that the reader took for tokens. -/
theorem every_lexed_form {inner : Option (Reader Datum)}
    (hinner : ∀ item ∈ inner, ∀ r, YieldsLexed item r) {x : Char} {run : List Char}
    (h : r.cursor.ahead = x :: run) (hblank : isBlank x = false) (hsemi : x ≠ ';') :
    YieldsLexed (form inner (.ofChar x)) r := by
  cases hclass : Opening.ofChar x with
  | hash =>
    refine yields_atom Scan.yields_hashToken ?_
    rintro a ⟨b, rfl⟩
    trivial
  | list => exact every_lexed_nested fun item hi => every_lexed_list (hinner item hi)
  | quote => exact every_lexed_nested fun item hi => every_lexed_abbreviated (hinner item hi) _
  | quasiquote =>
    exact every_lexed_nested fun item hi => every_lexed_abbreviated (hinner item hi) _
  | unquote => exact every_lexed_nested fun item hi => every_lexed_unquoted (hinner item hi)
  | sign =>
    refine yields_of_run (form_sign h) ?_
    split
    · exact every_lexed_number
    · next hdigit =>
      exact every_lexed_symbol h (lexeme_of_sign hblank hsemi hclass hdigit)
  | string =>
    refine yields_atom Scan.yields_stringToken ?_
    rintro a ⟨text, rfl⟩
    trivial
  | digit => exact every_lexed_number
  | other => exact every_lexed_symbol h (lexeme_of_ahead hblank hsemi (Or.inl hclass))

/-- Filler adds no atoms. -/
theorem every_lexed_datumWith {inner : Option (Reader Datum)}
    (hinner : ∀ item ∈ inner, ∀ r, YieldsLexed item r) (r : Reading) :
    YieldsLexed (datumWith inner) r := by
  intro d r' hd
  cases hahead : r.skipFiller.cursor.ahead with
  | nil =>
    rw [datumWith_nil hahead] at hd
    exact absurd hd (by simp)
  | cons x run =>
    obtain ⟨hblank, hsemi⟩ := solid_of_ahead hahead
    rw [datumWith_cons hahead] at hd
    exact every_lexed_form (r := r.skipFiller.noted x) hinner hahead hblank hsemi d r' hd

/-- By induction on the depth, all atoms of a datum are lexed. -/
theorem every_lexed_datum (depth : Nat) (r : Reading) : YieldsLexed (datum depth) r := by
  induction depth generalizing r with
  | zero => exact every_lexed_datumWith (fun item hi => absurd hi (by simp)) r
  | succ depth ih =>
    refine every_lexed_datumWith (fun item hi => ?_) r
    rw [← Option.some.inj hi]
    exact ih

end Reader

namespace Datum

variable {settings : Settings} {text : String} {v : Datum}

/-- All atoms of what was read are lexed. -/
theorem every_lexed_of_read (h : read settings text = .ok v) : v.Every Atom.Lexed := by
  obtain ⟨r, hr⟩ := read_eq_ok_iff.mp h
  obtain ⟨r₁, hd, _⟩ := Reader.datum_of_onlyDatum hr
  exact Reader.every_lexed_datum _ _ v r₁ hd

/-- An atom is a whole text of its own, and no list. -/
theorem read_written_atom {a : Atom} (ha : a.Readable) (settings : Settings) :
    read settings (String.ofList a.written) = .ok (.atom a) :=
  read_text_of_readable (d := .atom a) ha trivial (Nat.zero_le _)

/-- All atoms of what was read that are finite read back on their own, complex numbers among them
have an imaginary part, and the whole of it is written in one line. -/
theorem read_atoms (h : read settings text = .ok v) :
    v.Every (fun a => a.IsFinite →
      ∀ other : Settings, read other (String.ofList a.written) = .ok (.atom a)) ∧
    v.Every (fun a => ∀ re im, a = .number (.complex re im) → (im == 0.0) = false) ∧
    '\n' ∉ v.text.toList := by
  have hlexed := every_lexed_of_read h
  refine ⟨?_, ?_, ?_⟩
  · exact hlexed.mono fun a ha hfin => read_written_atom (ha.readable hfin)
  · refine hlexed.mono ?_
    rintro a ha re im rfl
    exact ha
  · have hline := (newline_not_mem (hlexed.mono fun a ha => ha.named)).1
    have htext : v.text.toList = v.written := String.toList_ofList
    rwa [htext]

/-- What `-1/2+i` denotes: the minus stands for both parts. -/
def negatedSample : Number :=
  .complex (-(floatOfInt 1 / floatOfInt 2)) (-floatOfInt 1)

/-- Behind a quote it is written as what reads back. -/
theorem read_atoms_sample :
    (∀ other : Settings,
      read other (String.ofList negatedSample.written) = .ok (.number negatedSample)) ∧
      (-floatOfInt 1 == 0.0) = false ∧
      '\n' ∉ (list [.symbol "quote", .number negatedSample]).text.toList := by
  have hread : read {} "'-1/2+i" = .ok (list [.symbol "quote", .number negatedSample]) := by
    rfl
  have hfin : (Atom.number negatedSample).IsFinite := ⟨by decide +kernel, by decide +kernel⟩
  obtain ⟨⟨_, hnumber, _⟩, ⟨_, himaginary, _⟩, hline⟩ := read_atoms hread
  exact ⟨hnumber hfin, himaginary _ _ rfl, hline⟩

end Datum

end Sexpr
