import Sexpr.Proofs.Datum.Readable
import Sexpr.Proofs.Reader.Locality

/-!
# Reading what was written

A datum of readable atoms, with no item that is mistaken for something else, reads back from
its written form as it is: with every number of its kind and every zero with its sign. Only
depth can prevent that, and exactly if lists are nested deeper than the settings allow.

> `reads_atom`: an atom stops where it was written to stop.
> `readsBack`: the same for a datum and for the rest of a list, with the depth it takes.
> `read_text_of_readable`, `read_text_too_deep`: a whole text.
> `read_text_of_writable`: the same from conditions on the characters of symbols.
-/

namespace Sexpr

open Place

/-- A digit goes on with a symbol. -/
theorem isDigit_of_not_continues {x : Char} (h : continuesSymbol x = false) :
    x.isDigit = false := by
  rw [continuesSymbol, Bool.not_eq_false', Bool.or_eq_true] at h
  rcases h with hblank | hmark
  · exact isDigit_of_isBlank x hblank
  · simp only [isDelimiter, Bool.or_eq_true, beq_iff_eq] at hmark
    rcases hmark with (((rfl | rfl) | rfl) | rfl) | rfl
    all_goals rfl

namespace Reader

variable {r : Reading} {rest : List Char}

/-- Without filler in front, a datum is what its first character says. -/
theorem reads_datumWith {inner : Option (Reader Datum)} {d : Datum} {x : Char} {run : List Char}
    (h : r.cursor.ahead = x :: run) (hblank : isBlank x = false) (hsemi : x ≠ ';')
    (hform : ∀ r' : Reading, r'.cursor.ahead = x :: run →
      Reads (form inner (.ofChar x)) r' d rest) :
    Reads (datumWith inner) r d rest := by
  have hahead := ahead_skipFiller_of_solid h hblank hsemi
  obtain ⟨r', hr', hrest⟩ := hform (r.skipFiller.noted x) hahead
  exact ⟨r', (datumWith_cons hahead).trans hr', hrest⟩

/-- What a token reads as, it reads as a datum. -/
theorem reads_token {token : Scan Atom} {a : Atom} (h : Reads token r.cursor a rest) :
    Reads (atom token) r (.atom a) rest := by
  unfold atom
  exact reads_bind (reads_scan h) fun r₁ h₁ => reads_pure _ h₁

/-- The same for a number. -/
theorem reads_numberDatum {n : Number} (h : Reads Scan.numeral r.cursor n rest) :
    Reads (number Scan.numeral) r (.number n) rest := by
  unfold number
  exact reads_bind (reads_scan h) fun r₁ h₁ => reads_pure _ h₁

/-- A name is read as a symbol up to a character that does not go on with it. -/
theorem reads_symbolDatum {inner : Option (Reader Datum)} {name : String}
    (hname : Lexeme name.toList) (h : r.cursor.ahead = name.toList ++ rest)
    (hrest : ∀ x ∈ rest.head?, continuesSymbol x = false) :
    Reads (datumWith inner) r (.symbol name) rest := by
  cases hcs : name.toList with
  | nil =>
    rw [hcs] at hname
    exact hname.elim
  | cons x more =>
    rw [hcs] at hname
    rw [hcs, List.cons_append] at h
    obtain ⟨hblank, hsemi, hmore, hclass⟩ := hname
    have hsymbol : ∀ r' : Reading, r'.cursor.ahead = x :: (more ++ rest) →
        Reads (atom Scan.symbolToken) r' (.symbol name) rest := by
      intro r' h'
      have hreads := reads_token (Scan.reads_symbol h' hmore hrest)
      rwa [← hcs, String.ofList_toList] at hreads
    refine reads_datumWith h hblank hsemi fun r' h' => ?_
    -- a sign begins a number as well, and the character behind it decides
    rcases hclass with hother | ⟨hsign, hdigit⟩
    · rw [hother]
      exact hsymbol r' h'
    · have hnext : ¬ ((more ++ rest).head?.any Char.isDigit) = true := by
        rw [Option.any_eq_true]
        rintro ⟨y, hy, hd⟩
        have hno : y.isDigit = false := by
          cases more with
          | nil => exact isDigit_of_not_continues (hrest y hy)
          | cons z more => exact hdigit y hy
        exact absurd (hd.symm.trans hno) (by decide)
      obtain ⟨r'', hr'', hrest'⟩ := hsymbol r' h'
      refine ⟨r'', ?_, hrest'⟩
      rw [hsign, form_sign h', if_neg hnext]
      exact hr''

/-- A digit comes first, or behind a sign. -/
def StartsNumber (run : List Char) : Prop :=
  ∃ d more, d.isDigit = true ∧
    (run = d :: more ∨ ∃ mark, (mark = '-' ∨ mark = '+') ∧ run = mark :: d :: more)

/-- What starts like a number is read as one. -/
theorem reads_startsNumber {inner : Option (Reader Datum)} {n : Number} {run : List Char}
    (hstart : StartsNumber run) (h : r.cursor.ahead = run)
    (hnumeral : ∀ c : Cursor, c.ahead = run → Reads Scan.numeral c n rest) :
    Reads (datumWith inner) r (.number n) rest := by
  have hnumber : ∀ r' : Reading, r'.cursor.ahead = run →
      Reads (number Scan.numeral) r' (.number n) rest :=
    fun r' h' => reads_numberDatum (hnumeral r'.cursor h')
  obtain ⟨d, more, hd, rfl | ⟨mark, hmark, rfl⟩⟩ := hstart
  · obtain ⟨hblank, hsemi⟩ := isDigit_solid hd
    refine reads_datumWith h hblank hsemi fun r' h' => ?_
    rw [ofChar_of_isDigit hd]
    exact hnumber r' h'
  · have hsolid : isBlank mark = false ∧ mark ≠ ';' ∧ Opening.ofChar mark = .sign := by
      rcases hmark with rfl | rfl
      · exact ⟨by decide, by decide, rfl⟩
      · exact ⟨by decide, by decide, rfl⟩
    obtain ⟨hblank, hsemi, hsign⟩ := hsolid
    refine reads_datumWith h hblank hsemi fun r' h' => ?_
    obtain ⟨r'', hr'', hrest'⟩ := hnumber r' h'
    refine ⟨r'', ?_, hrest'⟩
    rw [hsign, form_sign h', if_pos (by rw [List.head?_cons, Option.any_some, hd])]
    exact hr''

/-- A number is read from its written form, up to where it ends. -/
theorem reads_numberWritten {inner : Option (Reader Datum)} {n : Number} (hn : n.Readable)
    (h : r.cursor.ahead = n.written ++ rest) (hrest : n.EndsBefore rest) :
    Reads (datumWith inner) r (.number n) rest := by
  refine reads_startsNumber ?_ h fun c hc => Scan.reads_number hn hc hrest
  obtain ⟨d, run, hd, hwritten | hwritten⟩ := Scan.written_number_start hn
  · exact ⟨d, run ++ rest, hd, Or.inl (by rw [hwritten, List.cons_append])⟩
  · exact ⟨d, run ++ rest, hd, Or.inr ⟨'-', Or.inl rfl, by rw [hwritten]; rfl⟩⟩

/-- An atom is read from its written form, up to where it ends. -/
theorem reads_atom {inner : Option (Reader Datum)} {a : Atom} (ha : a.Readable)
    (h : r.cursor.ahead = a.written ++ rest) (hrest : a.EndsBefore rest) :
    Reads (datumWith inner) r (.atom a) rest := by
  cases a with
  | bool b =>
    have hstart : ∃ run, (Atom.bool b).written = '#' :: run := by
      cases b with
      | true => exact ⟨['t'], rfl⟩
      | false => exact ⟨['f'], rfl⟩
    obtain ⟨run, hrun⟩ := hstart
    have h' := h
    rw [hrun, List.cons_append] at h'
    refine reads_datumWith h' (by decide) (by decide) fun r' hr' => reads_token ?_
    refine Scan.reads_bool b ?_
    rw [hr', hrun, List.cons_append]
  | string text =>
    refine reads_datumWith h (by decide) (by decide) fun r' hr' => reads_token ?_
    exact Scan.reads_string text hr'
  | symbol name => exact reads_symbolDatum ha h hrest
  | number n => exact reads_numberWritten ha h hrest

/-! ## Lists -/

/-- An atom is read at any depth. -/
theorem reads_datum_atom {depth : Nat} {a : Atom} (ha : a.Readable)
    (h : r.cursor.ahead = a.written ++ rest) (hrest : a.EndsBefore rest) :
    Reads (datum depth) r (.atom a) rest := by
  obtain ⟨inner, hinner⟩ := exists_datumWith depth
  rw [hinner]
  exact reads_atom ha h hrest

/-- The closing parenthesis chains the items onto the tail. -/
theorem reads_closeList (done : List Datum) (tail : Datum) (h : r.cursor.ahead = ')' :: rest) :
    Reads (closeList done tail) r (done.foldl (fun rest first => .pair first rest) tail) rest := by
  exact ⟨_, closeList_of_close done tail h, ahead_advanceBy_one h⟩

/-- Written data begin with no filler. -/
theorem ahead_skipFiller_written {d : Datum} {more : List Char} (hd : d.Readable)
    (h : r.cursor.ahead = d.written ++ more) : r.skipFiller.cursor.ahead = d.written ++ more := by
  obtain ⟨x, run, hrun, hblank, hsemi⟩ := d.written_start hd
  rw [hrun, List.cons_append] at h ⊢
  exact ahead_skipFiller_of_solid h hblank hsemi

theorem ahead_skipFiller_blank {run : List Char} (h : r.cursor.ahead = ' ' :: run) :
    r.skipFiller.cursor.ahead = dropFiller false run := by
  show r.cursor.skipFiller.ahead = _
  rw [Cursor.ahead_skipFiller, h, dropFiller_blank run (by decide)]

/-- The blank in front of an item, or of a tail, is filler. -/
theorem ahead_skipFiller_blank_written {d : Datum} {more : List Char} (hd : d.Readable)
    (h : r.cursor.ahead = ' ' :: (d.written ++ more)) :
    r.skipFiller.cursor.ahead = d.written ++ more := by
  obtain ⟨x, run, hrun, hblank, hsemi⟩ := d.written_start hd
  rw [ahead_skipFiller_blank h, hrun, List.cons_append]
  exact dropFiller_of_solid _ hblank hsemi

/-- Behind an item there is a blank or the end of the list. -/
theorem ends_restWritten (d : Datum) (more : List Char) : Ends (d.restWritten ++ more) := by
  intro x hx
  cases d with
  | nil => exact Or.inr (Option.some.inj hx).symm
  | atom a => exact Or.inl (by rw [← Option.some.inj hx]; decide)
  | pair first rest => exact Or.inl (by rw [← Option.some.inj hx]; decide)

/-- An item that is taken for one is read, and the list goes on behind it. -/
theorem restOf_written {depth : Nat} {done : List Datum} {first : Datum} {more : List Char}
    (hfirst : first.Readable) (hitem : first.IsItem)
    (h : r.skipFiller.cursor.ahead = first.written ++ more) :
    restOf (datum depth) done r
      = (datum depth >>= fun d => restOf (datum depth) (d :: done)) r.skipFiller := by
  refine restOf_item (shortens_datum depth) ?_
  obtain ⟨x, run, hrun, _⟩ := first.written_start hfirst
  rw [h, ofAhead_append (by rw [hrun]; exact List.cons_ne_nil x run)]
  · exact hitem
  · intro hdot
    rw [Datum.IsItem, hdot] at hitem
    exact absurd hitem (by decide)

/-- Behind a dot a datum is read that is not the end of the list. -/
theorem restOf_dotted {depth : Nat} {done : List Datum} (hdone : done ≠ [])
    (hdot : ListStep.ofAhead r.skipFiller.cursor.ahead = .dot)
    (hnext : (r.skipFiller.advanceBy 1).skipFiller.cursor.ahead.head? ≠ some ')') :
    restOf (datum depth) done r = (do
      let tail ← datum depth
      scan Scan.filler
      closeList done tail : Reader Datum) (r.skipFiller.advanceBy 1).skipFiller := by
  rw [restOf_dot hdot, dottedTail_run _ (List.isEmpty_eq_false_iff.mpr hdone), if_neg hnext]

/-- Where an atom is written as the tail of a list, it is read behind the dot. -/
theorem restOf_dotted_written (depth : Nat) {done : List Datum} {a : Atom} (ha : a.Readable)
    (hclose : a.written.head? ≠ some ')') (hdone : done ≠ [])
    (h : r.cursor.ahead = (Datum.atom a).restWritten ++ rest) :
    ∃ r₁ : Reading, r₁.sightings = r.sightings ∧ r₁.cursor.ahead = a.written ++ ')' :: rest ∧
      restOf (datum depth) done r = (do
        let tail ← datum depth
        scan Scan.filler
        closeList done tail : Reader Datum) r₁ := by
  have hahead : r.cursor.ahead = ' ' :: '.' :: ' ' :: (a.written ++ ')' :: rest) := by
    rw [h, Datum.restWritten, List.cons_append, List.cons_append, List.cons_append,
      List.append_assoc]
    rfl
  have hdot : r.skipFiller.cursor.ahead = '.' :: ' ' :: (a.written ++ ')' :: rest) := by
    rw [ahead_skipFiller_blank hahead, dropFiller_of_solid _ (by decide) (by decide)]
  have hbehind := ahead_advanceBy_one hdot
  have htail : (r.skipFiller.advanceBy 1).skipFiller.cursor.ahead = a.written ++ ')' :: rest :=
    ahead_skipFiller_blank_written (d := .atom a) ha hbehind
  obtain ⟨x, run, hrun, _⟩ := a.written_start ha
  have hstep : ListStep.ofAhead r.skipFiller.cursor.ahead = .dot := by rw [hdot]; rfl
  have hnext : (r.skipFiller.advanceBy 1).skipFiller.cursor.ahead.head? ≠ some ')' := by
    rw [htail, hrun, List.cons_append, List.head?_cons]
    rw [hrun, List.head?_cons] at hclose
    exact hclose
  exact ⟨(r.skipFiller.advanceBy 1).skipFiller, rfl, htail, restOf_dotted hdone hstep hnext⟩

theorem ends_nil : Ends [] :=
  fun _ hx => absurd hx (by simp)

/-- A closing parenthesis ends every atom. -/
theorem ends_close (rest : List Char) : Ends (')' :: rest) :=
  fun _ hx => Or.inr (Option.some.inj hx).symm

/-- The tail of a list that is written behind a dot. -/
theorem reads_dotted {depth : Nat} {done : List Datum} {a : Atom} (ha : a.Readable)
    (hclose : a.written.head? ≠ some ')') (hdone : done ≠ [])
    (h : r.cursor.ahead = (Datum.atom a).restWritten ++ rest) :
    Reads (restOf (datum depth) done) r
      (done.foldl (fun rest first => .pair first rest) (.atom a)) rest := by
  obtain ⟨r₁, _, htail, hrun⟩ := restOf_dotted_written depth ha hclose hdone h
  have hread : Reads (do
      let tail ← datum depth
      scan Scan.filler
      closeList done tail : Reader Datum) r₁
      (done.foldl (fun rest first => .pair first rest) (.atom a)) rest := by
    refine reads_bind (reads_datum_atom ha htail ((ends_close rest).endsBefore a)) fun r₂ h₂ => ?_
    have hskip : Reads (scan Scan.filler) r₂ () (')' :: rest) :=
      ⟨_, filler_run r₂, ahead_skipFiller_of_solid h₂ (by decide) (by decide)⟩
    exact reads_bind hskip fun r₃ h₃ => reads_closeList done (.atom a) h₃
  obtain ⟨r', hr', hrest⟩ := hread
  exact ⟨r', hrun.trans hr', hrest⟩

/-- One item and then the rest of the list. -/
theorem reads_item {depth : Nat} {done : List Datum} {first d w : Datum}
    (hfirst : first.Readable) (hitem : first.IsItem)
    (h : r.skipFiller.cursor.ahead = first.written ++ (d.restWritten ++ rest))
    (hread : Reads (datum depth) r.skipFiller first (d.restWritten ++ rest))
    (hmore : ∀ r₁ : Reading, r₁.cursor.ahead = d.restWritten ++ rest →
      Reads (restOf (datum depth) (first :: done)) r₁ w rest) :
    Reads (restOf (datum depth) done) r w rest := by
  obtain ⟨r', hr', hrest⟩ := reads_bind (f := fun d => restOf (datum depth) (d :: done)) hread hmore
  exact ⟨r', (restOf_written hfirst hitem h).trans hr', hrest⟩

/-- A datum reads back, as a datum and as the rest of a list, if there is the depth for it. -/
theorem readsBack {d : Datum} (hd : d.Readable) (hs : d.HasNoStray) :
    (∀ (depth : Nat) (r : Reading) (rest : List Char), d.nest ≤ depth →
      r.cursor.ahead = d.written ++ rest → Ends rest → Reads (datum depth) r d rest) ∧
    (∀ (depth : Nat) (done : List Datum) (r : Reading) (rest : List Char), d.itemsNest ≤ depth →
      done ≠ [] → d.written.head? ≠ some ')' → r.cursor.ahead = d.restWritten ++ rest →
      Reads (restOf (datum depth) done) r (done.foldl (fun rest first => .pair first rest) d)
        rest) := by
  -- by induction on the datum; what was read of the list so far is passed along
  induction d with
  | nil =>
    have hclose : ∀ (depth : Nat) (done : List Datum) (r : Reading) (rest : List Char),
        r.cursor.ahead = ')' :: rest → Reads (restOf (datum depth) done) r
          (done.foldl (fun rest first => .pair first rest) .nil) rest := by
      intro depth done r rest h
      have hskip := ahead_skipFiller_of_solid h (by decide) (by decide)
      obtain ⟨r', hr', hrest⟩ := reads_closeList done .nil hskip
      exact ⟨r', (restOf_close (by rw [hskip]; rfl)).trans hr', hrest⟩
    refine ⟨?_, fun depth done r rest _ _ _ h => hclose depth done r rest h⟩
    intro depth r rest hdepth h _
    obtain ⟨depth, rfl⟩ := Nat.exists_eq_add_of_le' hdepth
    have hopen : r.skipFiller.cursor.ahead = '(' :: ')' :: rest :=
      ahead_skipFiller_of_solid h (by decide) (by decide)
    obtain ⟨r₁, hahead, heq⟩ := datum_open depth hopen
    obtain ⟨r', hr', hrest⟩ := hclose depth [] r₁ rest hahead
    exact ⟨r', heq.trans hr', hrest⟩
  | atom a =>
    refine ⟨fun depth r rest _ h hrest => reads_datum_atom hd h (hrest.endsBefore a), ?_⟩
    exact fun depth done r rest _ hdone hclose h => reads_dotted hd hclose hdone h
  | pair first rest ihfirst ihrest =>
    obtain ⟨hfirst, hrest, hclose⟩ := hd
    obtain ⟨hitem, hsfirst, hsrest⟩ := hs
    -- the items are read alike behind the parenthesis and behind another item
    have hrun : ∀ (depth : Nat) (done : List Datum) (r : Reading) (more : List Char),
        max first.nest rest.itemsNest ≤ depth →
        r.skipFiller.cursor.ahead = first.written ++ (rest.restWritten ++ more) →
        Reads (restOf (datum depth) done) r
          (done.foldl (fun rest first => .pair first rest) (.pair first rest)) more := by
      intro depth done r more hdepth h
      have hread := (ihfirst hfirst hsfirst).1 depth r.skipFiller _ (by omega) h
        (ends_restWritten rest more)
      refine reads_item hfirst hitem h hread fun r₁ h₁ => ?_
      exact (ihrest hrest hsrest).2 depth (first :: done) r₁ more (by omega)
        (List.cons_ne_nil first done) hclose h₁
    refine ⟨?_, ?_⟩
    · intro depth r more hdepth h _
      rw [Datum.nest] at hdepth
      obtain ⟨depth, rfl⟩ : ∃ k, depth = k + 1 := ⟨depth - 1, by omega⟩
      have hopen : r.cursor.ahead = '(' :: (first.written ++ (rest.restWritten ++ more)) := by
        rw [h, Datum.written, List.cons_append, List.append_assoc]
      obtain ⟨r₁, hahead, heq⟩ :=
        datum_open depth (ahead_skipFiller_of_solid hopen (by decide) (by decide))
      obtain ⟨r', hr', hrest⟩ := hrun depth [] r₁ more (by omega)
        (ahead_skipFiller_written hfirst hahead)
      exact ⟨r', heq.trans hr', hrest⟩
    · intro depth done r more hdepth _ _ h
      refine hrun depth done r more hdepth (ahead_skipFiller_blank_written hfirst ?_)
      rw [h, Datum.restWritten, List.cons_append, List.append_assoc]

/-- With less depth than that the reader stops inside. -/
theorem readsTooDeep {d : Datum} (hd : d.Readable) (hs : d.HasNoStray) :
    (∀ (depth : Nat) (r : Reading) (rest : List Char), depth < d.nest →
      r.cursor.ahead = d.written ++ rest → ∃ r', datum depth r = .error .nestingTooDeep r') ∧
    (∀ (depth : Nat) (done : List Datum) (r : Reading) (rest : List Char), depth < d.itemsNest →
      r.cursor.ahead = d.restWritten ++ rest →
      ∃ r', restOf (datum depth) done r = .error .nestingTooDeep r') := by
  induction d with
  | nil =>
    refine ⟨fun depth r rest hdepth h => ?_,
      fun depth _ _ _ hdepth _ => absurd hdepth depth.not_lt_zero⟩
    rw [Nat.lt_one_iff.mp hdepth]
    exact datum_open_zero (ahead_skipFiller_of_solid h (by decide) (by decide))
  | atom a =>
    exact ⟨fun depth _ _ hdepth _ => absurd hdepth depth.not_lt_zero,
      fun depth _ _ _ hdepth _ => absurd hdepth depth.not_lt_zero⟩
  | pair first rest ihfirst ihrest =>
    obtain ⟨hfirst, hrest, hclose⟩ := hd
    obtain ⟨hitem, hsfirst, hsrest⟩ := hs
    have hrun : ∀ (depth : Nat) (done : List Datum) (r : Reading) (more : List Char),
        depth < max first.nest rest.itemsNest →
        r.skipFiller.cursor.ahead = first.written ++ (rest.restWritten ++ more) →
        ∃ r', restOf (datum depth) done r = .error .nestingTooDeep r' := by
      intro depth done r more hdepth h
      rw [restOf_written hfirst hitem h]
      -- if the first item is not too deep it is read, and the rest is
      by_cases hfits : first.nest ≤ depth
      · obtain ⟨r₁, hr₁, hahead⟩ := (readsBack hfirst hsfirst).1 depth r.skipFiller _ hfits h
          (ends_restWritten rest more)
        rw [bind_of_ok hr₁]
        exact (ihrest hrest hsrest).2 depth (first :: done) r₁ more (by omega) hahead
      · obtain ⟨r', hr'⟩ := (ihfirst hfirst hsfirst).1 depth r.skipFiller _ (by omega) h
        exact ⟨r', bind_of_error hr'⟩
    refine ⟨?_, ?_⟩
    · intro depth r more hdepth h
      have hopen : r.cursor.ahead = '(' :: (first.written ++ (rest.restWritten ++ more)) := by
        rw [h, Datum.written, List.cons_append, List.append_assoc]
      have hahead := ahead_skipFiller_of_solid hopen (by decide) (by decide)
      cases depth with
      | zero => exact datum_open_zero hahead
      | succ depth =>
        obtain ⟨r₁, hahead₁, heq⟩ := datum_open depth hahead
        rw [Datum.nest] at hdepth
        obtain ⟨r', hr'⟩ := hrun depth [] r₁ more (by omega)
          (ahead_skipFiller_written hfirst hahead₁)
        exact ⟨r', heq.trans hr'⟩
    · intro depth done r more hdepth h
      refine hrun depth done r more hdepth (ahead_skipFiller_blank_written hfirst ?_)
      rw [h, Datum.restWritten, List.cons_append, List.append_assoc]

end Reader

/-! ## Whole texts -/

namespace Datum

variable {d : Datum} {settings : Settings}

theorem ahead_start_text (d : Datum) : (start d.text).cursor.ahead = d.written ++ [] := by
  show (String.ofList d.written).toList = _
  rw [String.toList_ofList, List.append_nil]

/-- A readable datum without strays reads back as it is. -/
theorem read_text_of_readable (hd : d.Readable) (hs : d.HasNoStray)
    (hdepth : d.nest ≤ settings.depth) :
    read settings d.text = .ok d := by
  obtain ⟨r', hr', hend⟩ := (Reader.readsBack hd hs).1 settings.depth (start d.text) [] hdepth
    (ahead_start_text d) Reader.ends_nil
  refine read_eq_ok_iff.mpr ⟨r'.skipFiller, Reader.onlyDatum_of_end hr' ?_⟩
  rw [Reader.skipFiller_of_ahead_nil hend]
  exact hend

/-- All of a written datum stands on the first line, so reading that fails fails there. -/
theorem line_of_error {e : ReadError} (hd : d.Readable) (h : read settings d.text = .error e) :
    e.line = 1 := by
  obtain ⟨r, hr, _, hline⟩ := read_eq_error_iff.mp h
  have hpass : (start d.text).cursor.Passes r.cursor := (Reader.forward_onlyDatum _).error hr
  rw [hline, hpass.line_eq]
  · rfl
  · rw [ahead_start_text, List.append_nil]
    exact (newline_not_mem hd.named).1

/-- Data nested deeper than the settings allow are refused, on the first line. -/
theorem read_text_too_deep (hd : d.Readable) (hs : d.HasNoStray)
    (hdepth : settings.depth < d.nest) :
    read settings d.text = .error ⟨.nestingTooDeep, settings.name, 1⟩ := by
  obtain ⟨r', hr'⟩ := (Reader.readsTooDeep hd hs).1 settings.depth (start d.text) [] hdepth
    (ahead_start_text d)
  have herror : read settings d.text = .error ⟨.nestingTooDeep, settings.name, r'.cursor.line⟩ :=
    read_eq_error_iff.mpr ⟨r', bind_of_error hr', rfl, rfl⟩
  have hline : r'.cursor.line = 1 := line_of_error hd herror
  rw [herror, hline]

/-- A datum whose atoms read back wherever they stand reads back from its written form, and
what its lists are nested in each other is exactly the depth that this takes. -/
theorem read_text_of_writable (v : Datum) (hv : v.Every Atom.Writable) (name : String)
    (depth : Nat) :
    (v.nest ≤ depth → read ⟨name, depth⟩ v.text = .ok v) ∧
    (depth < v.nest → read ⟨name, depth⟩ v.text = .error ⟨.nestingTooDeep, name, 1⟩) := by
  obtain ⟨hd, hs, _, _⟩ := readable_of_writable hv
  exact ⟨fun hdepth => read_text_of_readable hd hs hdepth,
    fun hdepth => read_text_too_deep hd hs hdepth⟩

/-- A dotted list in which a sign, two dots and a negative zero are written. -/
def dottedSample : Datum :=
  .pair (.symbol "+")
    (.pair (.list [.symbol "..", .number (.integer (-5))]) (.number (.real (-0.0))))

theorem read_text_of_writable_sample :
    read ⟨"sample", 2⟩ dottedSample.text = .ok dottedSample ∧
    read ⟨"sample", 1⟩ dottedSample.text = .error ⟨.nestingTooDeep, "sample", 1⟩ := by
  have hplus : WritableName "+".toList := by decide
  have hdots : WritableName "..".toList := by decide
  have hzero : (-0.0 : Float).isFinite = true := by decide +kernel
  have hv : dottedSample.Every Atom.Writable := ⟨hplus, ⟨hdots, trivial, trivial⟩, hzero⟩
  exact ⟨(read_text_of_writable dottedSample hv "sample" 2).1 (by decide),
    (read_text_of_writable dottedSample hv "sample" 1).2 (by decide)⟩

end Datum

end Sexpr
