import Sexpr.Proofs.Reader.Composition

/-!
# Reading every rendering

However a datum is spelled and laid out, it reads as that datum, and the spelling decides how
deep the reader has to go: with exactly as many levels as it has lists and marks inside each
other reading succeeds, and with fewer it stops for want of one.

The proof goes along the spelling, with whatever tokens follow it. What is left ahead of a part
that has been read is again a layout, that of the tokens behind the part.

> `ahead_of_layout`: a token is what is behind the filler.
> `reads_of_spells`: a part of a datum, with the layout that it leaves.
> `read_rendering`: a whole text.
> `exists_layout_of_written`: the written form is one of the renderings.
-/

namespace Sexpr

/-! ## Filler and tokens -/

/-- Filler in front of a text is dropped. -/
theorem Filler.dropFiller {filler : List Char} (h : Filler filler) (text : List Char) :
    dropFiller false (filler ++ text) = dropFiller false text := by
  induction h with
  | nil => rfl
  | blank hc _ ih => rw [List.cons_append, dropFiller_blank _ hc, ih]
  | comment hc _ ih =>
    rw [List.cons_append, List.append_assoc, List.cons_append, Sexpr.dropFiller,
      if_neg Bool.false_ne_true, if_neg (by decide), if_pos rfl,
      dropFiller_append_newline _ (dropFiller_comment hc), ih]

/-- Filler at the end of a text is dropped altogether. -/
theorem LastFiller.dropFiller {text : List Char} (h : LastFiller text) :
    dropFiller false text = [] := by
  cases h with
  | ended h =>
    have hdrop := h.dropFiller []
    rwa [List.append_nil] at hdrop
  | unended h hc =>
    rw [h.dropFiller, Sexpr.dropFiller, if_neg Bool.false_ne_true, if_neg (by decide), if_pos rfl]
    exact dropFiller_comment hc

/-- A datum whose atoms read back wherever they stand may begin with this token. -/
def Token.Begins : Token → Prop
  | opening => True
  | mark _ => True
  | atom a => a.Writable
  | _ => False

/-- If the token is an atom, it reads back. -/
def Token.Readable : Token → Prop
  | atom a => a.Readable
  | _ => True

/-- An atom that may begin a datum reads back. -/
theorem Token.Begins.readable {t : Token} (h : t.Begins) : t.Readable := by
  cases t with
  | atom a => exact (Datum.readable_atom_of_writable h).1
  | _ => trivial

/-- Tokens begin with no filler. -/
theorem Token.written_start {t : Token} (h : t.Readable) :
    ∃ x run, t.written = x :: run ∧ isBlank x = false ∧ x ≠ ';' := by
  cases t with
  | opening => exact ⟨'(', [], rfl, by decide, by decide⟩
  | closing => exact ⟨')', [], rfl, by decide, by decide⟩
  | dot => exact ⟨'.', [], rfl, by decide, by decide⟩
  | atom a => exact a.written_start h
  | mark a =>
    cases a with
    | quote => exact ⟨'\x27', [], rfl, by decide, by decide⟩
    | quasiquote => exact ⟨'\x60', [], rfl, by decide, by decide⟩
    | unquote => exact ⟨',', [], rfl, by decide, by decide⟩
    | unquoteSplicing => exact ⟨',', ['@'], rfl, by decide, by decide⟩

/-- In a list a datum is taken for an item. -/
theorem Token.Begins.ofAhead {t : Token} (h : t.Begins) (text : List Char) :
    Reader.ListStep.ofAhead (t.written ++ text) = .item := by
  cases t with
  | opening => rfl
  | closing => exact h.elim
  | dot => exact h.elim
  | mark a =>
    cases a with
    | quote => rfl
    | quasiquote => rfl
    | unquote => rfl
    | unquoteSplicing => rfl
  | atom a =>
    obtain ⟨hread, hitem, _⟩ := Datum.readable_atom_of_writable h
    obtain ⟨x, run, hrun, _⟩ := a.written_start hread
    have hne : a.written ≠ [] := by rw [hrun]; exact List.cons_ne_nil x run
    have hdot : a.written ≠ ['.'] := by
      intro hdot
      rw [Datum.IsItem, Datum.written, hdot] at hitem
      exact absurd hitem (by decide)
    exact (Reader.ofAhead_append hne hdot).trans hitem

/-- What spells a whole datum begins with a token that a datum may begin with. -/
theorem Spells.begins {d : Datum} {depth : Nat} {ts : List Token} (h : Spells .whole d depth ts)
    (hd : d.Every Atom.Writable) : ∃ t us, ts = t :: us ∧ t.Begins := by
  cases h with
  | nil => exact ⟨_, _, rfl, trivial⟩
  | atom a => exact ⟨_, _, rfl, hd⟩
  | quote h => exact ⟨_, _, rfl, trivial⟩
  | quasiquote h => exact ⟨_, _, rfl, trivial⟩
  | unquote h => exact ⟨_, _, rfl, trivial⟩
  | unquoteSplicing h => exact ⟨_, _, rfl, trivial⟩
  | pair h hrest => exact ⟨_, _, rfl, trivial⟩

namespace Reader

variable {r : Reading} {d : Datum} {depth : Nat} {ts us : List Token}

/-- Behind the filler there is the token, which ends before a layout of the others. -/
theorem ahead_of_layout {t : Token} (h : Layout (t :: ts) r.cursor.ahead) (ht : t.Readable) :
    ∃ text, r.skipFiller.cursor.ahead = t.written ++ text ∧ t.EndsBefore text ∧
      Layout ts text := by
  generalize hahead : r.cursor.ahead = cs at h
  cases h with
  | @cons filler text _ _ hfiller hends h =>
    refine ⟨text, ?_, hends, h⟩
    obtain ⟨x, run, hrun, hblank, hsemi⟩ := t.written_start ht
    show r.cursor.skipFiller.ahead = t.written ++ text
    rw [Cursor.ahead_skipFiller, hahead, hfiller.dropFiller, hrun, List.cons_append,
      dropFiller_of_solid _ hblank hsemi]

/-- Behind the last token there is filler only. -/
theorem ahead_of_layout_nil (h : Layout [] r.cursor.ahead) : r.skipFiller.cursor.ahead = [] := by
  show r.cursor.skipFiller.ahead = []
  rw [Cursor.ahead_skipFiller]
  generalize r.cursor.ahead = cs at h
  cases h with
  | nil h => exact h.dropFiller

/-! ## Parts of a datum -/

/-- What the reader does about a part: the rest of a list follows the items read so far. -/
def partReader : Part → Nat → List Datum → Reader Datum
  | .whole, fuel, _ => datum fuel
  | .rest, fuel, done => restOf (datum fuel) done

/-- What comes of a part that spells this datum. -/
def partResult : Part → List Datum → Datum → Datum
  | .whole, _, d => d
  | .rest, done, d => done.foldl (fun rest first => .pair first rest) d

/-- Wherever these tokens are laid out, and whatever follows them, they are read as this part of
a datum if there is the depth for it, and only then. -/
def ReadsPart (part : Part) (d : Datum) (depth : Nat) (ts : List Token) : Prop :=
  ∀ (fuel : Nat) (done : List Datum) (us : List Token) (r : Reading),
    (part = .rest → done ≠ []) → Layout (ts ++ us) r.cursor.ahead →
    (depth ≤ fuel → ∃ r', partReader part fuel done r = .ok (partResult part done d) r' ∧
      Layout us r'.cursor.ahead) ∧
    (fuel < depth → ∃ r', partReader part fuel done r = .error .nestingTooDeep r')

/-- The end of a list. -/
theorem restOf_closing (item : Reader Datum) (done : List Datum)
    (h : Layout (.closing :: us) r.cursor.ahead) :
    ∃ r', restOf item done r = .ok (done.foldl (fun rest first => .pair first rest) .nil) r' ∧
      Layout us r'.cursor.ahead := by
  obtain ⟨text, hahead, _, hus⟩ := ahead_of_layout h trivial
  have hclose : r.skipFiller.cursor.ahead = ')' :: text := hahead
  refine ⟨r.skipFiller.advanceBy 1, ?_, by rw [ahead_advanceBy_one hclose]; exact hus⟩
  rw [restOf_close (by rw [hclose]; rfl)]
  exact closeList_of_close done .nil hclose

/-- Two parentheses take one level. -/
theorem readsPart_nil : ReadsPart .whole .nil 1 [.opening, .closing] := by
  intro fuel done us r _ h
  obtain ⟨text, hahead, _, hus⟩ := ahead_of_layout h trivial
  have hopen : r.skipFiller.cursor.ahead = '(' :: text := hahead
  refine ⟨fun hle => ?_, fun hlt => ?_⟩
  · obtain ⟨fuel, rfl⟩ := Nat.exists_eq_add_of_le' hle
    obtain ⟨r₁, hahead₁, hrun⟩ := datum_open fuel hopen
    obtain ⟨r', hr', hus'⟩ := restOf_closing (datum fuel) [] (r := r₁) (by rw [hahead₁]; exact hus)
    exact ⟨r', hrun.trans hr', hus'⟩
  · rw [Nat.lt_one_iff.mp hlt]
    exact datum_open_zero hopen

/-- An atom takes no depth. -/
theorem readsPart_atom {a : Atom} (ha : a.Writable) : ReadsPart .whole (.atom a) 0 [.atom a] := by
  intro fuel done us r _ h
  have hread := (Datum.readable_atom_of_writable ha).1
  obtain ⟨text, hahead, hends, hus⟩ := ahead_of_layout h hread
  refine ⟨fun _ => ?_, fun hlt => absurd hlt fuel.not_lt_zero⟩
  have hreads : Reads (datum fuel) r.skipFiller (.atom a) text :=
    reads_datum_atom hread hahead hends
  obtain ⟨r', hr', hrest⟩ := hreads
  rw [datum_skipFiller] at hr'
  have hahead' : r'.cursor.ahead = text := hrest
  exact ⟨r', hr', by rw [hahead']; exact hus⟩

/-- A mark takes one level and expands what it marks. -/
theorem readsPart_mark (a : Abbreviation) (h : ReadsPart .whole d depth ts) :
    ReadsPart .whole (a.expand d) (depth + 1) (.mark a :: ts) := by
  intro fuel done us r _ hlayout
  obtain ⟨text, hahead, hends, hts⟩ := ahead_of_layout hlayout trivial
  cases fuel with
  | zero => exact ⟨fun hle => absurd hle (by omega), fun _ => datum_mark_zero hahead⟩
  | succ fuel =>
    obtain ⟨r₁, hahead₁, _, hrun⟩ := datum_mark fuel hahead hends
    have hinner := h fuel [] us r₁ nofun (by rw [hahead₁]; exact hts)
    refine ⟨fun hle => ?_, fun hlt => ?_⟩
    · obtain ⟨r', hr', hus⟩ := hinner.1 (by omega)
      exact ⟨r', hrun.trans (bind_of_ok hr'), hus⟩
    · obtain ⟨r', hr'⟩ := hinner.2 (by omega)
      exact ⟨r', hrun.trans (bind_of_error hr')⟩

/-- The closing parenthesis ends the rest of a list. -/
theorem readsPart_close : ReadsPart .rest .nil 0 [.closing] := by
  intro fuel done us r _ h
  exact ⟨fun _ => restOf_closing (datum fuel) done h, fun hlt => absurd hlt fuel.not_lt_zero⟩

/-- A dot and the rest of a list as a datum of its own. -/
theorem readsPart_dot {t : Token} (ht : t.Begins) (h : ReadsPart .whole d depth (t :: ts)) :
    ReadsPart .rest d depth (.dot :: (t :: ts ++ [.closing])) := by
  intro fuel done us r hdone hlayout
  obtain ⟨text, hahead, hends, hts⟩ := ahead_of_layout hlayout trivial
  have hdot : r.skipFiller.cursor.ahead = '.' :: text := hahead
  have hbehind : (r.skipFiller.advanceBy 1).cursor.ahead = text := ahead_advanceBy_one hdot
  have htail : Layout (t :: (ts ++ .closing :: us)) (r.skipFiller.advanceBy 1).cursor.ahead := by
    rw [hbehind]
    simpa using hts
  obtain ⟨text', hahead', _, _⟩ := ahead_of_layout htail ht.readable
  have hnext : (r.skipFiller.advanceBy 1).skipFiller.cursor.ahead.head? ≠ some ')' := by
    rw [hahead']
    intro hclose
    obtain ⟨run, hrun⟩ := List.head?_eq_some_iff.mp hclose
    have hitem := ht.ofAhead text'
    rw [hrun] at hitem
    change ListStep.close = .item at hitem
    exact absurd hitem (by decide)
  have hrun : partReader .rest fuel done r = (do
      let tail ← datum fuel
      scan Scan.filler
      closeList done tail : Reader Datum) (r.skipFiller.advanceBy 1).skipFiller :=
    restOf_dotted (hdone rfl) (by rw [hdot]; exact ofAhead_dot_of_ne hends) hnext
  have hinner := h fuel [] (.closing :: us) (r.skipFiller.advanceBy 1) nofun htail
  rw [partReader, ← datum_skipFiller] at hinner
  refine ⟨fun hle => ?_, fun hlt => ?_⟩
  · obtain ⟨r₁, hr₁, hclosing⟩ := hinner.1 hle
    obtain ⟨text₂, hahead₂, _, hus⟩ := ahead_of_layout hclosing trivial
    have hclose : r₁.skipFiller.cursor.ahead = ')' :: text₂ := hahead₂
    refine ⟨r₁.skipFiller.advanceBy 1, ?_, by rw [ahead_advanceBy_one hclose]; exact hus⟩
    rw [hrun, bind_of_ok hr₁, bind_of_ok (filler_run r₁)]
    exact closeList_of_close done d hclose
  · obtain ⟨r₁, hr₁⟩ := hinner.2 hlt
    exact ⟨r₁, hrun.trans (bind_of_error hr₁)⟩

/-- An item and then the rest of the list, whether or not there are items before it. -/
theorem restOf_spelled {first rest : Datum} {m n : Nat} {t : Token} (ht : t.Begins)
    (h : ReadsPart .whole first m (t :: ts)) (hrest : ReadsPart .rest rest n us) (fuel : Nat)
    (done : List Datum) (more : List Token)
    (hlayout : Layout (t :: ts ++ us ++ more) r.cursor.ahead) :
    (max m n ≤ fuel → ∃ r', restOf (datum fuel) done r
        = .ok (done.foldl (fun rest first => .pair first rest) (.pair first rest)) r' ∧
      Layout more r'.cursor.ahead) ∧
    (fuel < max m n → ∃ r', restOf (datum fuel) done r = .error .nestingTooDeep r') := by
  rw [List.append_assoc] at hlayout
  obtain ⟨text, hahead, _, _⟩ := ahead_of_layout hlayout ht.readable
  have hstep : ListStep.ofAhead r.skipFiller.cursor.ahead = .item := by
    rw [hahead]
    exact ht.ofAhead text
  have hrun : restOf (datum fuel) done r
      = (datum fuel >>= fun d => restOf (datum fuel) (d :: done)) r.skipFiller :=
    restOf_item (shortens_datum fuel) hstep
  have hfirst := h fuel [] (us ++ more) r nofun hlayout
  rw [partReader, ← datum_skipFiller] at hfirst
  -- if there is the depth for the item, the rest decides
  by_cases hfits : m ≤ fuel
  · obtain ⟨r₁, hr₁, hus⟩ := hfirst.1 hfits
    have hmore := hrest fuel (first :: done) more r₁ (fun _ => List.cons_ne_nil _ _) hus
    rw [hrun, bind_of_ok hr₁]
    exact ⟨fun hle => hmore.1 (by omega), fun hlt => hmore.2 (by omega)⟩
  · obtain ⟨r₁, hr₁⟩ := hfirst.2 (by omega)
    exact ⟨fun hle => absurd hle (by omega), fun _ => ⟨r₁, hrun.trans (bind_of_error hr₁)⟩⟩

/-- The first item, and then the rest, one level further in. -/
theorem readsPart_pair {first rest : Datum} {m n : Nat} {t : Token} (ht : t.Begins)
    (h : ReadsPart .whole first m (t :: ts)) (hrest : ReadsPart .rest rest n us) :
    ReadsPart .whole (.pair first rest) (max m n + 1) (.opening :: (t :: ts ++ us)) := by
  intro fuel done more r _ hlayout
  obtain ⟨text, hahead, _, hts⟩ := ahead_of_layout hlayout trivial
  have hopen : r.skipFiller.cursor.ahead = '(' :: text := hahead
  cases fuel with
  | zero => exact ⟨fun hle => absurd hle (by omega), fun _ => datum_open_zero hopen⟩
  | succ fuel =>
    obtain ⟨r₁, hahead₁, hrun⟩ := datum_open fuel hopen
    have hinner := restOf_spelled ht h hrest fuel [] more (r := r₁) (by rw [hahead₁]; exact hts)
    refine ⟨fun hle => ?_, fun hlt => ?_⟩
    · obtain ⟨r', hr', hmore⟩ := hinner.1 (by omega)
      exact ⟨r', hrun.trans hr', hmore⟩
    · obtain ⟨r', hr'⟩ := hinner.2 (by omega)
      exact ⟨r', hrun.trans hr'⟩

/-- Whatever spells a part of a datum is read as that part. -/
theorem reads_of_spells {part : Part} (h : Spells part d depth ts)
    (hd : d.Every Atom.Writable) : ReadsPart part d depth ts := by
  -- by induction on the spelling; each of its forms has a lemma of its own
  induction h with
  | nil => exact readsPart_nil
  | atom a => exact readsPart_atom hd
  | quote _ ih => exact readsPart_mark .quote (ih hd.2.1)
  | quasiquote _ ih => exact readsPart_mark .quasiquote (ih hd.2.1)
  | unquote _ ih => exact readsPart_mark .unquote (ih hd.2.1)
  | unquoteSplicing _ ih => exact readsPart_mark .unquoteSplicing (ih hd.2.1)
  | close => exact readsPart_close
  | dot h ih =>
    obtain ⟨t, us, rfl, ht⟩ := h.begins hd
    exact readsPart_dot ht (ih hd)
  | pair h _ ih ihrest =>
    obtain ⟨t, us, rfl, ht⟩ := h.begins hd.1
    exact readsPart_pair ht (ih hd.1) (ihrest hd.2)
  | item h _ ih ihrest =>
    obtain ⟨t, us, rfl, ht⟩ := h.begins hd.1
    intro fuel done more r _ hlayout
    exact restOf_spelled ht (ih hd.1) (ihrest hd.2) fuel done more hlayout

end Reader

/-! ## The written form -/

/-- Filler behind filler is filler. -/
theorem Filler.append {filler more : List Char} (h : Filler filler) (hmore : Filler more) :
    Filler (filler ++ more) := by
  induction h with
  | nil => exact hmore
  | blank hc _ ih => exact .blank hc ih
  | comment hc _ ih =>
    rw [List.cons_append, List.append_assoc, List.cons_append]
    exact .comment hc ih

theorem LastFiller.skip {filler text : List Char} (hfiller : Filler filler)
    (h : LastFiller text) : LastFiller (filler ++ text) := by
  cases h with
  | ended h => exact .ended (hfiller.append h)
  | unended h hc =>
    rw [← List.append_assoc]
    exact .unended (hfiller.append h) hc

/-- Filler in front of a layout belongs to it. -/
theorem Layout.skip {filler text : List Char} {ts : List Token} (hfiller : Filler filler)
    (h : Layout ts text) : Layout ts (filler ++ text) := by
  cases h with
  | nil h => exact .nil (h.skip hfiller)
  | cons h hends hlayout =>
    rw [← List.append_assoc]
    exact .cons (hfiller.append h) hends hlayout

theorem Layout.blank {text : List Char} {ts : List Token} (h : Layout ts text) :
    Layout ts (' ' :: text) :=
  .skip (.blank (by decide) .nil) h

/-- A token may follow at once if the one before it ends there. -/
theorem Layout.token {text : List Char} {t : Token} {ts : List Token} (hends : t.EndsBefore text)
    (h : Layout ts text) : Layout (t :: ts) (t.written ++ text) :=
  .cons .nil hends h

/-- The written form is one of the ways to lay out one of the spellings, and its lists are
nested as deep as the spelling is. -/
theorem exists_layout_of_written (v : Datum) :
    (∃ ts, Spells .whole v v.nest ts ∧ ∀ us more, Ends more → Layout us more →
      Layout (ts ++ us) (v.written ++ more)) ∧
    (∃ ts, Spells .rest v v.itemsNest ts ∧ ∀ us more, Layout us more →
      Layout (ts ++ us) (v.restWritten ++ more)) := by
  induction v with
  | nil =>
    refine ⟨⟨_, .nil, fun us more _ h => ?_⟩, ⟨_, .close, fun us more h => ?_⟩⟩
    · exact .token (t := .opening) trivial (.token (t := .closing) trivial h)
    · exact .token (t := .closing) trivial h
  | atom a =>
    refine ⟨⟨_, .atom a, fun us more hends h => ?_⟩, ⟨_, .dot (.atom a), fun us more h => ?_⟩⟩
    · exact .token (t := .atom a) (hends.endsBefore a) h
    · have hatom : Layout (.atom a :: .closing :: us) (a.written ++ ')' :: more) :=
        .token (t := .atom a) ((Reader.ends_close more).endsBefore a)
          (.token (t := .closing) trivial h)
      have hdot : Layout (.dot :: .atom a :: .closing :: us)
          ('.' :: ' ' :: (a.written ++ ')' :: more)) :=
        .token (t := .dot) (by simp [Token.EndsBefore]) hatom.blank
      have htext : (Datum.atom a).restWritten ++ more
          = ' ' :: '.' :: ' ' :: (a.written ++ ')' :: more) := by
        rw [Datum.restWritten]
        simp
      rw [htext]
      exact hdot.blank
  | pair first rest ihfirst ihrest =>
    obtain ⟨⟨ts, hts, hfirst⟩, _⟩ := ihfirst
    obtain ⟨_, us, hus, hrest⟩ := ihrest
    have hitems : ∀ more text, Layout more text →
        Layout (ts ++ us ++ more) (first.written ++ rest.restWritten ++ text) := by
      intro more text h
      rw [List.append_assoc, List.append_assoc]
      exact hfirst _ _ (Reader.ends_restWritten rest text) (hrest more text h)
    refine ⟨⟨.opening :: (ts ++ us), ?_, fun more text _ h => ?_⟩,
      ⟨ts ++ us, .item hts hus, fun more text h => ?_⟩⟩
    · rw [Datum.nest, Nat.add_comm]
      exact .pair hts hus
    · exact .token (t := .opening) trivial (hitems more text h)
    · exact (hitems more text h).blank

/-! ## Whole texts -/

namespace Datum

/-- Every rendering of a datum whose atoms read back reads as that datum if the reader may go as
deep as it is spelled, and otherwise it is nested too deep. -/
theorem read_rendering (v : Datum) (hv : v.Every Atom.Writable) {depth : Nat} {ts : List Token}
    {text : List Char} (hspells : Spells .whole v depth ts) (hlayout : Layout ts text)
    (name : String) (fuel : Nat) :
    (depth ≤ fuel → read ⟨name, fuel⟩ (String.ofList text) = .ok v) ∧
    (fuel < depth → ∃ line,
      read ⟨name, fuel⟩ (String.ofList text) = .error ⟨.nestingTooDeep, name, line⟩) := by
  have hahead : (start (String.ofList text)).cursor.ahead = text := String.toList_ofList
  have hreads := Reader.reads_of_spells hspells hv fuel [] [] (start (String.ofList text)) nofun
    (by rw [hahead, List.append_nil]; exact hlayout)
  refine ⟨fun hle => ?_, fun hlt => ?_⟩
  · obtain ⟨r, hr, hend⟩ := hreads.1 hle
    exact read_eq_ok_iff.mpr
      ⟨r.skipFiller, Reader.onlyDatum_of_end hr (Reader.ahead_of_layout_nil hend)⟩
  · obtain ⟨r, hr⟩ := hreads.2 hlt
    exact ⟨r.cursor.line, read_eq_error_iff.mpr ⟨r, bind_of_error hr, rfl, rfl⟩⟩

/-- A name, something quoted and a dot in front of the rest of the list, with comments behind the
dot and at the end. -/
theorem read_rendering_sample :
    read ⟨"sample", 2⟩ (String.ofList ['(', 'x', '\x27', '#', 't', '.', ';', ')', '\n', '(', '\x22',
      's', '\x22', ')', ')', ';']) = .ok (.list [.symbol "x",
        .list [.symbol "quote", .atom (.bool true)], .atom (.string "s")]) ∧
    ∃ line, read ⟨"sample", 1⟩ (String.ofList ['(', 'x', '\x27', '#', 't', '.', ';', ')', '\n', '(',
      '\x22', 's', '\x22', ')', ')', ';']) = .error ⟨.nestingTooDeep, "sample", line⟩ := by
  have hx : WritableName "x".toList := by decide
  have hquote : WritableName "quote".toList := by decide
  have hv : (Datum.list [.symbol "x", .list [.symbol "quote", .atom (.bool true)],
      .atom (.string "s")]).Every Atom.Writable :=
    ⟨hx, ⟨hquote, trivial, trivial⟩, trivial, trivial⟩
  have hspells := Spells.pair (.atom (.symbol "x")) (.item (.quote (.atom (.bool true)))
    (.dot (.pair (.atom (.string "s")) .close)))
  have hend : Layout [.closing, .closing] [')', ')', ';'] :=
    .token (t := .closing) trivial (.token (t := .closing) trivial
      (.nil (.unended .nil List.not_mem_nil)))
  have hstring : Layout [.opening, .atom (.string "s"), .closing, .closing]
      ['(', '\x22', 's', '\x22', ')', ')', ';'] :=
    .token (t := .opening) trivial (.token (t := .atom (.string "s")) trivial hend)
  have hdot : Layout [.dot, .opening, .atom (.string "s"), .closing, .closing]
      ['.', ';', ')', '\n', '(', '\x22', 's', '\x22', ')', ')', ';'] :=
    .token (t := .dot) (by simp [Token.EndsBefore])
      (.skip (@Filler.comment [')'] [] (by simp) .nil) hstring)
  have hlayout : Layout [.opening, .atom (.symbol "x"), .mark .quote, .atom (.bool true), .dot,
      .opening, .atom (.string "s"), .closing, .closing] ['(', 'x', '\x27', '#', 't', '.', ';', ')',
        '\n', '(', '\x22', 's', '\x22', ')', ')', ';'] :=
    .token (t := .opening) trivial (.token (t := .atom (.symbol "x"))
      (fun x hx => by rw [← Option.some.inj hx]; decide)
      (.token (t := .mark .quote) nofun (.token (t := .atom (.bool true)) trivial hdot)))
  have hreads := read_rendering _ hv hspells hlayout "sample"
  exact ⟨(hreads 2).1 (by decide), (hreads 1).2 (by decide)⟩

end Datum

end Sexpr
