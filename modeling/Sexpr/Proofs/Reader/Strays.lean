import Sexpr.Proofs.Reader.Produced
import Sexpr.Proofs.Reader.Roundtrip

/-!
# Data that do not read back

Behind a mark of quotation a symbol may begin with a closing parenthesis or with a dot. The
abbreviation is written out as a list, where the first ends the list and the second is taken
for the dot of one. Whatever reading then gives, it is not the datum that was written, so the
data that the reader makes and that read back are exactly those without strays.

> `exists_stray`: the items that are not taken for items.
> `yields_stray`, `differs`: what is read in their place.
> `read_text_iff`: when the written form of what was read reads back.
-/

namespace Sexpr

/-! ## Items that are not taken for items -/

/-- Such an item is a symbol. -/
theorem Datum.exists_stray {d : Datum} (hd : d.Readable) (h : ¬d.IsItem) :
    ∃ name, d = .symbol name ∧ Lexeme name.toList ∧
      ((∃ more, name.toList = ')' :: more) ∨
        ∃ more, name.toList = '.' :: more ∧ more.head? ≠ some '.') := by
  cases d with
  | nil => exact absurd rfl h
  | pair first rest => exact absurd (ofAhead_of_ne (by decide) (by decide)) h
  | atom a =>
    obtain ⟨name, rfl⟩ | ⟨x, run, hrun, hclose, hdot⟩ := a.symbol_or_start hd
    · have hlexeme : Lexeme name.toList := hd
      refine ⟨name, rfl, hlexeme, ?_⟩
      have hstep : Reader.ListStep.ofAhead name.toList ≠ .item := h
      cases hname : name.toList with
      | nil =>
        rw [hname] at hlexeme
        exact hlexeme.elim
      | cons x more =>
        rw [hname] at hstep
        by_cases hclose : x = ')'
        · exact Or.inl ⟨more, by rw [hclose]⟩
        · by_cases hdot : x = '.'
          · refine Or.inr ⟨more, by rw [hdot], fun hhead => hstep ?_⟩
            obtain ⟨run, rfl⟩ := List.head?_eq_some_iff.mp hhead
            rw [hdot]
            rfl
          · exact absurd (ofAhead_of_ne hclose hdot) hstep
    · refine absurd ?_ h
      rw [IsItem, written, hrun]
      exact ofAhead_of_ne hclose hdot

/-- No mark of a list, of quotation or of unquotation goes on with a symbol. -/
theorem ofChar_of_continues {x : Char} (h : continuesSymbol x = true) :
    Opening.ofChar x ≠ .list ∧ Opening.ofChar x ≠ .quote ∧ Opening.ofChar x ≠ .unquote := by
  unfold Opening.ofChar
  split
  all_goals first
    | exact absurd h (by decide)
    | exact ⟨by decide, by decide, by decide⟩
    | split <;> exact ⟨by decide, by decide, by decide⟩

namespace Reader

open Datum

variable {r : Reading} {depth : Nat} {done : List Datum}

/-- At the end of the text no datum is read, so any property holds of it. -/
theorem yields_datum_nil {p : Datum → Prop} (h : r.skipFiller.cursor.ahead = []) :
    Yields p (datum depth) r := by
  intro d r' hd
  rw [datum_nil h] at hd
  exact absurd hd (by simp)

/-- A single atom, or what the one mark that goes on with a symbol abbreviates. -/
def Single (d : Datum) : Prop :=
  (∃ a, d = .atom a) ∨ ∃ inner, d = Abbreviation.quasiquote.expand inner

/-- A character that goes on with a symbol begins no list and no marked datum but a quasiquoted
one. -/
theorem yields_single {inner : Option (Reader Datum)} {x : Char} {run : List Char}
    (h : r.skipFiller.cursor.ahead = x :: run) (hx : continuesSymbol x = true) :
    Yields Single (datumWith inner) r := by
  have hatom : ∀ (token : Scan Atom) (r : Reading), Yields Single (atom token) r :=
    fun token r => yields_atom (yields_any token) fun a _ => Or.inl ⟨a, rfl⟩
  have hnumber : ∀ r : Reading, Yields Single (number Scan.numeral) r := by
    intro r
    unfold number
    exact yields_bind (yields_any _) fun n r₁ _ => yields_pure (Or.inl ⟨.number n, rfl⟩)
  obtain ⟨hlist, hquote, hunquote⟩ := ofChar_of_continues hx
  refine yields_of_run (datumWith_cons h) ?_
  cases hclass : Opening.ofChar x with
  | hash => exact hatom _ _
  | list => exact absurd hclass hlist
  | quote => exact absurd hclass hquote
  | quasiquote =>
    show Yields Single (nested inner (abbreviated .quasiquote)) _
    unfold nested
    split
    · exact yields_throw
    · unfold abbreviated
      refine yields_bind (yields_any _) fun _ r₁ _ => ?_
      exact yields_bind (yields_any _) fun d r₂ _ => yields_pure (Or.inr ⟨d, rfl⟩)
  | unquote => exact absurd hclass hunquote
  | sign =>
    refine yields_of_run (form_sign (x := x) h) ?_
    split
    · exact hnumber _
    · exact hatom _ _
  | string => exact hatom _ _
  | digit => exact hnumber _
  | other => exact hatom _ _

/-- The same with or without depth. -/
theorem yields_datum_single {x : Char} {run : List Char}
    (h : r.skipFiller.cursor.ahead = x :: run) (hx : continuesSymbol x = true) :
    Yields Single (datum depth) r := by
  obtain ⟨inner, hinner⟩ := exists_datumWith depth
  rw [hinner]
  exact yields_single h hx

/-- What is taken for a dot is followed by a single datum, if by any: another mark would have
ended the symbol, and a comment takes the rest of the text. -/
theorem yields_behind_dot (depth : Nat) {y : Char} {run : List Char} (h : r.cursor.ahead = y :: run)
    (hy : continuesSymbol y = true) (hline : '\n' ∉ run) :
    r.skipFiller.cursor.ahead.head? ≠ some ')' ∧ Yields Single (datum depth) r.skipFiller := by
  have hblank : isBlank y = false := by
    cases hb : isBlank y with
    | false => rfl
    | true => exact absurd hy (by simp [continuesSymbol, hb])
  by_cases hsemi : y = ';'
  · have hnil : r.skipFiller.cursor.ahead = [] := by
      show r.cursor.skipFiller.ahead = []
      rw [Cursor.ahead_skipFiller, h, hsemi, dropFiller, if_neg (by decide), if_neg (by decide),
        if_pos rfl]
      exact dropFiller_comment hline
    rw [hnil]
    exact ⟨by decide, yields_datum_nil (by rw [skipFiller_skipFiller, hnil])⟩
  · have hahead := ahead_skipFiller_of_solid h hblank hsemi
    refine ⟨?_, yields_datum_single (by rw [skipFiller_skipFiller, hahead]) hy⟩
    rw [hahead, List.head?_cons]
    rintro hclose
    rw [Option.some.inj hclose] at hy
    exact absurd hy (by decide)

/-- The rest of a list is chained onto the items before it, and what it adds differs from `d`. -/
def Differs (d : Datum) (done : List Datum) (w : Datum) : Prop :=
  ∃ t : Datum, w = done.foldl (fun rest first => .pair first rest) t ∧ t.same d = false

/-- Pairs differ if their first items do. -/
theorem same_of_first {a b s t : Datum} (h : a.same b = false) :
    (Datum.pair a s).same (.pair b t) = false := by
  rw [same, h]
  rfl

/-- Pairs differ if their rests do. -/
theorem same_of_rest {a b s t : Datum} (h : s.same t = false) :
    (Datum.pair a s).same (.pair b t) = false := by
  rw [same, h, ite_self]

/-- A single datum is no list of a symbol that begins with a dot. -/
theorem same_of_single {t : Datum} {name : String} {more : List Char} (ht : Single t)
    (hname : name.toList = '.' :: more) (rest : Datum) :
    t.same (.pair (.symbol name) rest) = false := by
  obtain ⟨a, rfl⟩ | ⟨inner, rfl⟩ := ht
  · rfl
  · refine same_of_first ?_
    show ("quasiquote" == name) = false
    rw [beq_eq_false_iff_ne]
    rintro rfl
    have hhead : "quasiquote".toList.head? = some '.' := by rw [hname]; rfl
    exact absurd hhead (by decide)

/-- In the place of a stray nothing is read that begins with it. -/
theorem yields_stray {name : String} {rest : List Char} (hname : Lexeme name.toList)
    (hstray : (∃ more, name.toList = ')' :: more) ∨
      ∃ more, name.toList = '.' :: more ∧ more.head? ≠ some '.')
    (hline : '\n' ∉ name.toList ++ ')' :: rest)
    (h : r.skipFiller.cursor.ahead = name.toList ++ ')' :: rest) :
    Yields (Differs (.pair (.symbol name) .nil) done) (restOf (datum depth) done) r := by
  obtain ⟨more, hmore⟩ | ⟨more, hmore, hsecond⟩ := hstray
  · -- the list ends in its place, and a pair is not the empty list
    refine yields_of_run (restOf_close (by rw [h, hmore]; rfl)) ?_
    intro w r' hw
    exact ⟨.nil, yields_closeList done .nil w r' hw, rfl⟩
  · rw [hmore, List.cons_append] at h hline
    have hnext : (more ++ ')' :: rest).head? ≠ some '.' := by
      cases more with
      | nil => rw [List.nil_append, List.head?_cons]; decide
      | cons y more => exact hsecond
    refine yields_of_run (restOf_dot (by rw [h]; exact ofAhead_dot_of_ne hnext)) ?_
    cases hdone : done.isEmpty with
    | true =>
      unfold dottedTail
      rw [hdone, if_pos rfl]
      exact yields_throw
    | false =>
      have hbehind := ahead_advanceBy_one h
      refine yields_of_run (dottedTail_run _ hdone _) ?_
      cases more with
      | nil =>
        -- the symbol is the dot alone, with the parenthesis behind it
        rw [ahead_skipFiller_of_solid hbehind (by decide) (by decide), if_pos List.head?_cons]
        exact yields_throw
      | cons y more =>
        rw [hmore] at hname
        have hrun : '\n' ∉ more ++ ')' :: rest :=
          fun hmem => hline (List.mem_cons_of_mem _ (List.mem_cons_of_mem _ hmem))
        obtain ⟨hclose, htail⟩ :=
          yields_behind_dot depth hbehind (hname.2.2.1 y List.mem_cons_self) hrun
        rw [if_neg hclose]
        refine yields_bind htail fun t r₁ ht => yields_bind (yields_any _) fun _ r₂ _ => ?_
        intro w r' hw
        exact ⟨t, yields_closeList done t w r' hw, same_of_single ht hmore .nil⟩

/-- A list goes on behind an item that was read as another one. -/
theorem yields_after {a first rest : Datum} (ha : a.same first = false) (r : Reading) :
    Yields (Differs (.pair first rest) done) (restOf (datum depth) (a :: done)) r := by
  intro w r' hw
  obtain ⟨t, hwt, _⟩ := yields_restOf (fun r => yields_datum depth r) (a :: done) r w r' hw
  exact ⟨.pair a t, hwt, same_of_first ha⟩

/-- An item without a stray reads back if it is read at all, so a list with it differs as what is
behind it does. -/
theorem yields_behind_item {first rest : Datum} {more : List Char} (hfirst : first.Readable)
    (hs : first.HasNoStray)
    (h : r.skipFiller.cursor.ahead = first.written ++ (rest.restWritten ++ more))
    (hbehind : ∀ r₁ : Reading, r₁.cursor.ahead = rest.restWritten ++ more →
      Yields (Differs rest (first :: done)) (restOf (datum depth) (first :: done)) r₁) :
    Yields (Differs (.pair first rest) done)
      (datum depth >>= fun a => restOf (datum depth) (a :: done)) r.skipFiller := by
  intro w r' hw
  obtain ⟨a, r₁, ha, hw⟩ := ok_of_bind hw
  by_cases hfits : first.nest ≤ depth
  · obtain ⟨r₂, hr₂, hahead⟩ := (readsBack hfirst hs).1 depth r.skipFiller _ hfits h
      (ends_restWritten rest more)
    rw [hr₂] at ha
    injection ha with ha hr
    subst ha hr
    obtain ⟨t, hwt, ht⟩ := hbehind r₂ hahead w r' hw
    exact ⟨.pair first t, hwt, same_of_rest ht⟩
  · obtain ⟨r₂, hr₂⟩ := (readsTooDeep hfirst hs).1 depth r.skipFiller _ (by omega) h
    rw [hr₂] at ha
    exact absurd ha (by simp)

/-- What is written with a stray in it reads back as another datum, if at all. -/
theorem differs {d : Datum} (hd : d.Readable) (hl : d.StraysLast) (hs : ¬d.HasNoStray) :
    (∀ (depth : Nat) (r : Reading) (rest : List Char), '\n' ∉ rest →
      r.cursor.ahead = d.written ++ rest →
      Yields (fun w => w.same d = false) (datum depth) r) ∧
    (∀ (depth : Nat) (done : List Datum) (r : Reading) (rest : List Char), '\n' ∉ rest →
      r.cursor.ahead = d.restWritten ++ rest →
      Yields (Differs d done) (restOf (datum depth) done) r) := by
  induction d with
  | nil => exact absurd trivial hs
  | atom a => exact absurd trivial hs
  | pair first rest ihfirst ihrest =>
    obtain ⟨hfirst, hrest, hclose⟩ := hd
    obtain ⟨hlast, hlfirst, hlrest⟩ := hl
    have hrun : ∀ (depth : Nat) (done : List Datum) (r : Reading) (more : List Char), '\n' ∉ more →
        r.skipFiller.cursor.ahead = first.written ++ (rest.restWritten ++ more) →
        Yields (Differs (.pair first rest) done) (restOf (datum depth) done) r := by
      intro depth done r more hline h
      have hlines : '\n' ∉ rest.restWritten ++ more := by
        rw [List.mem_append, not_or]
        exact ⟨(Datum.newline_not_mem hrest.named).2, hline⟩
      -- the stray is the item itself, or inside it, or behind it
      by_cases hitem : first.IsItem
      · refine yields_of_run (restOf_written hfirst hitem h) ?_
        by_cases hsfirst : first.HasNoStray
        · have hsrest : ¬rest.HasNoStray := fun hsrest => hs ⟨hitem, hsfirst, hsrest⟩
          exact yields_behind_item hfirst hsfirst h fun r₁ hahead =>
            (ihrest hrest hlrest hsrest).2 depth (first :: done) r₁ more hline hahead
        · have hread := (ihfirst hfirst hlfirst hsfirst).1 depth r.skipFiller _ hlines h
          exact yields_bind hread fun a r₁ ha => yields_after ha r₁
      · obtain ⟨name, rfl, hname, hstray⟩ := Datum.exists_stray hfirst hitem
        -- it stood behind a mark of quotation, and nothing follows it
        obtain rfl : rest = .nil := hlast.resolve_left hitem
        refine yields_stray hname hstray ?_ h
        rw [List.mem_append, not_or]
        exact ⟨(Datum.newline_not_mem hfirst.named).1, hlines⟩
    refine ⟨?_, ?_⟩
    · intro depth r more hline h
      have hopen : r.cursor.ahead = '(' :: (first.written ++ (rest.restWritten ++ more)) := by
        rw [h, Datum.written, List.cons_append, List.append_assoc]
      have hahead := ahead_skipFiller_of_solid hopen (by decide) (by decide)
      cases depth with
      | zero =>
        obtain ⟨r', hr'⟩ := datum_open_zero hahead
        intro w r'' hw
        exact absurd (hr'.symm.trans hw) (by simp)
      | succ depth =>
        obtain ⟨r₁, hahead₁, heq⟩ := datum_open depth hahead
        refine yields_of_run heq ?_
        intro w r' hw
        obtain ⟨t, rfl, ht⟩ := hrun depth [] r₁ more hline (ahead_skipFiller_written hfirst hahead₁)
          w r' hw
        exact ht
    · intro depth done r more hline h
      refine hrun depth done r more hline (ahead_skipFiller_blank_written hfirst ?_)
      rw [h, Datum.restWritten, List.cons_append, List.append_assoc]

end Reader

/-! ## Whole texts -/

namespace Datum

/-- Data with finite numbers are equal to themselves. -/
theorem same_self {d : Datum} (h : d.Every Atom.IsFinite) : d.same d = true := by
  induction d with
  | nil => rfl
  | atom a =>
    show a.same a = true
    cases a with
    | bool b => exact beq_self_eq_true b
    | string text => exact beq_self_eq_true text
    | symbol name => exact beq_self_eq_true name
    | number n =>
      show n.same n = true
      cases n with
      | integer n => exact beq_self_eq_true n
      | real x => exact beq_self_of_isFinite h
      | complex re im =>
        show (re == re && im == im) = true
        rw [beq_self_of_isFinite h.1, beq_self_of_isFinite h.2]
        rfl
  | pair first rest ihfirst ihrest =>
    show (if first.same first then rest.same rest else false) = true
    rw [ihfirst h.1, if_pos rfl]
    exact ihrest h.2

/-- With a stray in it a datum does not read back, however deep the reader may go. -/
theorem same_of_read_text {settings : Settings} {d w : Datum} (hd : d.Readable) (hl : d.StraysLast)
    (hs : ¬d.HasNoStray) (h : read settings d.text = .ok w) : w.same d = false := by
  obtain ⟨r, hr⟩ := read_eq_ok_iff.mp h
  obtain ⟨r₁, hw, _⟩ := Reader.datum_of_onlyDatum hr
  exact (Reader.differs hd hl hs).1 _ _ [] List.not_mem_nil (ahead_start_text d) w r₁ hw

/-- What was read, with finite numbers in it, reads back from its written form with the same
depth if none of its items is a stray, and only then. -/
theorem read_text_iff {settings : Settings} {text : String} {v : Datum}
    (h : read settings text = .ok v) (hfin : v.Every Atom.IsFinite) :
    (∃ w, read ⟨"written", settings.depth⟩ v.text = .ok w ∧ (w == v) = true) ↔ v.HasNoStray := by
  have hmade := made_of_read h hfin
  constructor
  · rintro ⟨w, hw, hsame⟩
    by_contra hs
    have hne : w.same v = false := same_of_read_text hmade.readable hmade.straysLast hs hw
    exact absurd (hne.symm.trans hsame) (by decide)
  · intro hs
    exact ⟨v, read_text_of_readable hmade.readable hs hmade.nest_le, same_self hfin⟩

/-- A quoted name reads back. -/
theorem read_text_iff_sample :
    ∃ w, read ⟨"written", 500⟩ (list [.symbol "quote", .symbol "a"]).text = .ok w ∧
      (w == list [.symbol "quote", .symbol "a"]) = true := by
  have hread : read {} "'a" = .ok (list [.symbol "quote", .symbol "a"]) := by rfl
  have hfin : (list [.symbol "quote", .symbol "a"]).Every Atom.IsFinite :=
    ⟨trivial, trivial, trivial⟩
  exact (read_text_iff hread hfin).mpr ⟨by rfl, trivial, by rfl, trivial, trivial⟩

/-- A quoted closing parenthesis is read, and its written form is not. -/
theorem quoted_close_does_not_read_back :
    ∃ v : Datum, read {} "')" = .ok v ∧ v.Every Atom.IsFinite ∧
      ∀ w, read ⟨"written", 500⟩ v.text ≠ .ok w := by
  refine ⟨list [.symbol "quote", .symbol ")"], by rfl, ⟨trivial, trivial, trivial⟩, ?_⟩
  intro w hw
  have herror : read ⟨"written", 500⟩ (list [.symbol "quote", .symbol ")"]).text
      = .error ⟨.trailingContent ')', "written", 1⟩ := by rfl
  rw [herror] at hw
  exact absurd hw (by simp)

end Datum

end Sexpr
