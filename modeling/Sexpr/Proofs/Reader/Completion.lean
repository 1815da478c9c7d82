import Sexpr.Proofs.Reader.Causes
import Sexpr.Proofs.Reader.Finality

/-!
# Errors that more text mends

A text that ends too early is the beginning of one that does not. What is missing is put
together from the inside out: a line feed ends a comment and separates tokens, a closing
quote ends a string, `#t` stands for a missing datum, and a parenthesis closes each list
that is open. What was read before is read again as it was, since nothing of it touches
what is added.

> `Completes`: with these characters behind it, the text holds a whole datum from here on.
> `read_append_of_incomplete`: there are such characters for every text that ends too early.
-/

namespace Sexpr

open Place

/-- A token that is not formed as it has to be is not mended by more text. -/
theorem Cause.isIncomplete_of_isMalformed {e : Cause} (h : e.isMalformed = true) :
    e.isIncomplete = false := by
  cases e with
  | invalidNumber => rfl
  | missingDenominator => rfl
  | divisionByZero => rfl
  | missingImaginaryUnit found => rfl
  | vectorUnsupported => rfl
  | invalidHashToken found => rfl
  | _ => exact absurd h Bool.false_ne_true

namespace Scan

/-- The truth value that completions are made of is read. -/
theorem hashToken_true {c : Cursor} {rest : List Char} (h : c.ahead = '#' :: 't' :: rest) :
    hashToken c = .ok (.bool true) (c.advanceBy 2) := by
  unfold hashToken
  rw [bind_of_ok (peekAt_run 1 c), Cursor.peekAt?, h]
  rfl

end Scan

namespace Reader

variable {r : Reading}

/-! ## What is missing -/

/-- With `s` behind it the text holds a datum from here on, and what stands behind `s` is
left over. At the very end of a text `s` begins with a line feed. -/
structure Completes (s : List Char) (m : Reader Datum) (r : Reading) : Prop where
  newline : r.cursor.ahead = [] → s.head? = some '\n'
  reads : ∀ rest, ∃ d r', m (extend r (s ++ rest)) = .ok d r' ∧ r'.cursor.ahead = rest

/-- Where the reader fails for want of more text there is something that completes it. -/
def Completable (m : Reader Datum) : Prop :=
  ∀ r e r', m r = .error e r' → e.isIncomplete = true → ∃ s, Completes s m r

/-- A reader of data that more text completes, and that reads what is put for a datum. -/
structure IsCompletable (item : Reader Datum) : Prop where
  isLocal : IsLocal item
  completable : Completable item
  reads_true : ∀ r rest, r.skipFiller.cursor.ahead = '#' :: 't' :: rest →
    ∃ d r', item r = .ok d r' ∧ r'.cursor.ahead = rest

/-- What begins with a line feed breaks, however it goes on. -/
theorem breaks_append {s : List Char} (h : s.head? = some '\n') (rest : List Char) :
    Breaks (s ++ rest) := by
  obtain ⟨s', rfl⟩ := List.head?_eq_some_iff.mp h
  exact breaks_newline (s' ++ rest)

/-- Something is ahead, or what is added begins with a line feed. -/
theorem ne_nil_or_breaks {s : List Char} (h : r.cursor.ahead = [] → s.head? = some '\n')
    (rest : List Char) : r.cursor.ahead ≠ [] ∨ Breaks (s ++ rest) := by
  by_cases hend : r.cursor.ahead = []
  · exact Or.inr (breaks_append (h hend) rest)
  · exact Or.inl hend

/-- A character that is there is passed before the text goes on. -/
theorem extend_advance (s : List Char) (h : r.cursor.ahead ≠ []) :
    (extend r s).advanceBy 1 = extend (r.advanceBy 1) s := by
  show ({ r with cursor := (r.cursor.extend s).advanceBy 1 } : Reading) = _
  rw [Cursor.advanceBy_extend s (List.length_pos_iff.mpr h)]
  rfl

/-- A parenthesis behind filler closes the list. -/
theorem filler_closeList {done : List Datum} {tail : Datum} {rest : List Char}
    (h : r.skipFiller.cursor.ahead = ')' :: rest) :
    ∃ d r', (scan Scan.filler >>= fun _ => closeList done tail) r = .ok d r'
      ∧ r'.cursor.ahead = rest := by
  exact ⟨_, _, (bind_of_ok (filler_run r)).trans (closeList_of_close done tail h),
    ahead_advanceBy_one h⟩

/-- A list that is not closed at the end of the text. -/
theorem ahead_of_incomplete_closeList {done : List Datum} {tail : Datum} {r' : Reading} {e : Cause}
    (h : closeList done tail r = .error e r') (hinc : e.isIncomplete = true) :
    r.cursor.ahead = [] := by
  obtain ⟨rfl, rfl⟩ := error_of_closeList h
  cases hahead : r'.cursor.ahead with
  | nil => rfl
  | cons x rest =>
    rw [hahead] at hinc
    exact absurd hinc (by simp [Cause.isIncomplete])

/-- The next character behind the dot is not changed by what follows. -/
theorem dottedTail_extend (item : Reader Datum) {done : List Datum} (hdone : done.isEmpty = false)
    (s : List Char) (hne : r.cursor.ahead ≠ [])
    (hend : (r.advanceBy 1).skipFiller.cursor.ahead ≠ [])
    (hclose : (r.advanceBy 1).skipFiller.cursor.ahead.head? ≠ some ')') :
    dottedTail item done (extend r s)
      = (item >>= fun tail => scan Scan.filler >>= fun _ => closeList done tail)
        (extend (r.advanceBy 1).skipFiller s) := by
  rw [dottedTail_run item hdone, extend_advance _ hne, skipFiller_extend hend, if_neg]
  intro hhead
  exact hclose ((Cursor.peek_extend s hend).symm.trans hhead)

section

variable {item : Reader Datum} (hitem : IsCompletable item)
include hitem

/-- With nothing but filler behind the dot, a datum and the parenthesis are missing. -/
theorem dottedTail_reads_true {done : List Datum} (hdone : done.isEmpty = false)
    (hne : r.cursor.ahead ≠ []) (hend : (r.advanceBy 1).skipFiller.cursor.ahead = [])
    (rest : List Char) :
    ∃ d r', dottedTail item done (extend r ('\n' :: '#' :: 't' :: ')' :: rest)) = .ok d r'
      ∧ r'.cursor.ahead = rest := by
  have hahead : (extend (r.advanceBy 1) ('\n' :: '#' :: 't' :: ')' :: rest)).skipFiller.cursor.ahead
      = '#' :: 't' :: ')' :: rest := by
    rw [ahead_skipFiller_newline _ hend, dropFiller_of_solid _ (by decide) (by decide)]
  rw [dottedTail_run item hdone, extend_advance _ hne, hahead, if_neg (by simp)]
  obtain ⟨tail, r₃, hread, hrest⟩ := hitem.reads_true _ (')' :: rest)
    (ahead_skipFiller_of_solid hahead (by decide) (by decide))
  rw [bind_of_ok hread]
  exact filler_closeList (ahead_skipFiller_of_solid hrest (by decide) (by decide))

/-- Behind the dot a datum may be missing, or the rest of one, or the parenthesis. -/
theorem completes_dottedTail {done : List Datum} {e : Cause} {r' : Reading}
    (h : dottedTail item done r = .error e r') (hinc : e.isIncomplete = true)
    (hne : r.cursor.ahead ≠ []) :
    ∃ s, (r.cursor.ahead.tail = [] → s.head? = some '\n') ∧
      Completes s (dottedTail item done) r := by
  cases hdone : done.isEmpty with
  | true =>
    unfold dottedTail at h
    rw [hdone, if_pos rfl] at h
    obtain ⟨rfl, _⟩ := error_of_throw h
    exact absurd hinc (by decide)
  | false =>
    rw [dottedTail_run item hdone] at h
    split at h
    · obtain ⟨rfl, _⟩ := error_of_throw h
      exact absurd hinc (by decide)
    · next hclose =>
      by_cases hend : (r.advanceBy 1).skipFiller.cursor.ahead = []
      · exact ⟨['\n', '#', 't', ')'], fun _ => rfl, fun hnil => absurd hnil hne,
          dottedTail_reads_true hitem hdone hne hend⟩
      · have htail : r.cursor.ahead.tail ≠ [] := by
          intro hnil
          have hnil₁ : (r.advanceBy 1).cursor.ahead = [] := by
            rw [← hnil]
            exact Cursor.ahead_advance r.cursor
          rw [skipFiller_of_ahead_nil hnil₁] at hend
          exact hend hnil₁
        -- the tail is unfinished, or only the parenthesis behind it is missing
        rcases error_of_bind h with h | ⟨tail, r₃, hread, h⟩
        · obtain ⟨s, hs⟩ := hitem.completable _ e r' h hinc
          refine ⟨s ++ [')'], fun hnil => absurd hnil htail, fun hnil => absurd hnil hne,
            fun rest => ?_⟩
          obtain ⟨tail, r₃, hread, hrest⟩ := hs.reads (')' :: rest)
          rw [List.append_assoc, List.singleton_append,
            dottedTail_extend item hdone _ hne hend hclose, bind_of_ok hread]
          exact filler_closeList (ahead_skipFiller_of_solid hrest (by decide) (by decide))
        · rw [bind_of_ok (filler_run r₃)] at h
          have hnil := ahead_of_incomplete_closeList h hinc
          refine ⟨['\n', ')'], fun hnil => absurd hnil htail, fun hnil => absurd hnil hne,
            fun rest => ?_⟩
          have hread' := (hitem.isLocal.localAt ('\n' :: ')' :: rest) _).ok tail r₃ hread
            (Or.inr (breaks_newline _))
          show ∃ d r', dottedTail item done (extend r ('\n' :: ')' :: rest)) = _ ∧ _
          rw [dottedTail_extend item hdone _ hne hend hclose, bind_of_ok hread']
          refine filler_closeList ?_
          rw [ahead_skipFiller_newline _ hnil, dropFiller_of_solid _ (by decide) (by decide)]

omit hitem in
/-- A parenthesis ends the rest of a list. -/
theorem restOf_reads_close {done : List Datum} {rest : List Char}
    (h : r.skipFiller.cursor.ahead = ')' :: rest) :
    ∃ d r', restOf item done r = .ok d r' ∧ r'.cursor.ahead = rest := by
  exact ⟨_, _, (restOf_close (by rw [h]; rfl)).trans (closeList_of_close done .nil h),
    ahead_advanceBy_one h⟩

/-- What the list fails at is the end of the text, the tail behind its dot, an item, or
what follows an item. -/
theorem completable_restOf (done : List Datum) : Completable (restOf item done) := by
  intro r
  -- along the items that were read; the last one, or what follows it, is unfinished
  refine restOf_induct (motive := fun done r => ∀ e r', restOf item done r = .error e r' →
    e.isIncomplete = true → ∃ s, Completes s (restOf item done) r) hitem.isLocal.shortens
    ?close ?dot ?next done r
  case close =>
    intro done r hstep e r' h hinc
    rw [restOf_close hstep] at h
    have hnil := ahead_of_incomplete_closeList h hinc
    refine ⟨['\n', ')'], fun _ => rfl, fun rest => restOf_reads_close ?_⟩
    show (extend r ('\n' :: ')' :: rest)).skipFiller.cursor.ahead = _
    rw [ahead_skipFiller_newline _ hnil, dropFiller_of_solid _ (by decide) (by decide)]
  case dot =>
    intro done r hstep e r' h hinc
    rw [restOf_dot hstep] at h
    obtain ⟨ahead, hahead, _⟩ := ofAhead_dot hstep
    have hne : r.skipFiller.cursor.ahead ≠ [] := by rw [hahead]; exact List.cons_ne_nil _ _
    obtain ⟨s, hlast, hs⟩ := completes_dottedTail hitem h hinc hne
    have hnil := r.cursor.passes_skipFiller.ahead_ne_nil hne
    refine ⟨s, fun h => absurd h hnil, fun rest => ?_⟩
    have hstep' : ListStep.ofAhead (extend r (s ++ rest)).skipFiller.cursor.ahead = .dot := by
      rw [skipFiller_extend hne]
      show ListStep.ofAhead (r.skipFiller.cursor.ahead ++ (s ++ rest)) = .dot
      by_cases hsingle : r.skipFiller.cursor.ahead = ['.']
      · -- the line feed keeps the dot apart from what follows
        obtain ⟨s', rfl⟩ := List.head?_eq_some_iff.mp (hlast (by rw [hsingle]; rfl))
        rw [hsingle]
        rfl
      · rw [ofAhead_append hne hsingle, hstep]
    rw [restOf_dot hstep', skipFiller_extend hne]
    exact hs.reads rest
  case next =>
    intro done r hstep ih e r' h hinc
    rw [restOf_item hitem.isLocal.shortens hstep] at h
    have hne := ahead_skipFiller_ne_nil (r := r) (by rw [hstep]; decide)
    have hnil := r.cursor.passes_skipFiller.ahead_ne_nil hne
    rcases error_of_bind h with h | ⟨d, r₂, hread, h⟩
    · -- the item is unfinished: complete it, then close the list
      obtain ⟨s, hs⟩ := hitem.completable _ e r' h hinc
      refine ⟨s ++ [')'], fun h => absurd h hnil, fun rest => ?_⟩
      obtain ⟨d, r₂, hread, hrest⟩ := hs.reads (')' :: rest)
      rw [List.append_assoc, List.singleton_append, restOf_item_extend hitem.isLocal hstep,
        bind_of_ok hread]
      exact restOf_reads_close (ahead_skipFiller_of_solid hrest (by decide) (by decide))
    · -- the item was read: what completes the rest of the list does not touch it
      obtain ⟨s, hs⟩ := ih d r₂ hread e r' h hinc
      refine ⟨s, fun h => absurd h hnil, fun rest => ?_⟩
      have hread' := (hitem.isLocal.localAt (s ++ rest) _).ok d r₂ hread
        (ne_nil_or_breaks hs.newline rest)
      rw [restOf_item_extend hitem.isLocal hstep, bind_of_ok hread']
      exact hs.reads rest

/-- A list is completed by completing what is left of it. -/
theorem completes_list {e : Cause} {r' : Reading} (h : list item r = .error e r')
    (hinc : e.isIncomplete = true) (hne : r.cursor.ahead ≠ []) :
    ∃ s, Completes s (list item) r := by
  obtain ⟨s, hs⟩ := completable_restOf hitem [] _ e r' h hinc
  refine ⟨s, fun hnil => absurd hnil hne, fun rest => ?_⟩
  rw [list_eq, extend_advance _ hne]
  exact hs.reads rest

/-- What a mark is put before is incomplete if anything is. -/
theorem completes_expanded (a : Abbreviation) {e : Cause} {r' : Reading}
    (h : (item >>= fun d => pure (a.expand d)) r = .error e r') (hinc : e.isIncomplete = true) :
    ∃ s, Completes s (item >>= fun d => pure (a.expand d)) r := by
  rcases error_of_bind h with h | ⟨d, r₁, _, h⟩
  · obtain ⟨s, hs⟩ := hitem.completable _ e r' h hinc
    refine ⟨s, hs.newline, fun rest => ?_⟩
    obtain ⟨d, r₁, hread, hrest⟩ := hs.reads rest
    exact ⟨a.expand d, r₁, bind_of_ok hread, hrest⟩
  · exact (error_of_pure h).elim

theorem completes_abbreviated {a : Abbreviation} {e : Cause} {r' : Reading}
    (h : abbreviated a item r = .error e r') (hinc : e.isIncomplete = true)
    (hne : r.cursor.ahead ≠ []) : ∃ s, Completes s (abbreviated a item) r := by
  unfold abbreviated at h
  rw [bind_of_ok (advance_run 1 r)] at h
  obtain ⟨s, hs⟩ := completes_expanded hitem a h hinc
  refine ⟨s, fun hnil => absurd hnil hne, fun rest => ?_⟩
  unfold abbreviated
  rw [bind_of_ok (advance_run 1 _), extend_advance _ hne]
  exact hs.reads rest

/-- Behind a comma at the end of the text the line feed keeps the second mark away. -/
theorem completes_unquoted {e : Cause} {r' : Reading} (h : unquoted item r = .error e r')
    (hinc : e.isIncomplete = true) (hne : r.cursor.ahead ≠ []) :
    ∃ s, Completes s (unquoted item) r := by
  have haccept : ∀ (s : List Char) (splicing : Bool) (r₂ : Reading),
      scan (Scan.accept '@') (r.advanceBy 1) = .ok splicing r₂ →
      (r₂.cursor.ahead = [] → s.head? = some '\n') → ∀ rest,
      unquoted item (extend r (s ++ rest))
        = (if splicing then do return Abbreviation.unquoteSplicing.expand (← item)
          else do return Abbreviation.unquote.expand (← item)) (extend r₂ (s ++ rest)) := by
    intro s splicing r₂ hrun hnewline rest
    have hlocal : LocalAt (Breaks (s ++ rest)) (s ++ rest) (scan (Scan.accept '@'))
        (r.advanceBy 1) := localAt_scan (Scan.localAt_accept (by decide))
    have hrun' := hlocal.ok splicing r₂ hrun (ne_nil_or_breaks hnewline rest)
    unfold unquoted
    rw [bind_of_ok (advance_run 1 _), extend_advance _ hne, bind_of_ok hrun']
  unfold unquoted at h
  rw [bind_of_ok (advance_run 1 r)] at h
  rcases error_of_bind h with h | ⟨splicing, r₂, hrun, h⟩
  · have haccepts := failsWith_scan (Scan.failsWith_accept (p := fun _ => False) '@')
    exact (haccepts _ e r' h).elim
  · cases splicing with
    | true =>
      obtain ⟨s, hs⟩ := completes_expanded hitem .unquoteSplicing h hinc
      refine ⟨s, fun hnil => absurd hnil hne, fun rest => ?_⟩
      rw [haccept s true r₂ hrun hs.newline, if_pos rfl]
      exact hs.reads rest
    | false =>
      obtain ⟨s, hs⟩ := completes_expanded hitem .unquote h hinc
      refine ⟨s, fun hnil => absurd hnil hne, fun rest => ?_⟩
      rw [haccept s false r₂ hrun hs.newline, if_neg Bool.false_ne_true]
      exact hs.reads rest

end

/-- A letter and a quote end a string, whatever stands before them. -/
theorem completes_string {e : Cause} {r' : Reading} (h : atom Scan.stringToken r = .error e r')
    (hne : r.cursor.ahead ≠ []) : ∃ s, Completes s (atom Scan.stringToken) r := by
  have hopen : Quoted.decode r.cursor.ahead.tail = none := by
    cases hdecode : Quoted.decode r.cursor.ahead.tail with
    | none => rfl
    | some found =>
      have hrun : atom Scan.stringToken r = .ok _ _ :=
        bind_of_ok (scan_of_ok (Scan.stringToken_of_decode hdecode).1)
      exact absurd (hrun.symm.trans h) (by simp)
  -- behind a backslash the letter completes an escape, so the quote is never escaped
  refine ⟨['n', '\x22'], fun hnil => absurd hnil hne, fun rest => ?_⟩
  obtain ⟨text, htext⟩ := Quoted.decode_complete rest hopen
  have htail : (extend r ('n' :: '\x22' :: rest)).cursor.ahead.tail
      = r.cursor.ahead.tail ++ 'n' :: '\x22' :: rest := List.tail_append_of_ne_nil hne
  obtain ⟨hrun, hrest⟩ := Scan.stringToken_of_decode (htail.symm ▸ htext)
  exact ⟨_, _, bind_of_ok (scan_of_ok hrun), hrest⟩

section

variable {inner : Option (Reader Datum)} (hinner : ∀ item ∈ inner, IsCompletable item)
include hinner

/-- A form with parts is completed if it is so for every reader of its parts. -/
theorem completes_nested {form : Reader Datum → Reader Datum} {e : Cause} {r' : Reading}
    (h : nested inner form r = .error e r') (hinc : e.isIncomplete = true)
    (hform : ∀ item, IsCompletable item → form item r = .error e r' →
      ∃ s, Completes s (form item) r) :
    ∃ s, Completes s (nested inner form) r := by
  cases inner with
  | none =>
    obtain ⟨rfl, _⟩ := error_of_throw h
    exact absurd hinc (by decide)
  | some item => exact hform item (hinner item rfl) h

/-- Of the tokens only a string can be unfinished. -/
theorem completes_form {o : Opening} {e : Cause} {r' : Reading} (h : form inner o r = .error e r')
    (hinc : e.isIncomplete = true) (hne : r.cursor.ahead ≠ []) :
    ∃ s, Completes s (form inner o) r := by
  have hmalformed : ∀ {m : Reader Datum} {P : Prop}, FailsWith (·.isMalformed) m →
      m r = .error e r' → P := by
    intro m P hm hr
    have hcomplete := Cause.isIncomplete_of_isMalformed (hm r e r' hr)
    exact absurd (hcomplete.symm.trans hinc) (by decide)
  cases o with
  | hash => exact hmalformed (failsWith_atom Scan.failsWith_hashToken) h
  | list => exact completes_nested hinner h hinc fun item hi hr => completes_list hi hr hinc hne
  | quote =>
    exact completes_nested hinner h hinc fun item hi hr => completes_abbreviated hi hr hinc hne
  | quasiquote =>
    exact completes_nested hinner h hinc fun item hi hr => completes_abbreviated hi hr hinc hne
  | unquote =>
    exact completes_nested hinner h hinc fun item hi hr => completes_unquoted hi hr hinc hne
  | sign =>
    refine hmalformed (m := form inner .sign) ?_ h
    refine failsWith_bind (failsWith_of_ok fun r => ⟨_, _, rfl⟩) fun found => ?_
    split
    · exact failsWith_number
    · exact failsWith_atom Scan.failsWith_symbolToken
  | string => exact completes_string h hne
  | digit => exact hmalformed failsWith_number h
  | other => exact hmalformed (failsWith_atom Scan.failsWith_symbolToken) h

omit hinner in
/-- The truth value is read as a datum, too. -/
theorem datumWith_true {rest : List Char} (h : r.skipFiller.cursor.ahead = '#' :: 't' :: rest) :
    ∃ d r', datumWith inner r = .ok d r' ∧ r'.cursor.ahead = rest := by
  have hrun : datumWith inner r = atom Scan.hashToken (r.skipFiller.noted '#') :=
    datumWith_cons h
  have htoken := Scan.hashToken_true (c := (r.skipFiller.noted '#').cursor) h
  refine ⟨_, _, hrun.trans (bind_of_ok (scan_of_ok htoken)), ?_⟩
  show (r.skipFiller.cursor.advanceBy 2).ahead = rest
  rw [Cursor.ahead_advanceBy, h]
  rfl

/-- Behind the filler a datum can be begun or completed. -/
theorem completable_datumWith : Completable (datumWith inner) := by
  intro r e r' h hinc
  cases hahead : r.skipFiller.cursor.ahead with
  | nil =>
    -- the text may end in a comment, which the line feed ends
    refine ⟨['\n', '#', 't'], fun _ => rfl, fun rest => datumWith_true ?_⟩
    show (extend r ('\n' :: '#' :: 't' :: rest)).skipFiller.cursor.ahead = _
    rw [ahead_skipFiller_newline _ hahead, dropFiller_of_solid _ (by decide) (by decide)]
  | cons x ahead =>
    rw [datumWith_cons hahead] at h
    have hne : r.skipFiller.cursor.ahead ≠ [] := by rw [hahead]; exact List.cons_ne_nil x ahead
    obtain ⟨s, hs⟩ := completes_form hinner h hinc hne
    have hnil := r.cursor.passes_skipFiller.ahead_ne_nil hne
    refine ⟨s, fun h => absurd h hnil, fun rest => ?_⟩
    rw [datumWith_cons (ahead_skipFiller_extend hahead), skipFiller_extend hne]
    exact hs.reads rest

end

/-- Where a datum is incomplete, something completes it at the same depth. -/
theorem isCompletable_datum (depth : Nat) : IsCompletable (datum depth) := by
  induction depth with
  | zero =>
    exact ⟨isLocal_datum 0, completable_datumWith fun item h => absurd h (by simp),
      fun r rest h => datumWith_true h⟩
  | succ depth ih =>
    refine ⟨isLocal_datum _, completable_datumWith fun item h => ?_,
      fun r rest h => datumWith_true h⟩
    rw [← Option.some.inj h]
    exact ih

/-- What stands behind the datum of a text cannot be completed away. -/
theorem definite_after_datum (d : Datum) : FailsWith (·.isIncomplete = false) (do
    scan Scan.filler
    match ← scan Scan.peek with
    | none => return d
    | some c => throw (.trailingContent c) : Reader Datum) := by
  refine failsWith_bind (failsWith_of_ok fun r => ⟨_, _, filler_run r⟩) fun _ => ?_
  refine failsWith_bind (failsWith_of_ok fun r => ⟨_, _, peek_run r⟩) fun found => ?_
  split
  · exact failsWith_pure _
  · exact failsWith_throw rfl

end Reader

namespace Datum

/-- A text that ends too early goes on to one that is read with the same settings. -/
theorem read_append_of_incomplete {settings : Settings} {t : String} {e : ReadError}
    (h : read settings t = .error e) (hinc : e.cause.isIncomplete = true) :
    ∃ (s : String) (d : Datum), read settings (t ++ s) = .ok d := by
  obtain ⟨r, hrun, _, _⟩ := read_eq_error_iff.mp h
  -- behind the datum nothing is missing, so it is the datum that is incomplete
  have hdatum : Reader.datum settings.depth (start t) = .error e.cause r := by
    rcases error_of_bind hrun with hdatum | ⟨d, r₁, _, hrest⟩
    · exact hdatum
    · exact absurd ((Reader.definite_after_datum d r₁ _ r hrest).symm.trans hinc) (by decide)
  obtain ⟨s, hs⟩ := (Reader.isCompletable_datum settings.depth).completable _ _ r hdatum hinc
  obtain ⟨d, r', hread, hend⟩ := hs.reads []
  refine ⟨String.ofList s, d, read_eq_ok_iff.mpr ⟨r'.skipFiller, Reader.onlyDatum_of_end ?_ ?_⟩⟩
  · rw [start_append, String.toList_ofList, ← List.append_nil s]
    exact hread
  · rw [Reader.skipFiller_of_ahead_nil hend]
    exact hend

/-- A quoted list that ends in a comment behind its dot. -/
theorem read_append_of_incomplete_sample :
    ∃ (s : String) (d : Datum), read {} ("'(a . ;" ++ s) = .ok d :=
  read_append_of_incomplete (e := ⟨.nothingToRead, "__unknown__", 1⟩) (by rfl) rfl

end Datum

end Sexpr
