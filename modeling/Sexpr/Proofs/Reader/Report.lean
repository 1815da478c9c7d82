import Sexpr.Proofs.Reader.Roundtrip
import Sexpr.Proofs.Reader.Sightings

/-!
# The report on a text

What is reported on a text accounts for how it was read: the size of the text, then every datum that
was come upon, with its first character, the class of the character and the line, in the order in
which they stand in the text, and at last the line that was reached, if the text was read.

Of a text that was written for a datum every part of the datum is reported once. A chain of pairs is
one list in the text, so it counts once, with its items and its tail.

> `nodes_pair`: the parts of a chain.
> `sights_written`: reading what was written for a datum comes upon as many data as it has parts.
> `readReporting_faithful`: the report on any text.
-/

namespace Sexpr

namespace Datum

/-! ## Parts -/

mutual

/-- The parts of a datum: lists, and what is not in a chain. -/
def nodes : Datum → Nat
  | nil => 1
  | atom _ => 1
  | pair first rest => 1 + (first.nodes + rest.restNodes)

/-- The parts of what follows an item. The end of a list is none. -/
def restNodes : Datum → Nat
  | nil => 0
  | atom _ => 1
  | pair first rest => first.nodes + rest.restNodes

end

theorem restNodes_eq (d : Datum) :
    d.restNodes = (d.items.map nodes).sum + d.tail.restNodes := by
  induction d with
  | nil => rfl
  | atom a => rfl
  | pair first rest _ ih =>
    rw [restNodes, items, tail, List.map_cons, List.sum_cons, ih, Nat.add_assoc]

/-- A chain is one part, and its items and its tail are others. -/
theorem nodes_pair (first rest : Datum) :
    (pair first rest).nodes
      = 1 + ((pair first rest).items.map nodes).sum + (pair first rest).tail.restNodes := by
  rw [Nat.add_assoc, ← restNodes_eq]
  rfl

end Datum

/-! ## Written data -/

/-- The classes of first characters of data without parts. -/
def Opening.IsLeaf : Opening → Prop
  | .list | .quote | .quasiquote | .unquote => False
  | _ => True

/-- What is written for an atom begins like an atom. -/
theorem Atom.written_leaf {a : Atom} (ha : a.Readable) :
    ∃ x run, a.written = x :: run ∧ (Opening.ofChar x).IsLeaf := by
  cases a with
  | bool b =>
    cases b with
    | true => exact ⟨'#', ['t'], rfl, trivial⟩
    | false => exact ⟨'#', ['f'], rfl, trivial⟩
  | string text => exact ⟨_, _, rfl, trivial⟩
  | symbol name =>
    cases hname : name.toList with
    | nil =>
      rw [Atom.Readable, hname] at ha
      exact ha.elim
    | cons x run =>
      rw [Atom.Readable, hname] at ha
      obtain ⟨_, _, _, hother | ⟨hsign, _⟩⟩ := ha
      · exact ⟨x, run, hname, by rw [hother]; trivial⟩
      · exact ⟨x, run, hname, by rw [hsign]; trivial⟩
  | number n =>
    obtain ⟨d, run, hd, hwritten | hwritten⟩ := Scan.written_number_start ha
    · exact ⟨d, run, hwritten, by rw [ofChar_of_isDigit hd]; trivial⟩
    · exact ⟨'-', d :: run, hwritten, trivial⟩

namespace Reader

/-- If the step succeeds from here on, it has come upon `n` data. -/
def Sights {α : Type} (m : Reader α) (r : Reading) (n : Nat) : Prop :=
  ∀ a r', m r = .ok a r' → r'.sightings.length = r.sightings.length + n

section

variable {α β : Type} {r : Reading} {n k : Nat}

theorem sights_pure (a : α) : Sights (pure a : Reader α) r 0 := by
  intro b r' h
  rw [← (ok_of_pure h).2, Nat.add_zero]

/-- Of a step that fails any count holds. -/
theorem sights_throw (e : Cause) : Sights (throw e : Reader α) r n :=
  fun _ _ h => (ok_of_throw h).elim

/-- Characters alone are no data. -/
theorem sights_scan (step : Scan α) : Sights (scan step) r 0 := by
  intro a r' h
  rw [(ok_of_scan h).2, Nat.add_zero]

/-- What two steps in a row come upon adds up. -/
theorem sights_bind {x : Reader α} {f : α → Reader β} (hx : Sights x r n)
    (hf : ∀ a r₁, x r = .ok a r₁ → Sights (f a) r₁ k) : Sights (x >>= f) r (n + k) := by
  intro b r₂ h
  obtain ⟨a, r₁, h₁, h₂⟩ := ok_of_bind h
  rw [hf a r₁ h₁ b r₂ h₂, hx a r₁ h₁, Nat.add_assoc]

theorem sights_scan_bind {step : Scan α} {f : α → Reader β} (hf : ∀ a r₁, Sights (f a) r₁ n) :
    Sights (scan step >>= f) r n := by
  have h := sights_bind (sights_scan step (r := r)) fun a r₁ _ => hf a r₁
  rwa [Nat.zero_add] at h

/-- A step that is known to succeed, and what it leaves. -/
theorem sights_bind_of_reads {x : Reader α} {f : α → Reader β} {a : α} {rest : List Char}
    (hreads : Reads x r a rest) (hx : Sights x r n)
    (hf : ∀ r₁ : Reading, r₁.cursor.ahead = rest → Sights (f a) r₁ k) :
    Sights (x >>= f) r (n + k) := by
  obtain ⟨r₁, h₁, hrest⟩ := hreads
  refine sights_bind hx fun a' r₁' h₁' => ?_
  have heq := h₁.symm.trans h₁'
  injection heq with ha hr
  rw [← ha, ← hr]
  exact hf r₁ hrest

/-- A run that is the run of another step from another place. -/
theorem sights_of_run {m m' : Reader α} {r₁ : Reading} (hrun : m r = m' r₁)
    (hseen : r₁.sightings = r.sightings) (h : Sights m' r₁ n) : Sights m r n := by
  intro a r' hr
  rw [← hseen]
  exact h a r' (hrun.symm.trans hr)

/-- A step that comes upon a datum, and then upon those inside. -/
theorem sights_noted {m m' : Reader α} {r₁ : Reading} {x : Char}
    (hrun : m r = m' (r₁.noted x)) (hseen : r₁.sightings = r.sightings)
    (h : Sights m' (r₁.noted x) n) : Sights m r (1 + n) := by
  intro a r' hr
  have hlen : (r₁.noted x).sightings.length = r.sightings.length + 1 := by rw [← hseen]; rfl
  rw [h a r' (hrun.symm.trans hr), hlen, Nat.add_assoc]

/-- Closing a list comes upon nothing. -/
theorem sights_closeList (done : List Datum) (tail : Datum) : Sights (closeList done tail) r 0 := by
  refine sights_scan_bind fun closed r₁ => ?_
  split
  · exact sights_pure _
  · exact sights_scan_bind fun _ _ => sights_throw _

/-- Without parts nothing more is come upon. -/
theorem sights_leaf (inner : Option (Reader Datum)) {o : Opening} (ho : o.IsLeaf) :
    Sights (form inner o) r 0 := by
  have hatom : ∀ (token : Scan Atom) (r : Reading), Sights (atom token) r 0 :=
    fun token r => sights_scan_bind fun _ _ => sights_pure _
  have hnumber : ∀ r : Reading, Sights (number Scan.numeral) r 0 :=
    fun r => sights_scan_bind fun _ _ => sights_pure _
  cases o with
  | hash => exact hatom _ r
  | sign =>
    refine sights_scan_bind fun found r₁ => ?_
    split
    · exact hnumber r₁
    · exact hatom _ r₁
  | string => exact hatom _ r
  | digit => exact hnumber r
  | other => exact hatom _ r
  | list => exact ho.elim
  | quote => exact ho.elim
  | quasiquote => exact ho.elim
  | unquote => exact ho.elim

variable {depth : Nat} {rest : List Char}

/-- An atom is one datum. -/
theorem sights_atom {a : Atom} (ha : a.Readable) (h : r.cursor.ahead = a.written ++ rest) :
    Sights (datum depth) r 1 := by
  obtain ⟨inner, hinner⟩ := exists_datumWith depth
  obtain ⟨x, run, hrun, hleaf⟩ := a.written_leaf ha
  have hahead : r.skipFiller.cursor.ahead = x :: (run ++ rest) := by
    rw [ahead_skipFiller_written (d := .atom a) ha h]
    show a.written ++ rest = _
    rw [hrun, List.cons_append]
  rw [hinner]
  exact sights_noted (datumWith_cons hahead) rfl (sights_leaf inner hleaf)

/-- A list is come upon, and then its items and its tail. -/
theorem sights_open {run : List Char} (h : r.skipFiller.cursor.ahead = '(' :: run)
    (hrest : ∀ r₁ : Reading, r₁.cursor.ahead = run → Sights (restOf (datum depth) []) r₁ n) :
    Sights (datum (depth + 1)) r (1 + n) := by
  refine sights_noted (datumWith_cons h) rfl ?_
  exact sights_of_run (list_eq _ _) rfl (hrest _ (ahead_advanceBy_one h))

/-- The tail of a list that is written behind a dot. -/
theorem sights_dotted {done : List Datum} {a : Atom} (ha : a.Readable)
    (hclose : a.written.head? ≠ some ')') (hdone : done ≠ [])
    (h : r.cursor.ahead = (Datum.atom a).restWritten ++ rest) :
    Sights (restOf (datum depth) done) r 1 := by
  obtain ⟨r₁, hseen, htail, hrun⟩ := restOf_dotted_written depth ha hclose hdone h
  refine sights_of_run hrun hseen (sights_bind (k := 0) (sights_atom ha htail) fun tail r₂ _ => ?_)
  exact sights_scan_bind fun _ _ => sights_closeList done tail

/-- Reading what was written for a datum comes upon as many data as it has parts, and so does
reading what was written for the rest of a list. -/
theorem sights_written {d : Datum} (hd : d.Readable) (hs : d.HasNoStray) :
    (∀ (depth : Nat) (r : Reading) (rest : List Char), d.nest ≤ depth →
      r.cursor.ahead = d.written ++ rest → Ends rest → Sights (datum depth) r d.nodes) ∧
    (∀ (depth : Nat) (done : List Datum) (r : Reading) (rest : List Char), d.itemsNest ≤ depth →
      done ≠ [] → d.written.head? ≠ some ')' → r.cursor.ahead = d.restWritten ++ rest →
      Sights (restOf (datum depth) done) r d.restNodes) := by
  -- by induction on the datum, along with what is read of it
  induction d with
  | nil =>
    have hclose : ∀ (depth : Nat) (done : List Datum) (r : Reading) (rest : List Char),
        r.cursor.ahead = ')' :: rest → Sights (restOf (datum depth) done) r 0 := by
      intro depth done r rest h
      have hskip := ahead_skipFiller_of_solid h (by decide) (by decide)
      exact sights_of_run (restOf_close (by rw [hskip]; rfl)) rfl (sights_closeList done .nil)
    refine ⟨?_, fun depth done r rest _ _ _ h => hclose depth done r rest h⟩
    intro depth r rest hdepth h _
    obtain ⟨depth, rfl⟩ := Nat.exists_eq_add_of_le' hdepth
    exact sights_open (ahead_skipFiller_of_solid h (by decide) (by decide))
      fun r₁ h₁ => hclose depth [] r₁ rest h₁
  | atom a =>
    refine ⟨fun depth r rest _ h _ => sights_atom hd h, ?_⟩
    exact fun depth done r rest _ hdone hclose h => sights_dotted hd hclose hdone h
  | pair first rest ihfirst ihrest =>
    obtain ⟨hfirst, hrest, hclose⟩ := hd
    obtain ⟨hitem, hsfirst, hsrest⟩ := hs
    -- the items are read alike behind the parenthesis and behind another item
    have hrun : ∀ (depth : Nat) (done : List Datum) (r : Reading) (more : List Char),
        max first.nest rest.itemsNest ≤ depth →
        r.skipFiller.cursor.ahead = first.written ++ (rest.restWritten ++ more) →
        Sights (restOf (datum depth) done) r (first.nodes + rest.restNodes) := by
      intro depth done r more hdepth h
      have hends := ends_restWritten rest more
      refine sights_of_run (restOf_written hfirst hitem h) rfl ?_
      refine sights_bind_of_reads
        ((readsBack hfirst hsfirst).1 depth r.skipFiller _ (by omega) h hends)
        ((ihfirst hfirst hsfirst).1 depth r.skipFiller _ (by omega) h hends) fun r₁ h₁ => ?_
      exact (ihrest hrest hsrest).2 depth (first :: done) r₁ more (by omega)
        (List.cons_ne_nil first done) hclose h₁
    refine ⟨?_, ?_⟩
    · intro depth r more hdepth h _
      rw [Datum.nest] at hdepth
      obtain ⟨depth, rfl⟩ : ∃ k, depth = k + 1 := ⟨depth - 1, by omega⟩
      have hopen : r.cursor.ahead = '(' :: (first.written ++ (rest.restWritten ++ more)) := by
        rw [h, Datum.written, List.cons_append, List.append_assoc]
      refine sights_open (ahead_skipFiller_of_solid hopen (by decide) (by decide)) fun r₁ h₁ => ?_
      exact hrun depth [] r₁ more (by omega) (ahead_skipFiller_written hfirst h₁)
    · intro depth done r more hdepth _ _ h
      refine hrun depth done r more hdepth (ahead_skipFiller_blank_written hfirst ?_)
      rw [h, Datum.restWritten, List.cons_append, List.append_assoc]

end

end Reader

/-! ## Characters in the log -/

/-- The first two bounds go around the control characters, and the next one is behind the last
printable character of ASCII. -/
theorem isHidden_of_printable {c : Char} (hmin : 0x20 ≤ c.toNat) (hmax : c.toNat < 0x7F) :
    isHidden c = false := by
  have hbeyond : ∀ bound ∈ hiddenBounds.toList.drop 2, 0x7F ≤ bound := by decide +kernel
  have hnone : (hiddenBounds.toList.drop 2).countP (· ≤ c.toNat) = 0 := by
    refine List.countP_eq_zero.mpr fun bound hbound hle => ?_
    have hle' : bound ≤ c.toNat := of_decide_eq_true hle
    have hlarge := hbeyond bound hbound
    omega
  have hcount : hiddenBounds.countP (· ≤ c.toNat) = 2 := by
    rw [← Array.countP_toList, ← List.take_append_drop 2 hiddenBounds.toList, List.countP_append,
      hnone]
    show List.countP (· ≤ c.toNat) [0x0, 0x20] = 2
    simp [hmin]
  rw [isHidden, hcount]
  rfl

/-- The log shows a printable character of ASCII as it is, unless a backslash has to stand before
it. -/
theorem shownInLog_of_printable {c : Char} (hmin : 0x20 ≤ c.toNat) (hmax : c.toNat < 0x7F)
    (hquote : c ≠ '\x27') (hslash : c ≠ '\\') :
    shownInLog c = "'" ++ String.singleton c ++ "'" := by
  have hshort : shortForm? c = none := by
    unfold shortForm?
    rw [if_neg, if_neg, if_neg, if_neg, if_neg hslash]
    all_goals
      rintro rfl
      revert hmin
      decide
  have hcontains : ['\x27'].contains c = false := by simp [hquote]
  rw [shownInLog, shownInside, hshort]
  simp only [hcontains, isHidden_of_printable hmin hmax]
  rfl

/-! ## The report -/

namespace Datum

/-- Reading the text of a datum comes upon as many data as it has parts. -/
theorem length_sightings_text {v : Datum} {settings : Settings} (hv : v.Every Atom.Writable)
    (hdepth : v.nest ≤ settings.depth) :
    (endOf (run settings v.text)).sightings.length = v.nodes := by
  obtain ⟨hd, hs, _, _⟩ := readable_of_writable hv
  have hends := Reader.ends_nil
  have hahead := ahead_start_text v
  obtain ⟨r, hr, hend⟩ := (Reader.readsBack hd hs).1 settings.depth _ [] hdepth hahead hends
  have hsights := (Reader.sights_written hd hs).1 settings.depth _ [] hdepth hahead hends v r hr
  have hrun : run settings v.text = .ok v r.skipFiller := Reader.onlyDatum_of_end hr (by
    rw [Reader.skipFiller_of_ahead_nil hend]
    exact hend)
  rw [hrun]
  show r.sightings.length = v.nodes
  rw [hsights]
  exact Nat.zero_add _

/-- A text that was read was passed to its end. -/
theorem ahead_of_run {settings : Settings} {text : String} {d : Datum} {r : Reading}
    (h : run settings text = .ok d r) : r.cursor.ahead = [] := by
  obtain ⟨r₁, hd, hend⟩ := Reader.datum_of_onlyDatum h
  have heq := h.symm.trans (Reader.onlyDatum_of_end hd hend)
  injection heq with _ hr
  rw [hr]
  exact hend

/-- A text that was read ended on its last line. -/
theorem line_of_run {settings : Settings} {text : String} {d : Datum} {r : Reading}
    (h : run settings text = .ok d r) (hfew : text.toList.count '\n' < 2 ^ 32 - 1) :
    r.cursor.line.toNat = 1 + text.toList.count '\n' := by
  have hpass : (Cursor.ofText text).Passes r.cursor :=
    (Reader.forward_onlyDatum _).ok (r := start text) h
  refine hpass.line_toNat ?_ hfew
  rw [ahead_of_run h, List.append_nil]

/-- An event as it is logged, with its level. -/
def logged (e : Event) : String × String :=
  (e.level.label, e.text)

/-- What is logged of the character `c` at this place of a text. -/
def sightedText (name : String) (text : List Char) (place : Nat) (c : Char) : String :=
  name ++ ":" ++ toString (1 + (text.take place).count '\n') ++ " "
    ++ (Opening.ofChar c).label ++ " at " ++ shownInLog c

/-- What is logged of a character that the log shows as it is. -/
theorem logged_sighted {c : Char} (hmin : 0x20 ≤ c.toNat) (hmax : c.toNat < 0x7F)
    (hquote : c ≠ '\x27') (hslash : c ≠ '\\') (name : String) (line : UInt32) :
    logged (.sighted name ⟨line, c⟩) = ("TRACE", name ++ ":" ++ toString line.toNat ++ " "
      ++ (Opening.ofChar c).label ++ " at '" ++ String.singleton c ++ "'") := by
  show ("TRACE", name ++ ":" ++ toString line.toNat ++ " " ++ (Opening.ofChar c).label ++ " at "
    ++ shownInLog c) = _
  rw [shownInLog_of_printable hmin hmax hquote hslash]
  simp only [String.append_assoc]
  rfl

/-- The line in the log has the name, the line number, the class and the character. -/
theorem logged_of_tellsOf {text : List Char} {s : Sighting} {place : Nat} (name : String)
    (h : s.TellsOf text place) (hfew : text.count '\n' < 2 ^ 32 - 1) :
    logged (.sighted name s) = ("TRACE", sightedText name text place s.char) := by
  have hle : (text.take place).count '\n' ≤ text.count '\n' :=
    (List.take_sublist place text).count_le '\n'
  have hline : s.line.toNat = 1 + (text.take place).count '\n' := by
    rw [h.line, UInt32.toNat_ofNat']
    exact Nat.mod_eq_of_lt (by omega)
  rw [sightedText, ← hline]
  rfl

/-- What is logged of sightings is logged of the places they tell of. -/
theorem logged_of_told {text : List Char} {seen : List Sighting} {stops : List Nat}
    (name : String) (h : List.Forall₂ (Sighting.TellsOf text) seen stops)
    (hfew : text.count '\n' < 2 ^ 32 - 1) :
    ∃ places : List (Nat × Char), places.map Prod.fst = stops ∧
      (∀ p ∈ places, text[p.1]? = some p.2 ∧ isBlank p.2 = false ∧ p.2 ≠ ';') ∧
      seen.map (fun s => logged (.sighted name s))
        = places.map (fun p => ("TRACE", sightedText name text p.1 p.2)) := by
  induction h with
  | nil => exact ⟨[], rfl, fun p hp => absurd hp List.not_mem_nil, rfl⟩
  | @cons s stop seen stops hs _ ih =>
    obtain ⟨places, hstops, hplaces, hlogged⟩ := ih
    refine ⟨(stop, s.char) :: places, ?_, fun p hp => ?_, ?_⟩
    · rw [List.map_cons, hstops]
    · rcases List.mem_cons.mp hp with rfl | hp
      · exact ⟨hs.char, hs.solid⟩
      · exact hplaces p hp
    · rw [List.map_cons, List.map_cons, hlogged, logged_of_tellsOf name hs hfew]

/-- What is logged at the end: the line that was reached, if the text was read. -/
def closing (name : String) (line : Nat) : Except ReadError Datum → List (String × String)
  | .ok _ => [("DEBUG", "parsed " ++ name ++ " up to line " ++ toString line)]
  | .error _ => []

/-- The events of a text, as they are logged. -/
theorem logged_readReporting (settings : Settings) (text : String)
    (hfew : text.toList.count '\n' < 2 ^ 32 - 1) :
    (readReporting settings text).events.map logged
      = ("DEBUG", "parsing " ++ settings.name ++ " (" ++ toString text.utf8ByteSize ++ " bytes)")
        :: (endOf (run settings text)).sightings.reverse.map
          (fun s => logged (.sighted settings.name s))
        ++ closing settings.name (1 + text.toList.count '\n')
          (readReporting settings text).result := by
  unfold readReporting
  cases hrun : run settings text with
  | ok d r =>
    rw [← line_of_run hrun hfew]
    simp only [eventsUpTo, List.map_append, List.map_cons, List.map_map, List.map_nil]
    rfl
  | error e r =>
    simp only [eventsUpTo, List.map_cons, List.map_map, closing, List.append_nil]
    rfl

/-- The log of a text begins with its name and its size. For places of the text, one behind the
other, the character there follows, which begins no filler, with its class and the line of the
place. If the text was read, the last line of the text comes at the end. If the text is what is
written for a datum, there are as many places as the datum has parts. -/
theorem readReporting_faithful (settings : Settings) (text : String)
    (hfew : text.toList.count '\n' < 2 ^ 32 - 1) :
    ∃ places : List (Nat × Char),
      (places.map Prod.fst).Pairwise (· < ·) ∧
      (∀ p ∈ places, text.toList[p.1]? = some p.2 ∧ isBlank p.2 = false ∧ p.2 ≠ ';') ∧
      (readReporting settings text).events.map logged
        = ("DEBUG", "parsing " ++ settings.name ++ " (" ++ toString text.utf8ByteSize ++ " bytes)")
          :: places.map (fun p => ("TRACE", sightedText settings.name text.toList p.1 p.2))
          ++ closing settings.name (1 + text.toList.count '\n')
            (readReporting settings text).result ∧
      ∀ v : Datum, v.Every Atom.Writable → v.nest ≤ settings.depth → text = v.text →
        places.length = v.nodes := by
  obtain ⟨stops, htold, horder, _⟩ := (told_of_run settings text).places
  obtain ⟨places, hstops, hplaces, hlogged⟩ := logged_of_told settings.name htold hfew
  refine ⟨places, hstops ▸ horder, hplaces, ?_, fun v hv hdepth htext => ?_⟩
  · rw [logged_readReporting settings text hfew, hlogged]
  · have hlen := congrArg List.length hlogged
    rw [List.length_map, List.length_map, List.length_reverse, htext,
      length_sightings_text hv hdepth] at hlen
    exact hlen.symm

/-- A list of a symbol and the empty list has three parts. In the other text there is a datum of
every class. -/
theorem readReporting_faithful_sample :
    (∃ places : List (Nat × Char), places.length = 3 ∧
      (readReporting {} "(a ())").events.map logged
        = ("DEBUG", "parsing __unknown__ (6 bytes)")
          :: places.map (fun p => ("TRACE", sightedText "__unknown__" "(a ())".toList p.1 p.2))
          ++ [("DEBUG", "parsed __unknown__ up to line 1")]) ∧
    (readReporting {} "(a ())").events.map logged
      = [("DEBUG", "parsing __unknown__ (6 bytes)"), ("TRACE", "__unknown__:1 ListOpen at '('"),
        ("TRACE", "__unknown__:1 Other at 'a'"), ("TRACE", "__unknown__:1 ListOpen at '('"),
        ("DEBUG", "parsed __unknown__ up to line 1")] ∧
    (readReporting ⟨"t", 2⟩ "(#t 'a\n`b ,c +1 \"\" 1 x)").events.map logged
      = [("DEBUG", "parsing t (23 bytes)"), ("TRACE", "t:1 ListOpen at '('"),
        ("TRACE", "t:1 Pound at '#'"), ("TRACE", "t:1 Quote(Quote) at '\\''"),
        ("TRACE", "t:1 Other at 'a'"), ("TRACE", "t:2 Quote(Quasiquote) at '`'"),
        ("TRACE", "t:2 Other at 'b'"), ("TRACE", "t:2 Unquote at ','"),
        ("TRACE", "t:2 Other at 'c'"), ("TRACE", "t:2 Sign at '+'"),
        ("TRACE", "t:2 StringOpen at '\"'"), ("TRACE", "t:2 Digit at '1'"),
        ("TRACE", "t:2 Other at 'x'"), ("DEBUG", "parsed t up to line 2")] := by
  obtain ⟨places, _, _, hlogged, hparts⟩ :=
    readReporting_faithful {} "(a ())" (by decide)
  have hv : (list [.symbol "a", nil]).Every Atom.Writable :=
    ⟨show WritableName "a".toList by decide, trivial, trivial⟩
  have hlist : (readReporting {} "(a ())").events
      = [.reading "__unknown__" 6, .sighted "__unknown__" ⟨1, '('⟩, .sighted "__unknown__" ⟨1, 'a'⟩,
        .sighted "__unknown__" ⟨1, '('⟩, .read "__unknown__" 1] := by decide +kernel
  have hclasses : (readReporting ⟨"t", 2⟩ "(#t 'a\n`b ,c +1 \"\" 1 x)").events
      = [.reading "t" 23, .sighted "t" ⟨1, '('⟩, .sighted "t" ⟨1, '#'⟩, .sighted "t" ⟨1, '\x27'⟩,
        .sighted "t" ⟨1, 'a'⟩, .sighted "t" ⟨2, '\x60'⟩, .sighted "t" ⟨2, 'b'⟩,
        .sighted "t" ⟨2, ','⟩, .sighted "t" ⟨2, 'c'⟩, .sighted "t" ⟨2, '+'⟩,
        .sighted "t" ⟨2, '\x22'⟩, .sighted "t" ⟨2, '1'⟩, .sighted "t" ⟨2, 'x'⟩, .read "t" 2] := by
    decide +kernel
  have hmark : logged (.sighted "t" ⟨1, '\x27'⟩) = ("TRACE", "t:1 Quote(Quote) at '\\''") := by rfl
  refine ⟨⟨places, hparts _ hv (by decide) rfl, hlogged⟩, ?_, ?_⟩
  · rw [hlist]
    simp (disch := decide) only [List.map_cons, List.map_nil, logged_sighted]
    rfl
  · rw [hclasses]
    simp (disch := decide) only [List.map_cons, List.map_nil, hmark, logged_sighted]
    rfl

end Datum

end Sexpr
