import Sexpr.Proofs.Reader.Numerals

/-!
# Progress

Every reader moves forward only, and a datum that was read took at least one character.
So a list never runs out of turns: how many it is given does not matter as long as they
are no fewer than the characters ahead, and its recursion can be stated without them.

> `forward_datum`: a reader ends at a place that moving forward leads to.
> `shortens_datum`: less text is ahead after a datum than before it.
> `restOf_close`, `restOf_dot`, `restOf_item`: a list read on from any place.
-/

namespace Sexpr

/-! ## Forward only -/

namespace Scan

/-- Scanning a number passes characters and never goes back. -/
theorem forward_unsigned : Forward unsigned := by
  unfold unsigned
  refine forward_bind (forward_takeWhile _) fun whole => ?_
  refine forward_bind (forward_accept _) fun b => ?_
  split
  · refine forward_bind (forward_takeWhile _) fun fraction => ?_
    split
    · exact forward_throw _
    · exact forward_pure _
  · split
    · exact forward_pure _
    · exact forward_pure _

/-- A slash and the divisor behind it are passed, or nothing is. -/
theorem forward_quotient (base : Number) : Forward (quotient base) := by
  unfold quotient
  refine forward_bind (forward_accept _) fun b => ?_
  split
  · refine forward_bind forward_unsigned fun divisor => ?_
    split
    · exact forward_throw _
    · split
      · exact forward_throw _
      · exact forward_pure _
  · exact forward_pure _

theorem forward_sign : Forward sign := by
  unfold sign
  refine forward_bind (forward_accept _) fun negative => ?_
  exact forward_bind (forward_accept _) fun _ => forward_pure _

/-- A sign, a number and the unit are passed one behind the other. -/
theorem forward_imaginary (base : Number) : Forward (imaginary base) := by
  unfold imaginary
  refine forward_bind forward_sign fun negative => ?_
  refine forward_bind forward_unsigned fun magnitude => ?_
  refine forward_bind (forward_accept _) fun b => ?_
  split
  · exact forward_pure _
  · exact forward_bind forward_peek fun _ => forward_throw _

theorem forward_imaginaryIfSigned (base : Number) : Forward (imaginaryIfSigned base) := by
  unfold imaginaryIfSigned
  refine forward_bind forward_peek fun found => ?_
  split
  · exact forward_imaginary base
  · exact forward_imaginary base
  · exact forward_pure _

/-- The parts of a number are passed in their order. -/
theorem forward_numeral : Forward numeral := by
  unfold numeral
  refine forward_bind forward_sign fun negative => ?_
  refine forward_bind forward_unsigned fun base => ?_
  split
  · exact forward_throw _
  · refine forward_bind (forward_quotient _) fun value => ?_
    exact forward_bind (forward_imaginaryIfSigned _) fun _ => forward_pure _

/-- The number sign and one character are passed, if it is a token. -/
theorem forward_hashToken : Forward hashToken := by
  unfold hashToken
  refine forward_bind (forward_peekAt 1) fun found => ?_
  split
  · exact forward_bind (forward_advance 2) fun _ => forward_pure _
  · exact forward_bind (forward_advance 2) fun _ => forward_pure _
  · exact forward_throw _
  · exact forward_throw _

/-- A symbol is passed to its end. -/
theorem forward_symbolToken : Forward symbolToken := by
  unfold symbolToken
  refine forward_bind forward_peek fun first => ?_
  refine forward_bind (forward_advance 1) fun _ => ?_
  exact forward_bind (forward_takeWhile _) fun _ => forward_pure _

/-- A string is passed to its closing quote. -/
theorem forward_stringToken : Forward stringToken := by
  unfold stringToken
  refine forward_bind (forward_advance 1) fun _ => ?_
  refine forward_bind forward_stringBody fun text => ?_
  refine forward_bind (forward_accept _) fun b => ?_
  split
  · exact forward_pure _
  · exact forward_throw _

end Scan

namespace Reader

theorem forward_note (c : Char) : Forward (note c) :=
  fun r => Cursor.passes_refl r.cursor

/-- A list is closed at the parenthesis ahead, which is passed. -/
theorem forward_closeList (done : List Datum) (tail : Datum) : Forward (closeList done tail) := by
  unfold closeList
  refine forward_bind (forward_scan (Scan.forward_accept _)) fun b => ?_
  split
  · exact forward_pure _
  · exact forward_bind (forward_scan Scan.forward_peek) fun _ => forward_throw _

section

variable {item : Reader Datum} (hitem : Forward item)
include hitem

/-- The dot, the tail and the parenthesis are passed if reading data moves forward. -/
theorem forward_dottedTail (done : List Datum) : Forward (dottedTail item done) := by
  unfold dottedTail
  split
  · exact forward_throw _
  · refine forward_bind (forward_scan (Scan.forward_advance 1)) fun _ => ?_
    refine forward_bind (forward_scan Scan.forward_filler) fun _ => ?_
    refine forward_bind (forward_scan Scan.forward_peek) fun found => ?_
    split
    · exact forward_throw _
    · refine forward_bind hitem fun tail => ?_
      exact forward_bind (forward_scan Scan.forward_filler) fun _ => forward_closeList _ _

/-- Along the characters that bound the recursion: every item moves the place forward. -/
theorem forward_listRest (clock : List Char) (done : List Datum) :
    Forward (listRest item clock done) := by
  induction clock generalizing done with
  | nil => exact forward_closeList done .nil
  | cons _ clock ih =>
    unfold listRest
    refine forward_bind (forward_scan Scan.forward_filler) fun _ => ?_
    refine forward_bind forward_get fun r => ?_
    split
    · exact forward_closeList done .nil
    · exact forward_dottedTail hitem done
    · exact forward_bind hitem fun d => ih (d :: done)

/-- A list is passed if its items are. -/
theorem forward_list : Forward (list item) := by
  unfold list
  refine forward_bind (forward_scan (Scan.forward_advance 1)) fun _ => ?_
  exact forward_bind forward_get fun r => forward_listRest hitem _ _

theorem forward_abbreviated (a : Abbreviation) : Forward (abbreviated a item) := by
  unfold abbreviated
  refine forward_bind (forward_scan (Scan.forward_advance 1)) fun _ => ?_
  exact forward_bind hitem fun _ => forward_pure _

/-- The comma, an at sign and the datum behind them are passed. -/
theorem forward_unquoted : Forward (unquoted item) := by
  unfold unquoted
  refine forward_bind (forward_scan (Scan.forward_advance 1)) fun _ => ?_
  refine forward_bind (forward_scan (Scan.forward_accept _)) fun b => ?_
  split
  · exact forward_bind hitem fun _ => forward_pure _
  · exact forward_bind hitem fun _ => forward_pure _

end

theorem forward_atom {token : Scan Atom} (ht : Forward token) : Forward (atom token) := by
  unfold atom
  exact forward_bind (forward_scan ht) fun _ => forward_pure _

theorem forward_number : Forward (number Scan.numeral) := by
  unfold number
  exact forward_bind (forward_scan Scan.forward_numeral) fun _ => forward_pure _

/-- A form moves forward if it does so for every reader of its parts. -/
theorem forward_nested {inner : Option (Reader Datum)} {form : Reader Datum → Reader Datum}
    (hinner : ∀ item ∈ inner, Forward item) (hform : ∀ item, Forward item → Forward (form item)) :
    Forward (nested inner form) := by
  unfold nested
  split
  · exact forward_throw _
  · next item => exact hform item (hinner item rfl)

/-- Every form of a datum moves forward if its parts do. -/
theorem forward_form {inner : Option (Reader Datum)} (hinner : ∀ item ∈ inner, Forward item)
    (o : Opening) : Forward (form inner o) := by
  cases o with
  | hash => exact forward_atom Scan.forward_hashToken
  | list => exact forward_nested hinner fun _ h => forward_list h
  | quote => exact forward_nested hinner fun _ h => forward_abbreviated h .quote
  | quasiquote => exact forward_nested hinner fun _ h => forward_abbreviated h .quasiquote
  | unquote => exact forward_nested hinner fun _ h => forward_unquoted h
  | sign =>
    refine forward_bind (forward_scan (Scan.forward_peekAt 1)) fun found => ?_
    split
    · exact forward_number
    · exact forward_atom Scan.forward_symbolToken
  | string => exact forward_atom Scan.forward_stringToken
  | digit => exact forward_number
  | other => exact forward_atom Scan.forward_symbolToken

/-- Filler is passed and then the datum. -/
theorem forward_datumWith {inner : Option (Reader Datum)}
    (hinner : ∀ item ∈ inner, Forward item) : Forward (datumWith inner) := by
  unfold datumWith
  refine forward_bind (forward_scan Scan.forward_filler) fun _ => ?_
  refine forward_bind (forward_scan Scan.forward_peek) fun found => ?_
  split
  · exact forward_throw _
  · exact forward_bind (forward_note _) fun _ => forward_form hinner _

/-- By induction on the depth, reading a datum moves forward. -/
theorem forward_datum (depth : Nat) : Forward (datum depth) := by
  induction depth with
  | zero => exact forward_datumWith fun _ h => absurd h (by simp)
  | succ depth ih =>
    refine forward_datumWith fun item h => ?_
    rw [← Option.some.inj h]
    exact ih

/-- Reading a whole text moves forward, up to its end or to an error. -/
theorem forward_onlyDatum (depth : Nat) : Forward (onlyDatum depth) := by
  unfold onlyDatum
  refine forward_bind (forward_datum depth) fun d => ?_
  refine forward_bind (forward_scan Scan.forward_filler) fun _ => ?_
  refine forward_bind (forward_scan Scan.forward_peek) fun found => ?_
  split
  · exact forward_pure _
  · exact forward_throw _

end Reader

/-! ## At least one character -/

/-- Less text is ahead after a success than before it. -/
def Shortens {σ α : Type} [Place σ] (m : EStateM Cause σ α) (r : σ) : Prop :=
  ∀ a r', m r = .ok a r' → (Place.ahead r').length < (Place.ahead r).length

namespace Scan

/-- A scanner that passes characters first leaves less ahead, if there are any. -/
theorem shorter_of_advance {α : Type} {n : Nat} {f : Unit → Scan α} {c : Cursor}
    (hf : ∀ a, Forward (f a)) (hne : c.ahead ≠ []) : Shortens (advance (n + 1) >>= f) c := by
  intro a c' h
  rw [bind_of_ok (advance_run _ c)] at h
  have hle := ((hf ()).ok h).length_le
  have hpos := List.length_pos_iff.mpr hne
  show c'.ahead.length < c.ahead.length
  have hlen : (c.advanceBy (n + 1)).ahead.length = c.ahead.length - (n + 1) := by
    rw [Cursor.ahead_advanceBy, List.length_drop]
  change c'.ahead.length ≤ (c.advanceBy (n + 1)).ahead.length at hle
  omega

/-- An unsigned number takes at least one character. -/
theorem shorter_of_unsigned {c c' : Cursor} {n : Number} (h : unsigned c = .ok (some n) c') :
    c'.ahead.length < c.ahead.length := by
  have hrun := unsigned_run c
  rw [h] at hrun
  cases hrun with
  | some hn hpass _ _ =>
    have hpos := List.length_pos_iff.mpr hn.ne_nil
    rw [hpass.ahead, List.length_append]
    omega

/-- A number takes at least one digit or a point. -/
theorem shortens_numeral (c : Cursor) : Shortens numeral c := by
  intro n c' h
  obtain ⟨negative, c₁, hs, h⟩ := ok_of_bind h
  have hle₁ := (forward_sign.ok hs).length_le
  obtain ⟨base, c₂, hu, h⟩ := ok_of_bind h
  cases base with
  | none => exact (ok_of_throw h).elim
  | some base =>
    have hlt₂ := shorter_of_unsigned hu
    obtain ⟨value, c₃, hq, h⟩ := ok_of_bind h
    have hle₃ := ((forward_quotient base).ok hq).length_le
    obtain ⟨value', c₄, hi, h⟩ := ok_of_bind h
    have hle₄ := ((forward_imaginaryIfSigned value).ok hi).length_le
    rw [← (ok_of_pure h).2]
    change c₁.ahead.length ≤ c.ahead.length at hle₁
    change c₃.ahead.length ≤ c₂.ahead.length at hle₃
    change c₄.ahead.length ≤ c₃.ahead.length at hle₄
    show c₄.ahead.length < c.ahead.length
    omega

theorem shortens_hashToken {c : Cursor} (hne : c.ahead ≠ []) : Shortens hashToken c := by
  intro a c' h
  obtain ⟨found, c₁, hp, h⟩ := ok_of_bind h
  rw [peekAt_run] at hp
  injection hp with _ hc₁
  subst hc₁
  split at h
  · exact shorter_of_advance (fun _ => forward_pure _) hne _ _ h
  · exact shorter_of_advance (fun _ => forward_pure _) hne _ _ h
  · exact (ok_of_throw h).elim
  · exact (ok_of_throw h).elim

/-- A symbol takes at least its first character, whatever it is. -/
theorem shortens_symbolToken {c : Cursor} (hne : c.ahead ≠ []) : Shortens symbolToken c := by
  intro a c' h
  obtain ⟨first, c₁, hp, h⟩ := ok_of_bind h
  rw [peek_run] at hp
  injection hp with _ hc₁
  subst hc₁
  exact shorter_of_advance
    (fun _ => forward_bind (forward_takeWhile _) fun _ => forward_pure _) hne _ _ h

/-- A string takes at least the quote it begins with. -/
theorem shortens_stringToken {c : Cursor} (hne : c.ahead ≠ []) : Shortens stringToken c := by
  refine shorter_of_advance (fun _ => forward_bind forward_stringBody fun text => ?_) hne
  refine forward_bind (forward_accept _) fun b => ?_
  split
  · exact forward_pure _
  · exact forward_throw _

end Scan

namespace Reader

/-- In a reading a scanner leaves less ahead if it does so on the cursor. -/
theorem shortens_scan {α : Type} {step : Scan α} {r : Reading} (hs : Shortens step r.cursor) :
    Shortens (scan step) r :=
  fun a r' h => hs a r'.cursor (ok_of_scan h).1

/-- What follows a step that leaves less ahead adds nothing to it. -/
theorem shortens_of_bind {α β : Type} {x : Reader α} {f : α → Reader β} {r : Reading}
    (hx : Shortens x r) (hf : ∀ a, Forward (f a)) : Shortens (x >>= f) r := by
  intro b r' h
  obtain ⟨a, r₁, h₁, h₂⟩ := ok_of_bind h
  have hle := ((hf a).ok h₂).length_le
  exact Nat.lt_of_le_of_lt hle (hx a r₁ h₁)

theorem shortens_advance {r : Reading} (hne : r.cursor.ahead ≠ []) :
    Shortens (scan (Scan.advance 1)) r := by
  refine shortens_scan fun _ c h => ?_
  rw [Scan.advance_run] at h
  injection h with _ hc
  have hpos := List.length_pos_iff.mpr hne
  show c.ahead.length < r.cursor.ahead.length
  rw [← hc, Cursor.ahead_advanceBy, List.length_drop]
  omega

/-- A form leaves less ahead if it does so for every reader of its parts. -/
theorem shortens_nested {inner : Option (Reader Datum)} {form : Reader Datum → Reader Datum}
    {r : Reading} (hform : ∀ item ∈ inner, Shortens (form item) r) :
    Shortens (nested inner form) r := by
  unfold nested
  split
  · exact fun _ _ h => (ok_of_throw h).elim
  · next item => exact hform item rfl

/-- Every form of a datum takes at least its first character. -/
theorem shortens_form {inner : Option (Reader Datum)} (hinner : ∀ item ∈ inner, Forward item)
    (o : Opening) {r : Reading} (hne : r.cursor.ahead ≠ []) : Shortens (form inner o) r := by
  have hadv := shortens_advance hne
  have hnum : Shortens (number Scan.numeral) r :=
    shortens_of_bind (shortens_scan (Scan.shortens_numeral _)) fun _ => forward_pure _
  have hsym : Shortens (atom Scan.symbolToken) r :=
    shortens_of_bind (shortens_scan (Scan.shortens_symbolToken hne)) fun _ => forward_pure _
  cases o with
  | hash =>
    exact shortens_of_bind (shortens_scan (Scan.shortens_hashToken hne)) fun _ => forward_pure _
  | list =>
    refine shortens_nested fun item hi => shortens_of_bind hadv fun _ => ?_
    exact forward_bind forward_get fun _ => forward_listRest (hinner item hi) _ _
  | quote =>
    refine shortens_nested fun item hi => shortens_of_bind hadv fun _ => ?_
    exact forward_bind (hinner item hi) fun _ => forward_pure _
  | quasiquote =>
    refine shortens_nested fun item hi => shortens_of_bind hadv fun _ => ?_
    exact forward_bind (hinner item hi) fun _ => forward_pure _
  | unquote =>
    refine shortens_nested fun item hi => shortens_of_bind hadv fun _ => ?_
    refine forward_bind (forward_scan (Scan.forward_accept _)) fun b => ?_
    split
    · exact forward_bind (hinner item hi) fun _ => forward_pure _
    · exact forward_bind (hinner item hi) fun _ => forward_pure _
  | sign =>
    intro d r' h
    obtain ⟨found, r₁, hp, h⟩ := ok_of_bind h
    obtain ⟨hp, hr₁⟩ := ok_of_scan hp
    injection hp with _ hc
    rw [← hc] at hr₁
    subst hr₁
    split at h
    · exact hnum d r' h
    · exact hsym d r' h
  | string =>
    exact shortens_of_bind (shortens_scan (Scan.shortens_stringToken hne)) fun _ => forward_pure _
  | digit => exact hnum
  | other => exact hsym

end Reader

/-! ## Where a datum begins -/

/-- No digit is a mark of another class. -/
theorem ofChar_of_isDigit {d : Char} (hd : d.isDigit = true) : Opening.ofChar d = .digit := by
  unfold Opening.ofChar
  split
  all_goals first
    | exact absurd hd (by decide)
    | exact if_pos hd

namespace Reading

/-- The place after the filler in front. -/
def skipFiller (r : Reading) : Reading :=
  { r with cursor := r.cursor.skipFiller }

/-- The place `n` characters further. -/
def advanceBy (r : Reading) (n : Nat) : Reading :=
  { r with cursor := r.cursor.advanceBy n }

/-- The first character of a datum has been noted. -/
def noted (r : Reading) (c : Char) : Reading :=
  { r with sightings := { line := r.cursor.line, char := c } :: r.sightings }

end Reading

namespace Reader

theorem filler_run (r : Reading) : scan Scan.filler r = .ok () r.skipFiller := rfl

theorem advance_run (n : Nat) (r : Reading) :
    scan (Scan.advance n) r = .ok () (r.advanceBy n) := rfl

theorem peek_run (r : Reading) : scan Scan.peek r = .ok r.cursor.ahead.head? r := rfl

theorem note_run (c : Char) (r : Reading) : note c r = .ok () (r.noted c) := rfl

/-- At the end of the text a list is not closed. -/
theorem closeList_of_ahead_nil (done : List Datum) (tail : Datum) {r : Reading}
    (h : r.cursor.ahead = []) :
    closeList done tail r = .error (.unclosedList none) r := by
  have haccept : scan (Scan.accept ')') r = .ok false r :=
    scan_of_ok (Scan.accept_of_ne (by rw [h]; simp))
  unfold closeList
  rw [bind_of_ok haccept, if_neg Bool.false_ne_true, bind_of_ok (peek_run r), h]
  rfl

/-- Passing one character leaves what is behind it. -/
theorem ahead_advanceBy_one {r : Reading} {x : Char} {run : List Char}
    (h : r.cursor.ahead = x :: run) :
    (r.advanceBy 1).cursor.ahead = run := by
  show (r.cursor.advanceBy 1).ahead = run
  rw [Cursor.ahead_advanceBy, h, List.drop_one, List.tail_cons]

/-- No filler stands before a token. -/
theorem skipFiller_of_solid {r : Reading} {x : Char} {rest : List Char}
    (h : r.cursor.ahead = x :: rest) (hblank : isBlank x = false) (hsemi : x ≠ ';') :
    r.skipFiller = r := by
  have hwidth : fillerWidth false 0 (x :: rest) = 0 := by
    rw [fillerWidth, if_neg Bool.false_ne_true, if_neg (by simp [hblank]), if_neg hsemi]
  show ({ r with cursor := r.cursor.advanceBy (fillerWidth false 0 r.cursor.ahead) } : Reading) = r
  rw [h, hwidth]
  rfl

/-- A character that begins no filler is still there behind the filler. -/
theorem ahead_skipFiller_of_solid {r : Reading} {x : Char} {rest : List Char}
    (h : r.cursor.ahead = x :: rest) (hblank : isBlank x = false) (hsemi : x ≠ ';') :
    r.skipFiller.cursor.ahead = x :: rest := by
  rw [skipFiller_of_solid h hblank hsemi, h]

/-- The first character behind the filler begins no filler. -/
theorem solid_of_ahead {r : Reading} {x : Char} {rest : List Char}
    (h : r.skipFiller.cursor.ahead = x :: rest) : isBlank x = false ∧ x ≠ ';' :=
  head_dropFiller ((Cursor.ahead_skipFiller r.cursor).symm.trans h)

/-- At the parenthesis the list is closed, with its items in front of its tail. -/
theorem closeList_of_close (done : List Datum) (tail : Datum) {r : Reading} {rest : List Char}
    (h : r.cursor.ahead = ')' :: rest) :
    closeList done tail r
      = .ok (done.foldl (fun rest first => .pair first rest) tail) (r.advanceBy 1) := by
  have haccept : scan (Scan.accept ')') r = .ok true (r.advanceBy 1) :=
    scan_of_ok (Scan.accept_of_head h)
  unfold closeList
  rw [bind_of_ok haccept, if_pos rfl]
  rfl

/-- A list that is not closed is one whose next character is not the closing one. -/
theorem error_of_closeList {done : List Datum} {tail : Datum} {r r' : Reading} {e : Cause}
    (h : closeList done tail r = .error e r') :
    e = .unclosedList r.cursor.ahead.head? ∧ r' = r := by
  by_cases hclose : r.cursor.ahead.head? = some ')'
  · obtain ⟨rest, hahead⟩ := List.head?_eq_some_iff.mp hclose
    exact absurd ((closeList_of_close done tail hahead).symm.trans h) (by simp)
  · have haccept : scan (Scan.accept ')') r = .ok false r :=
      scan_of_ok (Scan.accept_of_ne hclose)
    unfold closeList at h
    rw [bind_of_ok haccept, if_neg Bool.false_ne_true, bind_of_ok (peek_run r)] at h
    obtain ⟨he, hr⟩ := error_of_throw h
    exact ⟨he.symm, hr.symm⟩

/-- Whatever the depth, a datum is read in one way, and only its parts depend on it. -/
theorem exists_datumWith (depth : Nat) : ∃ inner, datum depth = datumWith inner := by
  cases depth with
  | zero => exact ⟨none, rfl⟩
  | succ depth => exact ⟨some (datum depth), rfl⟩

/-- Without anything but filler there is no datum. -/
theorem datumWith_nil {inner : Option (Reader Datum)} {r : Reading}
    (h : r.skipFiller.cursor.ahead = []) :
    datumWith inner r = .error .nothingToRead r.skipFiller := by
  unfold datumWith
  rw [bind_of_ok (filler_run r), bind_of_ok (peek_run _), h]
  rfl

/-- At the end of a text there is nothing to read, whatever the depth. -/
theorem datum_nil {depth : Nat} {r : Reading} (h : r.skipFiller.cursor.ahead = []) :
    datum depth r = .error .nothingToRead r.skipFiller := by
  obtain ⟨inner, hinner⟩ := exists_datumWith depth
  rw [hinner]
  exact datumWith_nil h

/-- The first character behind the filler is noted and decides the form. -/
theorem datumWith_cons {inner : Option (Reader Datum)} {r : Reading} {c : Char}
    {rest : List Char} (h : r.skipFiller.cursor.ahead = c :: rest) :
    datumWith inner r = form inner (.ofChar c) (r.skipFiller.noted c) := by
  unfold datumWith
  rw [bind_of_ok (filler_run r), bind_of_ok (peek_run _), h]
  exact bind_of_ok (note_run c _)

/-- Behind a sign the next character decides. -/
theorem form_sign {inner : Option (Reader Datum)} {r : Reading} {x : Char}
    {run : List Char} (h : r.cursor.ahead = x :: run) :
    form inner .sign r = (if run.head?.any Char.isDigit then number Scan.numeral
      else atom Scan.symbolToken) r := by
  refine (bind_of_ok (scan_of_ok (Scan.peekAt_run 1 r.cursor))).trans ?_
  rw [Cursor.peekAt?, h, List.getElem?_cons_succ, List.head?_eq_getElem?]

/-- A datum takes at least its first character, behind the filler. -/
theorem shortens_datumWith {inner : Option (Reader Datum)}
    (hinner : ∀ item ∈ inner, Forward item) (r : Reading) : Shortens (datumWith inner) r := by
  intro d r' h
  have hle : r.skipFiller.cursor.ahead.length ≤ r.cursor.ahead.length :=
    r.cursor.passes_skipFiller.length_le
  cases hahead : r.skipFiller.cursor.ahead with
  | nil =>
    rw [datumWith_nil hahead] at h
    exact absurd h (by simp)
  | cons c rest =>
    rw [datumWith_cons hahead] at h
    have hne : (r.skipFiller.noted c).cursor.ahead ≠ [] := by
      show r.skipFiller.cursor.ahead ≠ []
      rw [hahead]
      exact List.cons_ne_nil c rest
    exact Nat.lt_of_lt_of_le (shortens_form hinner _ hne d r' h) hle

/-- A datum takes at least one character. -/
theorem shortens_datum (depth : Nat) (r : Reading) : Shortens (datum depth) r := by
  cases depth with
  | zero => exact shortens_datumWith (fun _ h => absurd h (by simp)) r
  | succ depth =>
    refine shortens_datumWith (fun item h => ?_) r
    rw [← Option.some.inj h]
    exact forward_datum depth

/-- A datum that ends the text is the only one. -/
theorem onlyDatum_of_end {depth : Nat} {d : Datum} {r r' : Reading} (h : datum depth r = .ok d r')
    (hend : r'.skipFiller.cursor.ahead = []) : onlyDatum depth r = .ok d r'.skipFiller := by
  unfold onlyDatum
  rw [bind_of_ok h, bind_of_ok (filler_run r'), bind_of_ok (peek_run _), hend]
  rfl

/-- With something behind the datum the text is not read. -/
theorem onlyDatum_of_trailing {depth : Nat} {d : Datum} {r r' : Reading} {x : Char}
    {rest : List Char} (h : datum depth r = .ok d r')
    (hnext : r'.skipFiller.cursor.ahead = x :: rest) :
    onlyDatum depth r = .error (.trailingContent x) r'.skipFiller := by
  unfold onlyDatum
  rw [bind_of_ok h, bind_of_ok (filler_run r'), bind_of_ok (peek_run _), hnext]
  rfl

/-- The only datum of a text is a datum that ends it. -/
theorem datum_of_onlyDatum {depth : Nat} {d : Datum} {r r' : Reading}
    (h : onlyDatum depth r = .ok d r') :
    ∃ r₁, datum depth r = .ok d r₁ ∧ r₁.skipFiller.cursor.ahead = [] := by
  obtain ⟨d', r₁, hd, hrest⟩ := ok_of_bind h
  rw [bind_of_ok (filler_run r₁), bind_of_ok (peek_run _)] at hrest
  cases hahead : r₁.skipFiller.cursor.ahead with
  | cons c rest =>
    rw [hahead] at hrest
    exact (ok_of_throw hrest).elim
  | nil =>
    rw [hahead] at hrest
    obtain ⟨rfl, _⟩ := ok_of_pure hrest
    exact ⟨r₁, hd, hahead⟩

/-- Behind the dot of a list there is a datum and then the end of the list. -/
theorem dottedTail_run (item : Reader Datum) {done : List Datum} (hdone : done.isEmpty = false)
    (r : Reading) :
    dottedTail item done r =
      (if (r.advanceBy 1).skipFiller.cursor.ahead.head? = some ')' then
        throw .missingItemAfterDot
      else do
        let tail ← item
        scan Scan.filler
        closeList done tail : Reader Datum) (r.advanceBy 1).skipFiller := by
  unfold dottedTail
  rw [hdone, if_neg Bool.false_ne_true, bind_of_ok (advance_run 1 r), bind_of_ok (filler_run _),
    bind_of_ok (peek_run _)]

/-! ## Lists without turns -/

/-- The rest of a list, with as many turns as there are characters ahead. -/
def restOf (item : Reader Datum) (done : List Datum) : Reader Datum := fun r =>
  listRest item r.cursor.ahead done r

theorem list_eq (item : Reader Datum) (r : Reading) :
    list item r = restOf item [] (r.advanceBy 1) := rfl

/-- Without depth a list is not even opened. -/
theorem datum_open_zero {r : Reading} {run : List Char}
    (h : r.skipFiller.cursor.ahead = '(' :: run) : ∃ r', datum 0 r = .error .nestingTooDeep r' :=
  ⟨_, datumWith_cons h⟩

/-- A list takes one level of depth. -/
theorem datum_open (depth : Nat) {r : Reading} {run : List Char}
    (h : r.skipFiller.cursor.ahead = '(' :: run) :
    ∃ r₁ : Reading, r₁.cursor.ahead = run ∧ datum (depth + 1) r = restOf (datum depth) [] r₁ :=
  ⟨(r.skipFiller.noted '(').advanceBy 1, ahead_advanceBy_one h, datumWith_cons h⟩

section

variable {item : Reader Datum}

/-- One turn of a list, as the text behind the filler decides it. -/
theorem listRest_turn (x : Char) (clock : List Char) (done : List Datum) (r : Reading) :
    listRest item (x :: clock) done r =
      (match ListStep.ofAhead r.skipFiller.cursor.ahead with
      | .close => closeList done .nil
      | .dot => dottedTail item done
      | .item => item >>= fun d => listRest item clock (d :: done)) r.skipFiller := by
  rw [listRest, bind_of_ok (filler_run r)]
  rfl

/-- At the end of a text there is no filler to pass. -/
theorem skipFiller_of_ahead_nil {r : Reading} (h : r.cursor.ahead = []) : r.skipFiller = r := by
  show ({ r with cursor := r.cursor.advanceBy (fillerWidth false 0 r.cursor.ahead) } : Reading) = r
  rw [h]
  rfl

/-- Passing filler twice is passing it once. -/
theorem skipFiller_skipFiller (r : Reading) : r.skipFiller.skipFiller = r.skipFiller := by
  cases hahead : r.skipFiller.cursor.ahead with
  | nil => exact skipFiller_of_ahead_nil hahead
  | cons x rest =>
    obtain ⟨hblank, hsemi⟩ := solid_of_ahead hahead
    exact skipFiller_of_solid hahead hblank hsemi

/-- Filler in front of a datum makes no difference. -/
theorem datumWith_skipFiller (inner : Option (Reader Datum)) (r : Reading) :
    datumWith inner r.skipFiller = datumWith inner r := by
  cases hahead : r.skipFiller.cursor.ahead with
  | nil =>
    have hskip : r.skipFiller.skipFiller.cursor.ahead = [] := by rw [skipFiller_skipFiller, hahead]
    rw [datumWith_nil hahead, datumWith_nil hskip, skipFiller_skipFiller]
  | cons x rest =>
    have hskip : r.skipFiller.skipFiller.cursor.ahead = x :: rest := by
      rw [skipFiller_skipFiller, hahead]
    rw [datumWith_cons hahead, datumWith_cons hskip, skipFiller_skipFiller]

/-- Reading a datum passes the filler in front of it, so it may be passed before. -/
theorem datum_skipFiller (depth : Nat) (r : Reading) :
    datum depth r.skipFiller = datum depth r := by
  obtain ⟨inner, hinner⟩ := exists_datumWith depth
  rw [hinner]
  exact datumWith_skipFiller inner r

/-- At the end of a text a list is not closed. -/
theorem listRest_of_ahead_nil (clock : List Char) (done : List Datum) {r : Reading}
    (h : r.cursor.ahead = []) : listRest item clock done r = closeList done .nil r := by
  cases clock with
  | nil => rfl
  | cons x clock =>
    rw [listRest_turn, skipFiller_of_ahead_nil h, h]
    rfl

/-- Turns beyond the characters ahead make no difference. -/
theorem listRest_clock (hitem : ∀ r, Shortens item r) {clock clock' : List Char}
    {done : List Datum} {r : Reading} (h : r.cursor.ahead.length ≤ clock.length)
    (h' : r.cursor.ahead.length ≤ clock'.length) :
    listRest item clock done r = listRest item clock' done r := by
  -- by induction on the turns; an item leaves fewer characters than turns, as before
  induction clock generalizing clock' done r with
  | nil =>
    have hnil : r.cursor.ahead = [] := List.length_eq_zero_iff.mp (Nat.le_zero.mp h)
    rw [listRest_of_ahead_nil _ _ hnil, listRest_of_ahead_nil _ _ hnil]
  | cons x clock ih =>
    cases clock' with
    | nil =>
      have hnil : r.cursor.ahead = [] := List.length_eq_zero_iff.mp (Nat.le_zero.mp h')
      rw [listRest_of_ahead_nil _ _ hnil, listRest_of_ahead_nil _ _ hnil]
    | cons y clock' =>
      rw [listRest_turn, listRest_turn]
      cases ListStep.ofAhead r.skipFiller.cursor.ahead with
      | close => rfl
      | dot => rfl
      | item =>
        show (item >>= fun d => listRest item clock (d :: done)) r.skipFiller
          = (item >>= fun d => listRest item clock' (d :: done)) r.skipFiller
        cases hi : item r.skipFiller with
        | error e r₂ => rw [bind_of_error hi, bind_of_error hi]
        | ok d r₂ =>
          have hlt := hitem _ d r₂ hi
          have hle := r.cursor.passes_skipFiller.length_le
          change r₂.cursor.ahead.length < r.cursor.skipFiller.ahead.length at hlt
          rw [List.length_cons] at h h'
          rw [bind_of_ok hi, bind_of_ok hi]
          exact ih (by omega) (by omega)

variable {done : List Datum} {r : Reading}

/-- At a parenthesis the list ends. -/
theorem restOf_close (h : ListStep.ofAhead r.skipFiller.cursor.ahead = .close) :
    restOf item done r = closeList done .nil r.skipFiller := by
  unfold restOf
  cases hahead : r.cursor.ahead with
  | nil => rw [listRest_of_ahead_nil _ _ hahead, skipFiller_of_ahead_nil hahead]
  | cons x clock => rw [listRest_turn, h]

/-- With a dot or an item ahead there is a character ahead. -/
theorem ahead_ne_nil_of_step (h : ListStep.ofAhead r.skipFiller.cursor.ahead ≠ .close) :
    ∃ x clock, r.cursor.ahead = x :: clock := by
  cases hahead : r.cursor.ahead with
  | nil =>
    rw [skipFiller_of_ahead_nil hahead, hahead] at h
    exact absurd rfl h
  | cons x clock => exact ⟨x, clock, rfl⟩

/-- At a dot the tail of the list follows. -/
theorem restOf_dot (h : ListStep.ofAhead r.skipFiller.cursor.ahead = .dot) :
    restOf item done r = dottedTail item done r.skipFiller := by
  obtain ⟨x, clock, hahead⟩ := ahead_ne_nil_of_step (r := r) (by rw [h]; decide)
  unfold restOf
  rw [hahead, listRest_turn, h]

/-- Anywhere else an item follows, and then the rest of the list. -/
theorem restOf_item (hitem : ∀ r, Shortens item r)
    (h : ListStep.ofAhead r.skipFiller.cursor.ahead = .item) :
    restOf item done r = (item >>= fun d => restOf item (d :: done)) r.skipFiller := by
  obtain ⟨x, clock, hahead⟩ := ahead_ne_nil_of_step (r := r) (by rw [h]; decide)
  have hturn : restOf item done r
      = (item >>= fun d => listRest item clock (d :: done)) r.skipFiller := by
    show listRest item r.cursor.ahead done r = _
    rw [hahead, listRest_turn, h]
  rw [hturn]
  cases hi : item r.skipFiller with
  | error e r₂ => rw [bind_of_error hi, bind_of_error hi]
  | ok d r₂ =>
    have hlt := hitem _ d r₂ hi
    have hle := r.cursor.passes_skipFiller.length_le
    change r₂.cursor.ahead.length < r.cursor.skipFiller.ahead.length at hlt
    rw [hahead, List.length_cons] at hle
    rw [bind_of_ok hi, bind_of_ok hi]
    exact listRest_clock hitem (by omega) (Nat.le_refl _)

/-- What holds of a list from any place on: an item leaves less text ahead, so the rest of
the list behind it is the smaller case. -/
theorem restOf_induct (hitem : ∀ r, Shortens item r)
    {motive : List Datum → Reading → Prop}
    (close : ∀ done r, ListStep.ofAhead r.skipFiller.cursor.ahead = .close → motive done r)
    (dot : ∀ done r, ListStep.ofAhead r.skipFiller.cursor.ahead = .dot → motive done r)
    (next : ∀ done r, ListStep.ofAhead r.skipFiller.cursor.ahead = .item →
      (∀ d r₂, item r.skipFiller = .ok d r₂ → motive (d :: done) r₂) → motive done r) :
    ∀ done r, motive done r := by
  intro done r
  generalize hn : r.cursor.ahead.length = n
  -- by induction on how much text is ahead
  induction n using Nat.strongRecOn generalizing done r with
  | ind n ih =>
    cases hstep : ListStep.ofAhead r.skipFiller.cursor.ahead with
    | close => exact close done r hstep
    | dot => exact dot done r hstep
    | item =>
      refine next done r hstep fun d r₂ hi => ih r₂.cursor.ahead.length ?_ (d :: done) r₂ rfl
      have hlt : r₂.cursor.ahead.length < r.skipFiller.cursor.ahead.length := hitem _ d r₂ hi
      have hle : r.skipFiller.cursor.ahead.length ≤ r.cursor.ahead.length :=
        r.cursor.passes_skipFiller.length_le
      omega

end

end Reader

end Sexpr
