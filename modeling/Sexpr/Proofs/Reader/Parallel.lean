import Sexpr.Proofs.Reader.Progress

/-!
# Runs side by side

What a reader does depends on the characters ahead of it and on nothing else: not on those it
has passed, nor on what it has seen. The line it is on is counted on from and never looked at.
So two runs that begin with the same text ahead go the same way, and their places stay as many
lines apart as they were.

Depth is looked at only to stop. A run that is given less of it goes the same way, too, as far
as it gets.

> `Tracks`: two steps come to the same wherever they begin alike, or the first one stops short.
> `tracks_datum`: readers of one depth track each other, and one of less depth tracks one of more.
> `tracks_onlyDatum`: the same for a whole text.
-/

namespace Sexpr

open Place

/-! ## Places alike -/

namespace Cursor

/-- The same text is ahead of both places, and the second is this many lines further down. -/
structure Alike (lines : UInt32) (c c' : Cursor) : Prop where
  ahead : c'.ahead = c.ahead
  line : c'.line = c.line + lines

variable {lines : UInt32} {c c' : Cursor}

/-- A place is no lines apart from itself. -/
theorem alike_refl (c : Cursor) : c.Alike 0 c :=
  ⟨rfl, (UInt32.add_zero c.line).symm⟩

/-- Places with the same text ahead are alike, however far apart their lines are. -/
theorem alike_of_ahead (h : c'.ahead = c.ahead) : c.Alike (c'.line - c.line) c' :=
  ⟨h, by rw [UInt32.add_comm, UInt32.sub_add_cancel]⟩

/-- Passing a character keeps places alike: a line feed moves both of them down by one line. -/
theorem Alike.advance (h : c.Alike lines c') : c.advance.Alike lines c'.advance := by
  obtain ⟨passed, ahead, position, line⟩ := c
  obtain ⟨passed', ahead', position', line'⟩ := c'
  obtain ⟨rfl, rfl⟩ : ahead' = ahead ∧ line' = line + lines := ⟨h.ahead, h.line⟩
  cases ahead' with
  | nil => exact h
  | cons x rest =>
    refine ⟨rfl, ?_⟩
    show (if x = '\n' then line + lines + 1 else line + lines)
      = (if x = '\n' then line + 1 else line) + lines
    by_cases hx : x = '\n'
    · rw [if_pos hx, if_pos hx, UInt32.add_assoc, UInt32.add_comm lines 1, ← UInt32.add_assoc]
    · rw [if_neg hx, if_neg hx]

/-- So does passing any number of characters. -/
theorem Alike.advanceBy (n : Nat) (h : c.Alike lines c') :
    (c.advanceBy n).Alike lines (c'.advanceBy n) := by
  induction n generalizing c c' with
  | zero => exact h
  | succ n ih => exact ih h.advance

/-- Filler is as long in front of both places. -/
theorem Alike.skipFiller (h : c.Alike lines c') : c.skipFiller.Alike lines c'.skipFiller := by
  have hwidth : fillerWidth false 0 c'.ahead = fillerWidth false 0 c.ahead := by rw [h.ahead]
  unfold Cursor.skipFiller
  rw [hwidth]
  exact h.advanceBy _

end Cursor

/-! ## Steps that come to the same -/

/-- Both runs ended alike, or the first one stopped with a cause that it may stop with. -/
inductive Agree {σ α : Type} [Place σ] (lines : UInt32) (stops : Cause → Prop) :
    EStateM.Result Cause σ α → EStateM.Result Cause σ α → Prop where
  | ok {a : α} {r r' : σ} (h : (cursor r).Alike lines (cursor r')) :
      Agree lines stops (.ok a r) (.ok a r')
  | error {e : Cause} {r r' : σ} (h : (cursor r).Alike lines (cursor r')) :
      Agree lines stops (.error e r) (.error e r')
  | stopped {e : Cause} {r : σ} {result : EStateM.Result Cause σ α} (h : stops e) :
      Agree lines stops (.error e r) result

/-- From places alike the steps come to the same, unless the first one stops. -/
def Tracks {σ α : Type} [Place σ] (lines : UInt32) (stops : Cause → Prop)
    (m m' : EStateM Cause σ α) : Prop :=
  ∀ r r', (cursor r).Alike lines (cursor r') → Agree lines stops (m r) (m' r')

section

variable {σ α β : Type} [Place σ] {lines : UInt32} {stops : Cause → Prop}

/-- If the first step succeeds, so does the second, with the same result. -/
theorem Tracks.ok {m m' : EStateM Cause σ α} (h : Tracks lines stops m m') {r r' r₁ : σ} {a : α}
    (halike : (cursor r).Alike lines (cursor r')) (hm : m r = .ok a r₁) :
    ∃ r₂, m' r' = .ok a r₂ ∧ (cursor r₁).Alike lines (cursor r₂) := by
  have hagree := h r r' halike
  rw [hm] at hagree
  revert hagree
  generalize m' r' = x
  intro hagree
  cases hagree with
  | ok h => exact ⟨_, rfl, h⟩

theorem tracks_pure (a : α) : Tracks lines stops (pure a : EStateM Cause σ α) (pure a) :=
  fun _ _ h => .ok h

/-- Both fail with the same cause, where they are. -/
theorem tracks_throw (e : Cause) : Tracks lines stops (throw e : EStateM Cause σ α) (throw e) :=
  fun _ _ h => .error h

/-- Steps in sequence track each other if those that follow do so for every result. -/
theorem tracks_bind {m m' : EStateM Cause σ α} {f f' : α → EStateM Cause σ β}
    (hm : Tracks lines stops m m') (hf : ∀ a, Tracks lines stops (f a) (f' a)) :
    Tracks lines stops (m >>= f) (m' >>= f') := by
  intro r r' h
  show Agree lines stops (EStateM.bind m f r) (EStateM.bind m' f' r')
  unfold EStateM.bind
  have hagree := hm r r' h
  revert hagree
  generalize m r = x
  generalize m' r' = x'
  intro hagree
  cases hagree with
  | ok h => exact hf _ _ _ h
  | error h => exact .error h
  | stopped h => exact .stopped h

/-- A step that looks at the whole state may go on with what is alike in it. -/
theorem tracks_get {f f' : σ → EStateM Cause σ α}
    (hf : ∀ r r', (cursor r).Alike lines (cursor r') → Agree lines stops (f r r) (f' r' r')) :
    Tracks lines stops (get >>= f) (get >>= f') :=
  hf

end

/-! ## Scanners -/

namespace Scan

variable {lines : UInt32} {stops : Cause → Prop}

theorem tracks_peek : Tracks lines stops peek peek := by
  intro c c' (h : c.Alike lines c')
  rw [peek_run, peek_run, Cursor.peek?, Cursor.peek?, h.ahead]
  exact .ok h

theorem tracks_peekAt (n : Nat) : Tracks lines stops (peekAt n) (peekAt n) := by
  intro c c' (h : c.Alike lines c')
  rw [peekAt_run, peekAt_run, Cursor.peekAt?, Cursor.peekAt?, h.ahead]
  exact .ok h

/-- Both pass the same characters. -/
theorem tracks_advance (n : Nat) : Tracks lines stops (advance n) (advance n) :=
  fun _ _ h => .ok (h.advanceBy n)

/-- The next character is the same, so both pass it or neither does. -/
theorem tracks_accept (x : Char) : Tracks lines stops (accept x) (accept x) := by
  intro c c' (h : c.Alike lines c')
  by_cases hx : c.ahead.head? = some x
  · obtain ⟨rest, hahead⟩ := List.head?_eq_some_iff.mp hx
    rw [accept_of_head hahead, accept_of_head (h.ahead.trans hahead)]
    exact .ok h.advance
  · rw [accept_of_ne hx, accept_of_ne (by rw [h.ahead]; exact hx)]
    exact .ok h

/-- A run is as long ahead of both places. -/
theorem tracks_takeWhile (p : Char → Bool) : Tracks lines stops (takeWhile p) (takeWhile p) := by
  intro c c' (h : c.Alike lines c')
  rw [takeWhile_run, takeWhile_run, Cursor.takeWhile_fst, Cursor.takeWhile_fst,
    Cursor.takeWhile_snd, Cursor.takeWhile_snd, h.ahead]
  exact .ok (h.advanceBy _)

theorem tracks_filler : Tracks lines stops filler filler :=
  fun _ _ h => .ok h.skipFiller

/-- An unsigned number has the same digits and the same point in both runs. -/
theorem tracks_unsigned : Tracks lines stops unsigned unsigned := by
  unfold unsigned
  apply tracks_bind (tracks_takeWhile _)
  intro whole
  apply tracks_bind (tracks_accept _)
  intro point
  split
  · apply tracks_bind (tracks_takeWhile _)
    intro fraction
    split
    · exact tracks_throw _
    · exact tracks_pure _
  · split
    · exact tracks_pure _
    · exact tracks_pure _

/-- The divisor is the same number, and fails to be one with the same cause. -/
theorem tracks_quotient (base : Number) : Tracks lines stops (quotient base) (quotient base) := by
  unfold quotient
  apply tracks_bind (tracks_accept _)
  intro slash
  split
  · apply tracks_bind tracks_unsigned
    intro divisor
    split
    · exact tracks_throw _
    · split
      · exact tracks_throw _
      · exact tracks_pure _
  · exact tracks_pure _

theorem tracks_sign : Tracks lines stops sign sign := by
  unfold sign
  apply tracks_bind (tracks_accept _)
  intro negative
  exact tracks_bind (tracks_accept _) fun _ => tracks_pure _

/-- The imaginary part behind a sign is the same in both runs. -/
theorem tracks_imaginary (base : Number) :
    Tracks lines stops (imaginary base) (imaginary base) := by
  unfold imaginary
  apply tracks_bind tracks_sign
  intro negative
  apply tracks_bind tracks_unsigned
  intro magnitude
  apply tracks_bind (tracks_accept _)
  intro unit
  split
  · exact tracks_pure _
  · exact tracks_bind tracks_peek fun _ => tracks_throw _

/-- There is an imaginary part in both runs or in neither. -/
theorem tracks_imaginaryIfSigned (base : Number) :
    Tracks lines stops (imaginaryIfSigned base) (imaginaryIfSigned base) := by
  unfold imaginaryIfSigned
  apply tracks_bind tracks_peek
  intro found
  split
  · exact tracks_imaginary base
  · exact tracks_imaginary base
  · exact tracks_pure _

/-- Numbers are scanned alike from places alike. -/
theorem tracks_numeral : Tracks lines stops numeral numeral := by
  unfold numeral
  apply tracks_bind tracks_sign
  intro negative
  apply tracks_bind tracks_unsigned
  intro base
  split
  · exact tracks_throw _
  · apply tracks_bind (tracks_quotient _)
    intro value
    exact tracks_bind (tracks_imaginaryIfSigned _) fun _ => tracks_pure _

/-- What stands behind a number sign is scanned alike. -/
theorem tracks_hashToken : Tracks lines stops hashToken hashToken := by
  unfold hashToken
  apply tracks_bind (tracks_peekAt 1)
  intro found
  split
  · exact tracks_bind (tracks_advance 2) fun _ => tracks_pure _
  · exact tracks_bind (tracks_advance 2) fun _ => tracks_pure _
  · exact tracks_throw _
  · exact tracks_throw _

/-- The characters of a symbol are the same, and so is its name. -/
theorem tracks_symbolToken : Tracks lines stops symbolToken symbolToken := by
  unfold symbolToken
  apply tracks_bind tracks_peek
  intro first
  apply tracks_bind (tracks_advance 1)
  intro _
  exact tracks_bind (tracks_takeWhile _) fun _ => tracks_pure _

/-- The body of a string is decoded alike, as far as the quote or the end of the text. -/
theorem tracks_stringToken : Tracks lines stops stringToken stringToken := by
  intro c c' (h : c.Alike lines c')
  cases hdecode : Quoted.decode c.ahead.tail with
  | some found =>
    obtain ⟨text, rest⟩ := found
    rw [(stringToken_of_decode hdecode).1,
      (stringToken_of_decode (c := c') (by rw [h.ahead]; exact hdecode)).1, h.ahead]
    exact .ok (h.advanceBy _)
  | none =>
    rw [stringToken_of_open hdecode,
      stringToken_of_open (c := c') (by rw [h.ahead]; exact hdecode), h.ahead]
    exact .error (h.advanceBy _)

end Scan

/-! ## Readers -/

namespace Reader

variable {lines : UInt32} {stops : Cause → Prop}

/-- A scanner looks at the cursor alone, so what a reading has seen makes no difference. -/
theorem tracks_scan {α : Type} {step : Scan α} (hs : Tracks lines stops step step) :
    Tracks lines stops (scan step) (scan step) := by
  intro r r' h
  unfold scan
  have hagree := hs r.cursor r'.cursor h
  revert hagree
  generalize step r.cursor = x
  generalize step r'.cursor = x'
  intro hagree
  cases hagree with
  | ok h => exact .ok h
  | error h => exact .error h
  | stopped h => exact .stopped h

/-- What is noted differs in the line, which is no part of being alike. -/
theorem tracks_note (c : Char) : Tracks lines stops (note c) (note c) :=
  fun _ _ h => .ok h

/-- The list is closed in both runs, or is not, with the same datum. -/
theorem tracks_closeList (done : List Datum) (tail : Datum) :
    Tracks lines stops (closeList done tail) (closeList done tail) := by
  unfold closeList
  apply tracks_bind (tracks_scan (Scan.tracks_accept _))
  intro closed
  split
  · exact tracks_pure _
  · exact tracks_bind (tracks_scan Scan.tracks_peek) fun _ => tracks_throw _

section

variable {item item' : Reader Datum} (hitem : Tracks lines stops item item')
include hitem

/-- The tail behind the dot is the same if data are read alike. -/
theorem tracks_dottedTail (done : List Datum) :
    Tracks lines stops (dottedTail item done) (dottedTail item' done) := by
  unfold dottedTail
  split
  · exact tracks_throw _
  · apply tracks_bind (tracks_scan (Scan.tracks_advance 1))
    intro _
    apply tracks_bind (tracks_scan Scan.tracks_filler)
    intro _
    apply tracks_bind (tracks_scan Scan.tracks_peek)
    intro found
    split
    · exact tracks_throw _
    · apply tracks_bind hitem
      intro tail
      exact tracks_bind (tracks_scan Scan.tracks_filler) fun _ => tracks_closeList done tail

/-- Along the characters that bound the recursion: each item is the same in both runs. -/
theorem tracks_listRest (clock : List Char) (done : List Datum) :
    Tracks lines stops (listRest item clock done) (listRest item' clock done) := by
  induction clock generalizing done with
  | nil => exact tracks_closeList done .nil
  | cons _ clock ih =>
    unfold listRest
    apply tracks_bind (tracks_scan Scan.tracks_filler)
    intro _
    apply tracks_get
    intro r r' (h : r.cursor.Alike lines r'.cursor)
    rw [h.ahead]
    -- the same text is ahead, so the same comes next
    cases ListStep.ofAhead r.cursor.ahead with
    | close => exact tracks_closeList done .nil r r' h
    | dot => exact tracks_dottedTail hitem done r r' h
    | item => exact tracks_bind hitem (fun d => ih (d :: done)) r r' h

/-- A list is read alike if its items are. -/
theorem tracks_list : Tracks lines stops (list item) (list item') := by
  unfold list
  apply tracks_bind (tracks_scan (Scan.tracks_advance 1))
  intro _
  apply tracks_get
  intro r r' (h : r.cursor.Alike lines r'.cursor)
  rw [h.ahead]
  exact tracks_listRest hitem _ [] r r' h

/-- Both runs abbreviate the same datum. -/
theorem tracks_abbreviated (a : Abbreviation) :
    Tracks lines stops (abbreviated a item) (abbreviated a item') := by
  unfold abbreviated
  apply tracks_bind (tracks_scan (Scan.tracks_advance 1))
  intro _
  exact tracks_bind hitem fun _ => tracks_pure _

/-- Whether an at sign follows the comma is the same in both runs. -/
theorem tracks_unquoted : Tracks lines stops (unquoted item) (unquoted item') := by
  unfold unquoted
  apply tracks_bind (tracks_scan (Scan.tracks_advance 1))
  intro _
  apply tracks_bind (tracks_scan (Scan.tracks_accept _))
  intro splicing
  split
  · exact tracks_bind hitem fun _ => tracks_pure _
  · exact tracks_bind hitem fun _ => tracks_pure _

end

/-- An atom is read alike if its token is scanned alike. -/
theorem tracks_atom {token : Scan Atom} (ht : Tracks lines stops token token) :
    Tracks lines stops (atom token) (atom token) := by
  unfold atom
  exact tracks_bind (tracks_scan ht) fun _ => tracks_pure _

theorem tracks_number : Tracks lines stops (number Scan.numeral) (number Scan.numeral) := by
  unfold number
  exact tracks_bind (tracks_scan Scan.tracks_numeral) fun _ => tracks_pure _

/-- What reads the parts of a datum tracks what reads them in the other run, or is missing
where the first run may stop for want of it. -/
inductive InnerTracks (lines : UInt32) (stops : Cause → Prop) :
    Option (Reader Datum) → Option (Reader Datum) → Prop where
  | none : InnerTracks lines stops none none
  | some {item item' : Reader Datum} (h : Tracks lines stops item item') :
      InnerTracks lines stops (some item) (some item')
  | cut {inner : Option (Reader Datum)} (h : stops .nestingTooDeep) :
      InnerTracks lines stops none inner

section

variable {inner inner' : Option (Reader Datum)} (hinner : InnerTracks lines stops inner inner')
include hinner

/-- Without depth the first run stops, and with it both go on into the form. -/
theorem tracks_nested {form : Reader Datum → Reader Datum}
    (hform : ∀ item item', Tracks lines stops item item' →
      Tracks lines stops (form item) (form item')) :
    Tracks lines stops (nested inner form) (nested inner' form) := by
  cases hinner with
  | none => exact tracks_throw _
  | some h => exact hform _ _ h
  | cut h => exact fun _ _ _ => .stopped h

/-- The class of the first character decides alike about the form that is read. -/
theorem tracks_form (o : Opening) : Tracks lines stops (form inner o) (form inner' o) := by
  cases o with
  | hash => exact tracks_atom Scan.tracks_hashToken
  | list => exact tracks_nested hinner fun _ _ h => tracks_list h
  | quote => exact tracks_nested hinner fun _ _ h => tracks_abbreviated h .quote
  | quasiquote => exact tracks_nested hinner fun _ _ h => tracks_abbreviated h .quasiquote
  | unquote => exact tracks_nested hinner fun _ _ h => tracks_unquoted h
  | sign =>
    apply tracks_bind (tracks_scan (Scan.tracks_peekAt 1))
    intro found
    split
    · exact tracks_number
    · exact tracks_atom Scan.tracks_symbolToken
  | string => exact tracks_atom Scan.tracks_stringToken
  | digit => exact tracks_number
  | other => exact tracks_atom Scan.tracks_symbolToken

/-- Behind the filler both runs note the same character and read the same form. -/
theorem tracks_datumWith : Tracks lines stops (datumWith inner) (datumWith inner') := by
  unfold datumWith
  apply tracks_bind (tracks_scan Scan.tracks_filler)
  intro _
  apply tracks_bind (tracks_scan Scan.tracks_peek)
  intro found
  split
  · exact tracks_throw _
  · exact tracks_bind (tracks_note _) fun _ => tracks_form hinner _

end

/-- A reader tracks one of the same depth. It tracks one of more depth, too, if it may stop at
its own. -/
theorem tracks_datum {depth depth' : Nat}
    (h : depth = depth' ∨ depth ≤ depth' ∧ stops .nestingTooDeep) :
    Tracks lines stops (datum depth) (datum depth') := by
  induction depth generalizing depth' with
  | zero =>
    rcases h with rfl | ⟨_, hstop⟩
    · exact tracks_datumWith .none
    · cases depth' with
      | zero => exact tracks_datumWith .none
      | succ depth' => exact tracks_datumWith (.cut hstop)
  | succ depth ih =>
    cases depth' with
    | zero => omega
    | succ depth' =>
      apply tracks_datumWith
      apply InnerTracks.some
      apply ih
      rcases h with h | ⟨hle, hstop⟩
      · left; omega
      · right; exact ⟨by omega, hstop⟩

/-- Behind the datum there is the end of the text in both runs, or the same character. -/
theorem tracks_onlyDatum {depth depth' : Nat}
    (h : depth = depth' ∨ depth ≤ depth' ∧ stops .nestingTooDeep) :
    Tracks lines stops (onlyDatum depth) (onlyDatum depth') := by
  unfold onlyDatum
  apply tracks_bind (tracks_datum h)
  intro d
  apply tracks_bind (tracks_scan Scan.tracks_filler)
  intro _
  apply tracks_bind (tracks_scan Scan.tracks_peek)
  intro found
  split
  · exact tracks_pure _
  · exact tracks_throw _

end Reader

/-! ## Whole texts -/

/-- The second run came to what `f` makes of the datum of the first one, or to the same error, on
the same line and with the same text ahead. -/
inductive Mirrors (f : Datum → Datum) :
    EStateM.Result Cause Reading Datum → EStateM.Result Cause Reading Datum → Prop where
  | ok {d : Datum} {r r' : Reading} (h : r.cursor.Alike 0 r'.cursor) :
      Mirrors f (.ok d r) (.ok (f d) r')
  | error {e : Cause} {r r' : Reading} (h : r.cursor.Alike 0 r'.cursor) :
      Mirrors f (.error e r) (.error e r')

/-- Runs that agree mirror each other in what is made of their results. -/
theorem mirrors_of_agree {α : Type} {m m' : Reader α} {r r' : Reading} (g : α → Datum)
    (f : Datum → Datum) (h : Agree 0 (fun _ => False) (m r) (m' r')) :
    Mirrors f ((m >>= fun a => pure (g a)) r) ((m' >>= fun a => pure (f (g a))) r') := by
  generalize hrun : m r = x at h
  generalize hrun' : m' r' = x' at h
  cases h with
  | ok h =>
    rw [bind_of_ok hrun, bind_of_ok hrun']
    exact .ok h
  | error h =>
    rw [bind_of_error hrun, bind_of_error hrun']
    exact .error h
  | stopped h => exact h.elim

/-- What follows the datum is treated alike. -/
theorem Mirrors.onlyDatum {f : Datum → Datum} {depth depth' : Nat} {r r' : Reading}
    (h : Mirrors f (Reader.datum depth r) (Reader.datum depth' r')) :
    Mirrors f (Reader.onlyDatum depth r) (Reader.onlyDatum depth' r') := by
  generalize hrun : Reader.datum depth r = x at h
  generalize hrun' : Reader.datum depth' r' = x' at h
  cases h with
  | @error e r₁ r₁' h =>
    have hfail : Reader.onlyDatum depth r = .error e r₁ := bind_of_error hrun
    have hfail' : Reader.onlyDatum depth' r' = .error e r₁' := bind_of_error hrun'
    rw [hfail, hfail']
    exact .error h
  | @ok d r₁ r₁' h =>
    have hskip : r₁.skipFiller.cursor.Alike 0 r₁'.skipFiller.cursor := h.skipFiller
    cases hahead : r₁.skipFiller.cursor.ahead with
    | nil =>
      rw [Reader.onlyDatum_of_end hrun hahead,
        Reader.onlyDatum_of_end hrun' (hskip.ahead.trans hahead)]
      exact .ok hskip
    | cons x rest =>
      rw [Reader.onlyDatum_of_trailing hrun hahead,
        Reader.onlyDatum_of_trailing hrun' (hskip.ahead.trans hahead)]
      exact .error hskip

namespace Datum

/-- Reading a text is running the reader from its beginning; an error gets the line of its place. -/
theorem read_eq_match (settings : Settings) (text : String) :
    read settings text = (match Reader.onlyDatum settings.depth (start text) with
      | .ok d _ => .ok d
      | .error cause r => .error ⟨cause, settings.name, r.cursor.line⟩) := by
  show (readReporting settings text).result = (match run settings text with
      | .ok d _ => .ok d
      | .error cause r => .error ⟨cause, settings.name, r.cursor.line⟩)
  unfold readReporting
  cases run settings text with
  | ok d r => rfl
  | error cause r => rfl

/-- Runs that agree line by line give the same datum or the same error. -/
theorem read_of_agree (settings settings' : Settings) {text text' : String}
    {stops : Cause → Prop} (hname : settings'.name = settings.name)
    (h : Agree 0 stops (Reader.onlyDatum settings.depth (start text))
      (Reader.onlyDatum settings'.depth (start text'))) :
    read settings' text' = read settings text ∨
      ∃ cause line, stops cause ∧ read settings text = .error ⟨cause, settings.name, line⟩ := by
  rw [read_eq_match, read_eq_match settings text, hname]
  revert h
  generalize Reader.onlyDatum settings.depth (start text) = x
  generalize Reader.onlyDatum settings'.depth (start text') = x'
  intro h
  cases h with
  | ok h => exact Or.inl rfl
  | @error e r r' h =>
    left
    show Except.error (ReadError.mk e settings.name r'.cursor.line) = .error ⟨e, _, r.cursor.line⟩
    rw [show r'.cursor.line = r.cursor.line from h.line.trans (UInt32.add_zero _)]
  | @stopped e r result h => exact Or.inr ⟨e, r.cursor.line, h, rfl⟩

/-- Texts whose runs mirror each other read alike. -/
theorem read_of_mirrors (settings settings' : Settings) {f : Datum → Datum} {text text' : String}
    (hname : settings'.name = settings.name)
    (h : Mirrors f (Reader.datum settings.depth (start text))
      (Reader.datum settings'.depth (start text'))) :
    read settings' text' = (read settings text).map f := by
  rw [read_eq_match, read_eq_match settings text, hname]
  have honly := h.onlyDatum
  revert honly
  generalize Reader.onlyDatum settings.depth (start text) = x
  generalize Reader.onlyDatum settings'.depth (start text') = x'
  intro honly
  cases honly with
  | ok _ => rfl
  | @error e r r' h =>
    show Except.error (ReadError.mk e settings.name r'.cursor.line) = .error ⟨e, _, r.cursor.line⟩
    rw [show r'.cursor.line = r.cursor.line from h.line.trans (UInt32.add_zero _)]

end Datum

end Sexpr
