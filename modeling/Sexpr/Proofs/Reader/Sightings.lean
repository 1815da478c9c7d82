import Sexpr.Proofs.Reader.Location

/-!
# What was come upon

The reader records the first character of every datum it comes upon, with the line. It never goes
back, so what was recorded tells of places of the text one behind the other, and what is recorded
next tells of the place of the cursor. That survives errors: where a run stops, all of it is still
true.

> `Told`: sightings that tell of places of a text, each one before the one recorded after it.
> `Reading.Tells`: the state that a step starts from and comes to.
> `tells_onlyDatum`: whatever a run comes to.
-/

namespace Sexpr

/-! ## Sightings and places -/

/-- The sighting tells of the character at this place of the text, which begins no filler. -/
structure Sighting.TellsOf (text : List Char) (s : Sighting) (place : Nat) : Prop where
  char : text[place]? = some s.char
  solid : isBlank s.char = false ∧ s.char ≠ ';'
  line : s.line = UInt32.ofNat (1 + (text.take place).count '\n')

/-- The sightings, the latest first, tell of places of the text: of one before `stop` the latest,
and every other of one before that of the next. -/
inductive Told (text : List Char) : (stop : Nat) → List Sighting → Prop where
  | none {stop : Nat} : Told text stop []
  | more {stop place : Nat} {s : Sighting} {seen : List Sighting} (latest : s.TellsOf text place)
      (before : place < stop) (others : Told text place seen) : Told text stop (s :: seen)

namespace Told

variable {text : List Char} {stop stop' : Nat} {seen : List Sighting}

/-- What tells of places before one stop tells of places before any later one. -/
theorem mono (h : Told text stop seen) (hle : stop ≤ stop') : Told text stop' seen := by
  cases h with
  | none => exact .none
  | more latest before others => exact .more latest (Nat.lt_of_lt_of_le before hle) others

/-- No place is told of twice. -/
theorem length_le (h : Told text stop seen) : seen.length ≤ stop := by
  induction h with
  | none => exact Nat.zero_le _
  | more latest before others ih => exact Nat.lt_of_le_of_lt ih before

/-- In the order in which they were recorded the places are one behind the other. -/
theorem places (h : Told text stop seen) :
    ∃ places, List.Forall₂ (Sighting.TellsOf text) seen.reverse places ∧
      places.Pairwise (· < ·) ∧ ∀ p ∈ places, p < stop := by
  induction h with
  | none => exact ⟨[], .nil, .nil, fun p hp => absurd hp List.not_mem_nil⟩
  | @more stop place s seen latest before _ ih =>
    obtain ⟨places, htold, horder, hstop⟩ := ih
    refine ⟨places ++ [place], ?_, ?_, fun p hp => ?_⟩
    · rw [List.reverse_cons]
      exact List.rel_append htold (.cons latest .nil)
    · refine List.pairwise_append.mpr ⟨horder, List.pairwise_singleton _ _, fun p hp q hq => ?_⟩
      rw [List.mem_singleton.mp hq]
      exact hstop p hp
    · rcases List.mem_append.mp hp with hp | hp
      · exact Nat.lt_trans (hstop p hp) before
      · rw [List.mem_singleton.mp hp]
        exact before

end Told

/-! ## States -/

/-- The state is one of reading this text, on the right line, and what was seen tells of places
before `stop`. -/
structure Reading.Tells (text : List Char) (stop : Nat) (r : Reading) : Prop where
  whole : r.cursor.text = text
  counts : r.cursor.Counts
  told : Told text stop r.sightings

/-- As far as the text was passed the state tells of it. -/
def Reading.TellsSoFar (text : List Char) (r : Reading) : Prop :=
  r.Tells text r.cursor.passed.length

/-- What was passed and what is ahead make up the text. -/
theorem Cursor.length_text (c : Cursor) : c.passed.length + c.ahead.length = c.text.length := by
  rw [text, List.length_append, List.length_reverse]

namespace Reading

variable {text : List Char} {stop : Nat} {r : Reading}

/-- No more can be passed than the text is long. -/
theorem Tells.length_le (h : r.Tells text stop) : r.cursor.passed.length ≤ text.length := by
  rw [← h.whole, ← r.cursor.length_text]
  exact Nat.le_add_right _ _

/-- Moving the cursor beyond the places told of so far. -/
theorem Tells.moved (h : r.Tells text stop) {c : Cursor} (hpass : r.cursor.Passes c)
    (hstop : stop ≤ c.passed.length) : TellsSoFar text { r with cursor := c } :=
  ⟨hpass.text_eq.trans h.whole, hpass.counts h.counts, h.told.mono hstop⟩

/-- Moving forward passes more of the text, and what was told stays told. -/
theorem TellsSoFar.moved (h : r.TellsSoFar text) {c : Cursor} (hpass : r.cursor.Passes c) :
    TellsSoFar text { r with cursor := c } := by
  refine Tells.moved h hpass ?_
  have hlen := r.cursor.length_text
  rw [← hpass.text_eq, ← c.length_text] at hlen
  have hle := hpass.length_le
  omega

/-- What is told so far tells of places of the whole text. -/
theorem TellsSoFar.told_all (h : r.TellsSoFar text) : Told text text.length r.sightings :=
  h.told.mono (Tells.length_le h)

/-- The next character is noted where the cursor is. -/
theorem TellsSoFar.noted (h : r.TellsSoFar text) {x : Char} {rest : List Char}
    (hahead : r.cursor.ahead = x :: rest) (hblank : isBlank x = false) (hsemi : x ≠ ';') :
    (r.noted x).Tells text (r.cursor.passed.length + 1) := by
  have htext : text = r.cursor.passed.reverse ++ x :: rest := by
    rw [← h.whole, Cursor.text, hahead]
  have hlatest : Sighting.TellsOf text ⟨r.cursor.line, x⟩ r.cursor.passed.length := by
    refine ⟨?_, ⟨hblank, hsemi⟩, ?_⟩
    · rw [htext, ← List.length_reverse, List.getElem?_append_right (Nat.le_refl _), Nat.sub_self]
      rfl
    · rw [htext, ← List.length_reverse, List.take_left, List.count_reverse]
      exact h.counts
  exact ⟨h.whole, h.counts, .more hlatest (Nat.lt_succ_self _) h.told⟩

end Reading

/-- The next character has just been noted, and is still ahead. -/
structure Reading.JustNoted (text : List Char) (r : Reading) : Prop where
  tells : r.Tells text (r.cursor.passed.length + 1)
  ahead : r.cursor.ahead ≠ []

/-- So does what was noted last, as its character is still ahead. -/
theorem Reading.JustNoted.told_all {text : List Char} {r : Reading} (h : r.JustNoted text) :
    Told text text.length r.sightings := by
  refine h.tells.told.mono ?_
  have hpos := List.length_pos_iff.mpr h.ahead
  rw [← h.tells.whole, ← r.cursor.length_text]
  omega

/-! ## Steps -/

/-- From here on the step comes to a state that tells of the text so far, or fails, and then what
was seen still tells of places of the text. -/
structure TellsFrom {α : Type} (text : List Char) (m : Reader α) (r : Reading) : Prop where
  ok : ∀ a r', m r = .ok a r' → r'.TellsSoFar text
  error : ∀ e r', m r = .error e r' → Told text text.length r'.sightings

namespace Reader

section

variable {α β : Type} {text : List Char} {stop : Nat} {r : Reading}

theorem tells_pure (a : α) (h : r.TellsSoFar text) : TellsFrom text (pure a : Reader α) r := by
  refine ⟨fun b r' hr => ?_, fun e r' hr => (error_of_pure hr).elim⟩
  rw [← (ok_of_pure hr).2]
  exact h

/-- An error leaves what was seen as it was. -/
theorem tells_throw (e : Cause) (h : Told text text.length r.sightings) :
    TellsFrom text (throw e : Reader α) r := by
  refine ⟨fun b r' hr => (ok_of_throw hr).elim, fun e' r' hr => ?_⟩
  rw [← (error_of_throw hr).2]
  exact h

/-- Steps in sequence tell of the text if the second one does from the place where the first one
ends. -/
theorem tells_bind {x : Reader α} {f : α → Reader β} (hx : TellsFrom text x r)
    (hf : ∀ a r₁, x r = .ok a r₁ → r₁.TellsSoFar text → TellsFrom text (f a) r₁) :
    TellsFrom text (x >>= f) r := by
  refine ⟨fun b r₂ h => ?_, fun e r₂ h => ?_⟩
  · obtain ⟨a, r₁, h₁, h₂⟩ := ok_of_bind h
    exact (hf a r₁ h₁ (hx.ok a r₁ h₁)).ok b r₂ h₂
  · rcases error_of_bind h with h₁ | ⟨a, r₁, h₁, h₂⟩
    · exact hx.error e r₂ h₁
    · exact (hf a r₁ h₁ (hx.ok a r₁ h₁)).error e r₂ h₂

/-- A run that is the run of another step from another place. -/
theorem tells_of_run {m m' : Reader α} {r₁ : Reading} (hrun : m r = m' r₁)
    (h : TellsFrom text m' r₁) : TellsFrom text m r :=
  ⟨fun a r' hr => h.ok a r' (hrun.symm.trans hr), fun e r' hr => h.error e r' (hrun.symm.trans hr)⟩

theorem tells_get (h : r.TellsSoFar text) : TellsFrom text (get : Reader Reading) r := by
  refine ⟨fun a r' hr => ?_, fun e r' hr => nomatch hr⟩
  injection hr with _ hr
  rw [← hr]
  exact h

/-- A scanner sees nothing, and moves forward. -/
theorem tells_scan {step : Scan α} (hstep : Forward step) (h : r.TellsSoFar text) :
    TellsFrom text (scan step) r := by
  refine ⟨fun a r' hr => ?_, fun e r' hr => ?_⟩
  · obtain ⟨hrun, hr'⟩ := ok_of_scan hr
    rw [hr']
    exact h.moved (hstep.ok hrun)
  · obtain ⟨hrun, hr'⟩ := error_of_scan hr
    rw [hr']
    exact h.told_all

/-- Right behind a sighting a scanner takes the character that was noted. -/
theorem tells_token {step : Scan α} (hstep : Forward step) (hshort : Shortens (scan step) r)
    (h : r.JustNoted text) : TellsFrom text (scan step) r := by
  refine ⟨fun a r' hr => ?_, fun e r' hr => ?_⟩
  · obtain ⟨hrun, hr'⟩ := ok_of_scan hr
    rw [hr']
    refine h.tells.moved (hstep.ok hrun) ?_
    have hlt : r'.cursor.ahead.length < r.cursor.ahead.length := hshort a r' hr
    have hlen : r'.cursor.text.length = r.cursor.text.length :=
      congrArg List.length (hstep.ok hrun).text_eq
    rw [← r.cursor.length_text, ← r'.cursor.length_text] at hlen
    omega
  · rw [(error_of_scan hr).2]
    exact h.told_all

/-- The character that was noted is passed, and from there on the state tells so far. -/
theorem tells_mark (h : r.JustNoted text) : TellsFrom text (scan (Scan.advance 1)) r :=
  tells_token (Scan.forward_advance 1) (shortens_advance h.ahead) h

end

/-! ## Lists -/

section

variable {text : List Char} {r : Reading}

/-- Closing a list notes nothing. -/
theorem tells_closeList (done : List Datum) (tail : Datum) (h : r.TellsSoFar text) :
    TellsFrom text (closeList done tail) r := by
  unfold closeList
  refine tells_bind (tells_scan (Scan.forward_accept _) h) fun closed r₁ _ h₁ => ?_
  split
  · exact tells_pure _ h₁
  · exact tells_bind (tells_scan Scan.forward_peek h₁) fun _ _ _ h₂ => tells_throw _ h₂.told_all

variable {item : Reader Datum} (hitem : ∀ r, r.TellsSoFar text → TellsFrom text item r)
include hitem

/-- The tail of a list is told of if data are. -/
theorem tells_dottedTail (done : List Datum) (h : r.TellsSoFar text) :
    TellsFrom text (dottedTail item done) r := by
  unfold dottedTail
  split
  · exact tells_throw _ h.told_all
  · refine tells_bind (tells_scan (Scan.forward_advance 1) h) fun _ r₁ _ h₁ => ?_
    refine tells_bind (tells_scan Scan.forward_filler h₁) fun _ r₂ _ h₂ => ?_
    refine tells_bind (tells_scan Scan.forward_peek h₂) fun _ r₃ _ h₃ => ?_
    split
    · exact tells_throw _ h₃.told_all
    · refine tells_bind (hitem r₃ h₃) fun tail r₄ _ h₄ => ?_
      refine tells_bind (tells_scan Scan.forward_filler h₄) fun _ r₅ _ h₅ => ?_
      exact tells_closeList done tail h₅

/-- Along the characters that bound the recursion: every item is told of behind those before it. -/
theorem tells_listRest (clock : List Char) (done : List Datum) (h : r.TellsSoFar text) :
    TellsFrom text (listRest item clock done) r := by
  -- by induction on the turns
  induction clock generalizing done r with
  | nil => exact tells_closeList done .nil h
  | cons _ clock ih =>
    refine tells_bind (tells_scan Scan.forward_filler h) fun _ r₁ _ h₁ => ?_
    refine tells_bind (tells_get h₁) fun seen r₂ _ h₂ => ?_
    split
    · exact tells_closeList done .nil h₂
    · exact tells_dottedTail hitem done h₂
    · exact tells_bind (hitem r₂ h₂) fun d r₃ _ h₃ => ih (d :: done) h₃

/-! ## Data -/

variable (h : r.JustNoted text)
include h

/-- Behind its parenthesis the items of a list are told of. -/
theorem tells_list : TellsFrom text (list item) r := by
  refine tells_bind (tells_mark h) fun _ r₁ _ h₁ => ?_
  refine tells_bind (tells_get h₁) fun seen r₂ _ h₂ => ?_
  exact tells_listRest hitem _ [] h₂

theorem tells_abbreviated (a : Abbreviation) : TellsFrom text (abbreviated a item) r := by
  refine tells_bind (tells_mark h) fun _ r₁ _ h₁ => ?_
  exact tells_bind (hitem r₁ h₁) fun _ r₂ _ h₂ => tells_pure _ h₂

/-- Behind the comma, and the at sign if there is one, the datum is told of. -/
theorem tells_unquoted : TellsFrom text (unquoted item) r := by
  refine tells_bind (tells_mark h) fun _ r₁ _ h₁ => ?_
  refine tells_bind (tells_scan (Scan.forward_accept _) h₁) fun splicing r₂ _ h₂ => ?_
  split
  · exact tells_bind (hitem r₂ h₂) fun _ r₃ _ h₃ => tells_pure _ h₃
  · exact tells_bind (hitem r₂ h₂) fun _ r₃ _ h₃ => tells_pure _ h₃

end

section

variable {text : List Char} {r : Reading} {inner : Option (Reader Datum)}

/-- Without depth nothing more is noted, and with it the form goes on. -/
theorem tells_nested {form : Reader Datum → Reader Datum} (h : r.JustNoted text)
    (hform : ∀ item ∈ inner, TellsFrom text (form item) r) :
    TellsFrom text (nested inner form) r := by
  unfold nested
  split
  · exact tells_throw _ h.told_all
  · next item => exact hform item rfl

/-- An atom that was noted is passed with at least one character. -/
theorem tells_atom {token : Scan Atom} (hstep : Forward token) (hshort : Shortens token r.cursor)
    (h : r.JustNoted text) : TellsFrom text (atom token) r :=
  tells_bind (tells_token hstep (shortens_scan hshort) h) fun _ _ _ h₁ => tells_pure _ h₁

theorem tells_number (h : r.JustNoted text) : TellsFrom text (number Scan.numeral) r :=
  tells_bind (tells_token Scan.forward_numeral (shortens_scan (Scan.shortens_numeral _)) h)
    fun _ _ _ h₁ => tells_pure _ h₁

/-- The readers of the parts of a datum that keep telling of the text. -/
def TellsInner (text : List Char) (inner : Option (Reader Datum)) : Prop :=
  ∀ item ∈ inner, ∀ r : Reading, r.TellsSoFar text → TellsFrom text item r

/-- Whatever form the first character announces, its parts are told of behind it. -/
theorem tells_form (hinner : TellsInner text inner) (o : Opening) (h : r.JustNoted text) :
    TellsFrom text (form inner o) r := by
  have hsymbol : TellsFrom text (atom Scan.symbolToken) r :=
    tells_atom Scan.forward_symbolToken (Scan.shortens_symbolToken h.ahead) h
  cases o with
  | hash => exact tells_atom Scan.forward_hashToken (Scan.shortens_hashToken h.ahead) h
  | list => exact tells_nested h fun item hi => tells_list (hinner item hi) h
  | quote => exact tells_nested h fun item hi => tells_abbreviated (hinner item hi) h .quote
  | quasiquote =>
    exact tells_nested h fun item hi => tells_abbreviated (hinner item hi) h .quasiquote
  | unquote => exact tells_nested h fun item hi => tells_unquoted (hinner item hi) h
  | sign =>
    obtain ⟨x, rest, hahead⟩ := List.exists_cons_of_ne_nil h.ahead
    refine tells_of_run (form_sign hahead) ?_
    split
    · exact tells_number h
    · exact hsymbol
  | string => exact tells_atom Scan.forward_stringToken (Scan.shortens_stringToken h.ahead) h
  | digit => exact tells_number h
  | other => exact hsymbol

/-- A datum is noted at the first character behind the filler, which begins no filler. -/
theorem tells_datumWith (hinner : TellsInner text inner) (h : r.TellsSoFar text) :
    TellsFrom text (datumWith inner) r := by
  have hskip : r.skipFiller.TellsSoFar text := h.moved r.cursor.passes_skipFiller
  cases hahead : r.skipFiller.cursor.ahead with
  | nil => exact tells_of_run (datumWith_nil hahead) (tells_throw _ hskip.told_all)
  | cons x rest =>
    obtain ⟨hblank, hsemi⟩ := solid_of_ahead hahead
    refine tells_of_run (datumWith_cons hahead) (tells_form hinner _ ?_)
    exact ⟨hskip.noted hahead hblank hsemi, hahead ▸ List.cons_ne_nil x rest⟩

/-- By induction on the depth, every datum that is come upon is told of. -/
theorem tells_datum (depth : Nat) (h : r.TellsSoFar text) : TellsFrom text (datum depth) r := by
  induction depth generalizing r with
  | zero => exact tells_datumWith (fun _ hi => absurd hi (by simp)) h
  | succ depth ih =>
    refine tells_datumWith (fun item hi r₁ h₁ => ?_) h
    rw [← Option.some.inj hi]
    exact ih h₁

/-- Whatever a run comes to, it tells of the text. -/
theorem tells_onlyDatum (depth : Nat) (h : r.TellsSoFar text) :
    TellsFrom text (onlyDatum depth) r := by
  unfold onlyDatum
  refine tells_bind (tells_datum depth h) fun d r₁ _ h₁ => ?_
  refine tells_bind (tells_scan Scan.forward_filler h₁) fun _ r₂ _ h₂ => ?_
  refine tells_bind (tells_scan Scan.forward_peek h₂) fun found r₃ _ h₃ => ?_
  split
  · exact tells_pure _ h₃
  · exact tells_throw _ h₃.told_all

end

end Reader

namespace Datum

/-- At the beginning of a text nothing has been passed and nothing was seen. -/
theorem tells_start (text : String) : (start text).TellsSoFar text.toList :=
  ⟨rfl, Cursor.counts_ofText text, .none⟩

/-- The sightings of a whole run, however it ends. -/
theorem told_of_run (settings : Settings) (text : String) :
    Told text.toList text.toList.length (endOf (run settings text)).sightings := by
  have htells := Reader.tells_onlyDatum settings.depth (tells_start text)
  show Told _ _ (endOf (Reader.onlyDatum settings.depth (start text))).sightings
  cases h : Reader.onlyDatum settings.depth (start text) with
  | ok d r => exact (htells.ok d r h).told_all
  | error e r => exact htells.error e r h

/-- No character is sighted twice. -/
theorem length_sightings_le (settings : Settings) (text : String) :
    (endOf (run settings text)).sightings.length ≤ text.toList.length :=
  (told_of_run settings text).length_le

end Datum

end Sexpr
