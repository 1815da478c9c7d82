import Sexpr.Proofs.Reader.Following
import Sexpr.Proofs.Reader.Sightings

/-!
# Every step is possible

The checked reader comes to what the reader comes to. So none of its steps is one that cannot be
taken: no look at the text and no cut is at an offset inside a character, no line is without a
number, and no loop needs more turns than there are characters ahead of it.

How many data are begun is known from what was come upon, as each of them is, but for one that is
missing at the end. How many are being read at a time is known from the depth.

> `listTurn_at`, `follows_list`: the loop of a list.
> `follows_datumWith`, `follows_datum`: one datum more is being read while it is read.
> `read_safely`: the run over any text, and what is written down on it.
-/

namespace Sexpr

open Walk (Comes)

namespace Checked

section

variable {text : List Char} {most active : Nat} {r : Reading}
  (hfew : text.count '\n' < 2 ^ 32 - 1)
include hfew

/-! ## Lists -/

/-- The parenthesis is passed, or the list is not closed, in both. -/
theorem follows_closeList (done : List Datum) (tail : Datum) :
    Follows text most active (closeList done tail) (Reader.closeList done tail) r := by
  refine follows_bind (follows_accept hfew ')') fun closed r₁ _ => ?_
  split
  · exact follows_pure _
  · exact follows_bind follows_peek fun _ _ _ => follows_fail _

section

variable {item' : Checked Datum} {item : Reader Datum}
  (hitem : ∀ r, Follows text most active item' item r)
include hitem

/-- The dot is passed, and the filler, the tail and the parenthesis behind it. -/
theorem follows_dottedTail (done : List Datum) :
    Follows text most active (dottedTail item' done) (Reader.dottedTail item done) r := by
  unfold dottedTail Reader.dottedTail
  split
  · exact follows_fail _
  · refine follows_bind (follows_advance hfew) fun _ r₁ _ => ?_
    refine follows_bind (follows_filler hfew) fun _ r₂ _ => ?_
    refine follows_bind follows_peek fun found r₃ _ => ?_
    split
    · exact follows_fail _
    · refine follows_bind (hitem r₃) fun tail r₄ _ => ?_
      refine follows_bind (follows_filler hfew) fun _ r₅ _ => ?_
      exact follows_closeList hfew done tail

/-- The loop comes to what the reader of the rest of the list comes to. -/
def EndsList (text : List Char) (most active : Nat) (item : Reader Datum) (done : List Datum)
    (r : Reading) (out : EStateM.Result Halt Walk Datum) : Prop :=
  Agrees text most active out (Reader.restOf item done r)

omit hfew hitem in
/-- A turn in which the list ends, one way or another. -/
theorem turn_of_agrees {done : List Datum} {m : Checked Datum} {w : Walk}
    (h : EndsList text most active item done r (m w)) :
    Turn text most active 0 (fun _ _ => True) (EndsList text most active item) done r
      ((m >>= fun d => pure (.inr d)) w) := by
  cases hrun : m w with
  | ok d w' =>
    rw [hrun] at h
    rw [bind_of_ok hrun]
    exact .last h
  | error e w' =>
    rw [hrun] at h
    rw [bind_of_error hrun]
    exact .failed h

variable (hshort : ∀ r, Shortens item r)
include hshort

/-- A turn closes the list, reads its tail, or reads one more item and goes on with less ahead. -/
theorem listTurn_at {w : Walk} (h : w.At text most active 0 r) (done : List Datum) :
    Turn text most active 0 (fun _ _ => True) (EndsList text most active item) done r
      (listTurn item' done w) := by
  obtain ⟨w₁, hfiller, h₁⟩ := filler_at h hfew
  unfold listTurn
  rw [bind_of_ok hfiller, bind_of_ok (ahead_at h₁)]
  cases hstep : Reader.ListStep.ofAhead r.skipFiller.cursor.ahead with
  | close =>
    refine turn_of_agrees ?_
    rw [EndsList, Reader.restOf_close hstep]
    exact follows_closeList hfew done .nil w₁ h₁
  | dot =>
    refine turn_of_agrees ?_
    rw [EndsList, Reader.restOf_dot hstep]
    exact follows_dottedTail hfew hitem done w₁ h₁
  | item =>
    have hrest : Reader.restOf item done r = _ := Reader.restOf_item hshort hstep
    have hagrees := hitem r.skipFiller w₁ h₁
    cases hread : item r.skipFiller with
    | ok d r₂ =>
      rw [bind_of_ok hread] at hrest
      rw [hread] at hagrees
      generalize hread' : item' w₁ = out at hagrees
      cases hagrees with
      | ok place =>
        dsimp only
        rw [bind_of_ok hread']
        refine .again place trivial ?_ fun out hout => ?_
        · exact Nat.lt_of_lt_of_le (hshort _ d r₂ hread) r.cursor.passes_skipFiller.length_le
        · rw [EndsList, hrest]
          exact hout
    | error e r₂ =>
      rw [bind_of_error hread] at hrest
      rw [hread] at hagrees
      generalize hread' : item' w₁ = out at hagrees
      cases hagrees with
      | error stopped =>
        dsimp only
        rw [bind_of_error hread']
        refine .failed ?_
        rw [EndsList, hrest]
        exact .error stopped

/-- The loop over the items needs no more turns than there are characters ahead. -/
theorem follows_list {rest : List Char} (hahead : r.cursor.ahead = '(' :: rest) :
    Follows text most active (list item') (Reader.list item) r := by
  refine follows_mark hfew hahead fun w h => ?_
  exact loop_of_turns (fun _ _ => True) (EndsList text most active item)
    (fun done r w h _ => listTurn_at hfew hitem hshort h done) h trivial

end

/-! ## Data -/

section

variable {item' : Checked Datum} {item : Reader Datum}
  (hitem : ∀ r, Follows text most active item' item r)
include hitem

theorem follows_abbreviated (a : Abbreviation) :
    Follows text most active (abbreviated a item') (Reader.abbreviated a item) r := by
  refine follows_bind (follows_advance hfew) fun _ r₁ _ => ?_
  exact follows_bind (hitem r₁) fun _ _ _ => follows_pure _

/-- The comma is passed, and then an at sign if it is there. -/
theorem follows_unquoted {rest : List Char} (hahead : r.cursor.ahead = ',' :: rest) :
    Follows text most active (unquoted item') (Reader.unquoted item) r := by
  refine follows_mark hfew hahead ?_
  refine follows_bind (follows_accept hfew '@') fun splicing r₁ _ => ?_
  split
  · exact follows_bind (hitem r₁) fun _ _ _ => follows_pure _
  · exact follows_bind (hitem r₁) fun _ _ _ => follows_pure _

end

omit hfew in
/-- An atom is followed if its token is. -/
theorem follows_atom {token' : Checked Atom} {token : Scan Atom}
    (h : Follows text most active token' (Reader.scan token) r) :
    Follows text most active (atom token') (Reader.atom token) r :=
  follows_bind h fun _ _ _ => follows_pure _

theorem follows_number : Follows text most active number (Reader.number Scan.numeral) r :=
  follows_bind (follows_numeral hfew) fun _ _ _ => follows_pure _

/-- The readers of the parts of a datum, or none where no depth is left. -/
inductive FollowsInner (text : List Char) (most active : Nat) :
    Option (Checked Datum) → Option (Reader Datum) → Prop where
  | none : FollowsInner text most active none none
  | some {item' : Checked Datum} {item : Reader Datum}
      (follows : ∀ r, Follows text most active item' item r) (short : ∀ r, Shortens item r) :
      FollowsInner text most active (some item') (some item)

variable {inner' : Option (Checked Datum)} {inner : Option (Reader Datum)}

omit hfew in
/-- Without depth both fail with the same cause, and with it the form is followed. -/
theorem follows_nested (hinner : FollowsInner text most active inner' inner)
    {form' : Checked Datum → Checked Datum} {form : Reader Datum → Reader Datum}
    (hform : ∀ item' item, (∀ r, Follows text most active item' item r) →
      (∀ r, Shortens item r) → Follows text most active (form' item') (form item) r) :
    Follows text most active (nested inner' form') (Reader.nested inner form) r := by
  cases hinner with
  | none => exact follows_fail _
  | some follows short => exact hform _ _ follows short

/-- Behind a sign a digit decides in both whether it belongs to a number. -/
theorem follows_signed :
    Follows text most active (form inner' .sign) (Reader.form inner .sign) r := by
  refine follows_bind (follows_peekAt 1) fun found r₁ _ => ?_
  split
  · exact follows_number hfew
  · exact follows_atom (follows_symbolToken hfew)

/-- Every form is followed, from its first character on. -/
theorem follows_form (hinner : FollowsInner text most active inner' inner) {x : Char}
    {rest : List Char} (hahead : r.cursor.ahead = x :: rest) :
    Follows text most active (form inner' (.ofChar x)) (Reader.form inner (.ofChar x)) r := by
  unfold Opening.ofChar
  split
  · exact follows_atom (follows_hashToken hfew)
  · exact follows_nested hinner fun _ _ hitem hshort => follows_list hfew hitem hshort hahead
  · exact follows_nested hinner fun _ _ hitem _ => follows_abbreviated hfew hitem .quote
  · exact follows_nested hinner fun _ _ hitem _ => follows_abbreviated hfew hitem .quasiquote
  · exact follows_nested hinner fun _ _ hitem _ => follows_unquoted hfew hitem hahead
  · exact follows_signed hfew
  · exact follows_signed hfew
  · exact follows_atom (follows_stringToken hfew hahead)
  · split
    · exact follows_number hfew
    · exact follows_atom (follows_symbolToken hfew)

omit hfew in
/-- When a datum is begun, one more is being read, and the depth allows for it. -/
theorem enter_at {w : Walk} (h : w.At text most active 0 r) (hmost : active + 1 ≤ most) :
    Comes text most (active + 1) 1 (enter w) () r := by
  refine ⟨_, rfl, { h with
    active := congrArg (· + 1) h.active
    begun := congrArg (· + 1) h.begun
    sound := { h.sound with begun := fun n hn => ?_ } }⟩
  rcases List.mem_cons.mp hn with rfl | hn
  · rw [h.active]
    exact hmost
  · exact h.sound.begun n hn

omit hfew in
/-- The character is noted with the line that both have. -/
theorem note_at {w : Walk} (h : w.At text most active 1 r) (x : Char) :
    Comes text most active 0 (note x w) () (r.noted x) := by
  refine ⟨_, rfl, { h with sightings := ?_, begun := h.begun, sound := { h.sound with } }⟩
  show Sighting.mk w.line x :: w.sightings = Sighting.mk r.cursor.line x :: r.sightings
  rw [h.line, h.sightings]

omit hfew in
/-- When a datum was read, one less is being read. -/
theorem leave_at {w : Walk} (h : w.At text most (active + 1) 0 r) :
    Comes text most active 0 (leave w) () r := by
  refine ⟨_, rfl, { h with active := ?_, sound := { h.sound with } }⟩
  show w.active - 1 = active
  rw [h.active]
  rfl

/-- One datum more is being read while it is read. -/
theorem follows_datumWith (hmost : active + 1 ≤ most)
    (hinner : FollowsInner text most (active + 1) inner' inner) :
    Follows text most active (datumWith inner') (Reader.datumWith inner) r := by
  intro w h
  obtain ⟨w₁, henter, h₁⟩ := enter_at h hmost
  obtain ⟨w₂, hfiller, h₂⟩ := filler_at h₁ hfew
  have hpeek := peek_at h₂
  cases hahead : r.skipFiller.cursor.ahead with
  | nil =>
    rw [hahead] at hpeek
    have hrun : datumWith inner' w = .error (.cause .nothingToRead) w₂ :=
      (bind_of_ok henter).trans ((bind_of_ok hfiller).trans (bind_of_ok hpeek))
    rw [hrun, Reader.datumWith_nil hahead]
    exact .error (h₂.stopped (Nat.le_refl 1))
  | cons x rest =>
    rw [hahead] at hpeek
    obtain ⟨w₃, hnote, h₃⟩ := note_at h₂ x
    have hrun : datumWith inner' w = (do
        let d ← form inner' (Opening.ofChar x)
        leave
        return d : Checked Datum) w₃ :=
      (bind_of_ok henter).trans ((bind_of_ok hfiller).trans ((bind_of_ok hpeek).trans
        (bind_of_ok hnote)))
    have hagrees := follows_form hfew hinner (r := r.skipFiller.noted x) hahead w₃ h₃
    rw [hrun, Reader.datumWith_cons hahead]
    generalize Reader.form inner (Opening.ofChar x) (r.skipFiller.noted x) = result at hagrees
    generalize hform : form inner' (Opening.ofChar x) w₃ = out at hagrees
    cases hagrees with
    | ok place =>
      obtain ⟨w₄, hleave, h₄⟩ := leave_at place
      rw [bind_of_ok hform, bind_of_ok hleave]
      exact .ok h₄
    | error stopped =>
      rw [bind_of_error hform]
      exact .error stopped

/-- By induction on the depth, reading a datum is followed. -/
theorem follows_datum (depth : Nat) (hmost : active + depth + 1 ≤ most) :
    Follows text most active (datum depth) (Reader.datum depth) r := by
  -- by induction on the depth, which is taken up by the data that are being read
  induction depth generalizing active r with
  | zero => exact follows_datumWith hfew hmost .none
  | succ depth ih =>
    refine follows_datumWith hfew (by omega) (.some (fun r => ih ?_) (Reader.shortens_datum depth))
    omega

theorem follows_onlyDatum (depth : Nat) (hmost : depth + 1 ≤ most) :
    Follows text most 0 (onlyDatum depth) (Reader.onlyDatum depth) r := by
  refine follows_bind (follows_datum hfew depth (by omega)) fun d r₁ _ => ?_
  refine follows_bind (follows_filler hfew) fun _ r₂ _ => ?_
  refine follows_bind follows_peek fun found r₃ _ => ?_
  cases found with
  | none => exact follows_pure _
  | some x => exact follows_fail _

end

end Checked

/-! ## Whole texts -/

namespace Datum

/-- The checked run begins where the reader does. -/
theorem start_at (text : String) (most : Nat) :
    (Walk.start text).At text.toList most 0 0 (start text) where
  text_eq := rfl
  whole := rfl
  position := rfl
  passed := rfl
  line := rfl
  counts := Cursor.counts_ofText text
  sightings := rfl
  active := rfl
  begun := rfl
  sound :=
    { stops := fun place hp => by
        rw [List.mem_singleton.mp hp]
        exact ⟨[], text.toList, rfl, rfl, rfl⟩
      forward := List.pairwise_singleton _ _
      latest := rfl
      cuts := fun piece hp => absurd hp List.not_mem_nil
      begun := fun n hn => absurd hn List.not_mem_nil }

/-- A checked run comes to a datum or to a cause, the same as the reader does. -/
theorem checked_run (settings : Settings) (text : String)
    (hfew : text.toList.count '\n' < 2 ^ 32 - 1) :
    ∃ w : Walk, Checked.onlyDatum settings.depth (Walk.start text)
        = (match run settings text with
          | .ok d _ => .ok d w
          | .error e _ => .error (.cause e) w) ∧
      w.Stopped text.toList (settings.depth + 1) (endOf (run settings text)) := by
  have hagrees := Checked.follows_onlyDatum hfew settings.depth (Nat.le_refl _) (Walk.start text)
    (start_at text (settings.depth + 1))
  change Agrees _ _ _ _ (run settings text) at hagrees
  generalize Checked.onlyDatum settings.depth (Walk.start text) = out at hagrees
  generalize run settings text = result at hagrees
  cases hagrees with
  | ok place => exact ⟨_, rfl, place.stopped (Nat.zero_le 1)⟩
  | error stopped => exact ⟨_, rfl, stopped⟩

/-- The checked run comes to what the reader comes to. Every place on the way is one of the text,
and lies behind the one before it. Every piece that is cut out is one of the text. Data are begun at
most once for every character, and once more, and at most one more is being read than the depth
allows for nested ones. A datum that was read takes more than the filler in front of it, so there is
less ahead after every item of a list. -/
theorem read_safely (settings : Settings) (text : String)
    (hfew : text.toList.count '\n' < 2 ^ 32 - 1) :
    (∃ w : Walk, Checked.onlyDatum settings.depth (Walk.start text)
        = (match run settings text with
          | .ok d _ => .ok d w
          | .error e _ => .error (.cause e) w) ∧
      w.Sound text.toList (settings.depth + 1) ∧ w.begun.length ≤ text.toList.length + 1) ∧
    (∀ (depth : Nat) (r r' : Reading) (d : Datum), Reader.datum depth r = .ok d r' →
      r'.cursor.ahead.length < r.skipFiller.cursor.ahead.length) ∧
    ∀ (depth : Nat) (x : Char) (clock : List Char) (done : List Datum) (r r' : Reading) (d : Datum),
      Reader.ListStep.ofAhead r.skipFiller.cursor.ahead = .item →
      Reader.datum depth r.skipFiller = .ok d r' →
      Reader.listRest (Reader.datum depth) (x :: clock) done r
          = Reader.listRest (Reader.datum depth) clock (d :: done) r' ∧
        r'.cursor.ahead.length < r.cursor.ahead.length := by
  refine ⟨?_, fun depth r r' d h => ?_, fun depth x clock done r r' d hstep h => ⟨?_, ?_⟩⟩
  · obtain ⟨w, hrun, hstopped⟩ := checked_run settings text hfew
    have hlen := length_sightings_le settings text
    have hbegun := hstopped.begun
    exact ⟨w, hrun, hstopped.sound, by omega⟩
  · rw [← Reader.datum_skipFiller] at h
    exact Reader.shortens_datum depth _ d r' h
  · rw [Reader.listRest_turn, hstep]
    exact bind_of_ok h
  · exact Nat.lt_of_lt_of_le (Reader.shortens_datum depth _ d r' h)
      r.cursor.passes_skipFiller.length_le

/-- A list of a string with an escape behind a character of two bytes. -/
theorem read_safely_sample :
    ∃ w : Walk, Checked.onlyDatum 1 (Walk.start "(\"é\\n\")")
        = .ok (list [.atom (.string "é\n")]) w ∧
      w.Sound "(\"é\\n\")".toList 2 ∧ w.begun.length ≤ 8 := by
  obtain ⟨⟨w, hrun, hsound, hbegun⟩, _⟩ :=
    read_safely ⟨"sample", 1⟩ "(\"é\\n\")" (by decide)
  exact ⟨w, hrun, hsound, hbegun⟩

/-- The character in front of the escape is one piece, and behind it there is nothing. -/
example : (endOf (Checked.onlyDatum 1 (Walk.start "(\"é\\n\")"))).cuts = [(6, 6), (2, 4)] := by
  decide +kernel

end Datum

end Sexpr
