import Sexpr.Proofs.Reader.Checked
import Sexpr.Proofs.Reader.Location
import Sexpr.Proofs.Text.Slice

/-!
# Walks along a text

A checked run is at the place of a reading if its offset is the number of bytes that the reading has
passed. From there the steps that only look, move or cut something out are possible, and they come
to the place to which the steps of the reader come. The lines of a text with fewer than `2 ^ 32 - 1`
line feeds all have a number.

> `Walk.Sound`: what is true of everything that is written down on a run.
> `Walk.At`: a run that is at the place of a reading.
> `advance_at`, `slice_at`: a step forward, and a piece between two boundaries.
> `loop_of_turns`: a loop in which every turn but the last moves on.
> `skipWhile_at`, `filler_at`: the loops that pass characters of one kind.
-/

namespace Sexpr

/-! ## What is written down -/

/-- A character of the text begins at the offset, or the text ends there. -/
def IsBoundary (text : List Char) (offset : Nat) : Prop :=
  ∃ before after, text = before ++ after ∧ offset = byteCount before

/-- No boundary is behind the end of the text. -/
theorem IsBoundary.le {text : List Char} {offset : Nat} (h : IsBoundary text offset) :
    offset ≤ byteCount text := by
  obtain ⟨before, after, rfl, rfl⟩ := h
  rw [byteCount_append]
  exact Nat.le_add_right _ _

/-- The place is one of the text, on the line that the line feeds before it make. -/
def IsPlace (text : List Char) (place : Nat × UInt32) : Prop :=
  ∃ before after, text = before ++ after ∧ place.1 = byteCount before ∧
    place.2.toNat = 1 + before.count '\n'

/-- The piece begins and ends at boundaries, and it ends inside the text, where it begins or behind
that. -/
def IsPiece (text : List Char) (piece : Nat × Nat) : Prop :=
  piece.1 ≤ piece.2 ∧ piece.2 ≤ byteCount text ∧ IsBoundary text piece.1 ∧ IsBoundary text piece.2

/-- All places are places of the text, each behind the one before it, and the last one is where the
run is. All pieces are pieces of the text. There were never more than `most` data being read. -/
structure Walk.Sound (text : List Char) (most : Nat) (w : Walk) : Prop where
  stops : ∀ place ∈ w.stops, IsPlace text place
  forward : w.stops.Pairwise fun later earlier => earlier.1 < later.1
  latest : w.stops.head? = some (w.position, w.line)
  cuts : ∀ piece ∈ w.cuts, IsPiece text piece
  begun : ∀ n ∈ w.begun, n ≤ most

/-- The run is at the last of its places. -/
theorem Walk.Sound.le_position {text : List Char} {most : Nat} {w : Walk} (h : w.Sound text most) :
    ∀ place ∈ w.stops, place.1 ≤ w.position := by
  obtain ⟨rest, hstops⟩ := List.head?_eq_some_iff.mp h.latest
  have hforward := h.forward
  rw [hstops, List.pairwise_cons] at hforward
  intro place hp
  rw [hstops] at hp
  rcases List.mem_cons.mp hp with rfl | hp
  · exact Nat.le_refl _
  · exact Nat.le_of_lt (hforward.1 place hp)

/-! ## Where a run is -/

/-- The run is at the place of the reading and has come upon the same data; `active` data are being
read, and of those that were begun `pending` have not been come upon yet. -/
structure Walk.At (text : List Char) (most active pending : Nat) (w : Walk) (r : Reading) :
    Prop where
  text_eq : w.text = text
  whole : r.cursor.text = text
  position : w.position = r.cursor.position
  passed : r.cursor.position = byteCount r.cursor.passed
  line : w.line = r.cursor.line
  counts : r.cursor.Counts
  sightings : w.sightings = r.sightings
  active : w.active = active
  begun : w.begun.length = r.sightings.length + pending
  sound : w.Sound text most

/-- A step leads to the place of a reading with this result. -/
def Walk.Comes {α : Type} (text : List Char) (most active pending : Nat)
    (out : EStateM.Result Halt Walk α) (a : α) (r : Reading) : Prop :=
  ∃ w, out = .ok a w ∧ w.At text most active pending r

namespace Checked

open Walk (Comes)

section

variable {text : List Char} {most active pending : Nat} {w : Walk} {r : Reading}

/-! ## Looking -/

theorem get_run (w : Walk) : (get : Checked Walk) w = .ok w w := rfl

/-- The text ahead is that of the reading. -/
theorem ahead_at (h : w.At text most active pending r) : ahead w = .ok r.cursor.ahead w := by
  have hdrop : dropBytes? w.position w.text = some r.cursor.ahead := by
    rw [h.position, h.passed, h.text_eq, ← h.whole, ← byteCount_reverse]
    exact dropBytes?_byteCount _ _
  unfold ahead
  rw [bind_of_ok (get_run w), hdrop]
  rfl

/-- So is the next character. -/
theorem peek_at (h : w.At text most active pending r) :
    peek w = .ok r.cursor.ahead.head? w :=
  bind_of_ok (ahead_at h)

/-- So is any character ahead. -/
theorem peekAt_at (h : w.At text most active pending r) (n : Nat) :
    peekAt n w = .ok r.cursor.ahead[n]? w :=
  bind_of_ok (ahead_at h)

/-! ## Moving -/

/-- The place behind the next character. -/
theorem isPlace_advance (h : w.At text most active pending r)
    (hfew : text.count '\n' < 2 ^ 32 - 1) {x : Char} {rest : List Char}
    (hahead : r.cursor.ahead = x :: rest) :
    IsPlace text (r.cursor.advance.position, r.cursor.advance.line) := by
  have hpass := Cursor.passes_advanceBy r.cursor 1
  refine ⟨r.cursor.advance.passed.reverse, r.cursor.advance.ahead, ?_, ?_, ?_⟩
  · exact h.whole.symm.trans hpass.text_eq.symm
  · show r.cursor.advance.position = _
    rw [byteCount_reverse, Cursor.passed_advance hahead, byteCount, ← h.passed, Cursor.advance,
      hahead]
    exact Nat.add_comm _ _
  · have hcount := (hpass.counts h.counts).toNat (by rw [hpass.text_eq, h.whole]; exact hfew)
    rw [List.count_reverse]
    exact hcount

/-- The line behind a line feed has a number. -/
theorem line_ne_last (h : w.At text most active pending r)
    (hfew : text.count '\n' < 2 ^ 32 - 1) {rest : List Char}
    (hahead : r.cursor.ahead = '\n' :: rest) : r.cursor.line + 1 ≠ 0 := by
  obtain ⟨_, _, _, _, hline⟩ := isPlace_advance h hfew hahead
  have hnext : r.cursor.advance.line = r.cursor.line + 1 := by
    rw [Cursor.advance, hahead]
    rfl
  intro hzero
  rw [hnext, hzero] at hline
  change 0 = 1 + _ at hline
  omega

/-- Moving behind the next character leads to a place of the text. -/
theorem moveTo_advance (h : w.At text most active pending r)
    (hfew : text.count '\n' < 2 ^ 32 - 1) {x : Char} {rest : List Char}
    (hahead : r.cursor.ahead = x :: rest) :
    Comes text most active pending
      (moveTo r.cursor.advance.position r.cursor.advance.line w) () (r.advanceBy 1) := by
  have hpass := Cursor.passes_advanceBy r.cursor 1
  have hplace := isPlace_advance h hfew hahead
  have hmoved : r.cursor.advance.position = r.cursor.position + x.utf8Size := by
    rw [Cursor.advance, hahead]
  have hlt : r.cursor.position < r.cursor.advance.position := by
    have hpos := x.utf8Size_pos
    omega
  have hpassed : r.cursor.advance.position = byteCount r.cursor.advance.passed := by
    rw [Cursor.passed_advance hahead, byteCount, ← h.passed, hmoved]
    exact Nat.add_comm _ _
  have hbehind : ∀ place ∈ w.stops, place.1 < r.cursor.advance.position := fun place hp =>
    Nat.lt_of_le_of_lt (h.position ▸ h.sound.le_position place hp) hlt
  refine ⟨_, rfl, { h with
    whole := hpass.text_eq.trans h.whole
    position := rfl
    passed := hpassed
    line := rfl
    counts := hpass.counts h.counts
    sound := { h.sound with
      stops := fun place hp => ?_
      forward := List.pairwise_cons.mpr ⟨hbehind, h.sound.forward⟩
      latest := rfl } }⟩
  rcases List.mem_cons.mp hp with rfl | hp
  · exact hplace
  · exact h.sound.stops place hp

/-- There is always a step forward. -/
theorem advance_at (h : w.At text most active pending r)
    (hfew : text.count '\n' < 2 ^ 32 - 1) :
    Comes text most active pending (advance w) () (r.advanceBy 1) := by
  cases hahead : r.cursor.ahead with
  | nil =>
    have hpeek := peek_at h
    rw [hahead] at hpeek
    have hstay : r.advanceBy 1 = r := by
      show ({ r with cursor := r.cursor.advanceBy 1 } : Reading) = r
      rw [Cursor.advanceBy_of_nil hahead]
    rw [hstay]
    exact ⟨w, bind_of_ok hpeek, h⟩
  | cons x rest =>
    have hpeek := peek_at h
    rw [hahead] at hpeek
    have hline : ¬(x = '\n' ∧ w.line + 1 = 0) := by
      rintro ⟨rfl, hzero⟩
      rw [h.line] at hzero
      exact line_ne_last h hfew hahead hzero
    have hrun : advance w = moveTo r.cursor.advance.position r.cursor.advance.line w := by
      refine (bind_of_ok hpeek).trans ?_
      show (if x = '\n' ∧ w.line + 1 = 0 then throw .broken
        else moveTo (w.position + x.utf8Size) (if x = '\n' then w.line + 1 else w.line)) w = _
      rw [if_neg hline, h.position, h.line, Cursor.advance, hahead]
    rw [hrun]
    exact moveTo_advance h hfew hahead

/-- Several steps forward, one after the other. -/
theorem advanceBy_at (h : w.At text most active pending r)
    (hfew : text.count '\n' < 2 ^ 32 - 1) (n : Nat) :
    Comes text most active pending (advanceBy n w) () (r.advanceBy n) := by
  induction n generalizing w r with
  | zero => exact ⟨w, rfl, h⟩
  | succ n ih =>
    obtain ⟨w₁, hrun, h₁⟩ := advance_at h hfew
    obtain ⟨w₂, hrun₂, h₂⟩ := ih h₁
    exact ⟨w₂, (bind_of_ok hrun).trans hrun₂, h₂⟩

/-- The expected character is passed if it is the next one. -/
theorem accept_at (h : w.At text most active pending r)
    (hfew : text.count '\n' < 2 ^ 32 - 1) (x : Char) :
    Comes text most active pending (accept x w) (r.cursor.accept x).1
      { r with cursor := (r.cursor.accept x).2 } := by
  have hrun : accept x w = (if r.cursor.ahead.head? = some x then do
      advance
      return true
    else return false : Checked Bool) w := bind_of_ok (peek_at h)
  rw [hrun, Cursor.accept, Cursor.peek?]
  by_cases hnext : r.cursor.ahead.head? = some x
  · rw [if_pos hnext, if_pos hnext]
    obtain ⟨w₁, hadvance, h₁⟩ := advance_at h hfew
    exact ⟨w₁, bind_of_ok hadvance, h₁⟩
  · rw [if_neg hnext, if_neg hnext]
    exact ⟨w, rfl, h⟩

/-! ## Cutting out -/

theorem cut_run (start stop : Nat) (w : Walk) :
    (modify fun w => { w with cuts := (start, stop) :: w.cuts } : Checked Unit) w
      = .ok () { w with cuts := (start, stop) :: w.cuts } := rfl

/-- What stands between two boundaries can be cut out. -/
theorem slice_at (h : w.At text most active pending r) {before run after : List Char}
    (htext : text = before ++ (run ++ after)) :
    Comes text most active pending (slice (byteCount before) (byteCount (before ++ run)) w)
      (String.ofList run) r := by
  have hlen := byteCount_append before run
  have hpiece : IsPiece text (byteCount before, byteCount (before ++ run)) := by
    have hstop : IsBoundary text (byteCount (before ++ run)) :=
      ⟨before ++ run, after, by rw [htext, List.append_assoc], rfl⟩
    refine ⟨?_, hstop.le, ⟨before, _, htext, rfl⟩, hstop⟩
    show byteCount before ≤ byteCount (before ++ run)
    omega
  have hcut : (dropBytes? (byteCount before) w.text).bind
      (takeBytes? (byteCount (before ++ run) - byteCount before)) = some run := by
    rw [h.text_eq, htext, dropBytes?_byteCount, hlen, Nat.add_sub_cancel_left, Option.bind_some]
    exact takeBytes?_byteCount run after
  have hrun : slice (byteCount before) (byteCount (before ++ run)) w
      = .ok (String.ofList run)
        { w with cuts := (byteCount before, byteCount (before ++ run)) :: w.cuts } := by
    unfold slice
    rw [bind_of_ok (cut_run _ _ w), bind_of_ok (get_run _), if_neg (by omega), hcut]
    rfl
  refine ⟨_, hrun, { h with sound := { h.sound with cuts := fun piece hp => ?_ } }⟩
  rcases List.mem_cons.mp hp with rfl | hp
  · exact hpiece
  · exact h.sound.cuts piece hp

/-- A chunk lies between two boundaries, the place being the second one. -/
theorem exists_chunk (h : w.At text most active pending r) {start : Nat} {chunk : List Char}
    (hchunk : r.cursor.HasChunk start chunk) :
    ∃ before after, text = before ++ (chunk ++ after) ∧ start = byteCount before ∧
      w.position = byteCount (before ++ chunk) := by
  obtain ⟨before, hpassed⟩ := hchunk.passed
  have hstop : w.position = byteCount (before.reverse ++ chunk) := by
    rw [h.position, h.passed, hpassed, byteCount_append, byteCount_append, byteCount_reverse,
      byteCount_reverse, Nat.add_comm]
  refine ⟨before.reverse, r.cursor.ahead, ?_, ?_, hstop⟩
  · rw [← h.whole, Cursor.text, hpassed, List.reverse_append, List.reverse_reverse,
      List.append_assoc]
  · have hposition := hchunk.position
    rw [← h.position, hstop, byteCount_append] at hposition
    omega

/-- What was passed since an offset can be cut out. -/
theorem since_at (h : w.At text most active pending r) {start : Nat} {chunk : List Char}
    (hchunk : r.cursor.HasChunk start chunk) :
    Comes text most active pending (since start w) (String.ofList chunk) r := by
  obtain ⟨before, after, htext, hstart, hstop⟩ := exists_chunk h hchunk
  have hslice := slice_at h htext
  rw [← hstart, ← hstop] at hslice
  exact hslice

/-! ## Loops -/

/-- What a turn comes to, if the loop is to come to `Out` from places with `Inv`: the last turn, or
one that fails, comes to it. After any other one there is less ahead, and what the loop comes to
from there is what it comes to from here. -/
inductive Turn {α β : Type} (text : List Char) (most active pending : Nat)
    (Inv : α → Reading → Prop) (Out : α → Reading → EStateM.Result Halt Walk β → Prop)
    (a : α) (r : Reading) : EStateM.Result Halt Walk (α ⊕ β) → Prop where
  | again {a' : α} {r' : Reading} {w' : Walk} (place : w'.At text most active pending r')
      (inv : Inv a' r') (shorter : r'.cursor.ahead.length < r.cursor.ahead.length)
      (out : ∀ result, Out a' r' result → Out a r result) :
      Turn text most active pending Inv Out a r (.ok (.inl a') w')
  | last {b : β} {w' : Walk} (out : Out a r (.ok b w')) :
      Turn text most active pending Inv Out a r (.ok (.inr b) w')
  | failed {e : Halt} {w' : Walk} (out : Out a r (.error e w')) :
      Turn text most active pending Inv Out a r (.error e w')

/-- A loop has turns enough if every turn but the last one moves on. -/
theorem loop_of_turns {α β : Type} {turn : α → Checked (α ⊕ β)} (Inv : α → Reading → Prop)
    (Out : α → Reading → EStateM.Result Halt Walk β → Prop)
    (hturn : ∀ a r w, w.At text most active pending r → Inv a r →
      Turn text most active pending Inv Out a r (turn a w)) {a : α}
    (h : w.At text most active pending r) (hinv : Inv a r) : Out a r (loop turn a w) := by
  have hclock : ∀ (clock : Nat) (a : α) (r : Reading) (w : Walk),
      w.At text most active pending r → Inv a r → r.cursor.ahead.length < clock →
      Out a r (loopFor turn clock a w) := by
    -- by induction on the turns that are left, which are more than the characters ahead
    intro clock
    induction clock with
    | zero => exact fun _ _ _ _ _ hlt => absurd hlt (Nat.not_lt_zero _)
    | succ clock ih =>
      intro a r w h hinv hlt
      have hout := hturn a r w h hinv
      cases hrun : turn a w with
      | error e w' =>
        rw [hrun] at hout
        cases hout with
        | failed out =>
          rw [loopFor, bind_of_error hrun]
          exact out
      | ok next w' =>
        rw [hrun] at hout
        rw [loopFor, bind_of_ok hrun]
        cases hout with
        | last out => exact out
        | again place inv shorter out => exact out _ (ih _ _ _ place inv (by omega))
  have hrun : loop turn a w = loopFor turn (r.cursor.ahead.length + 1) a w :=
    bind_of_ok (ahead_at h)
  rw [hrun]
  exact hclock _ a r w h hinv (Nat.lt_succ_self _)

/-- One step forward leaves less ahead. -/
theorem length_advance {x : Char} {rest : List Char} (hahead : r.cursor.ahead = x :: rest) :
    (r.advanceBy 1).cursor.ahead.length < r.cursor.ahead.length := by
  rw [Reader.ahead_advanceBy_one hahead, hahead]
  exact Nat.lt_succ_self _

/-- The loop passes what the reading passes. -/
theorem skipWhile_at (h : w.At text most active pending r)
    (hfew : text.count '\n' < 2 ^ 32 - 1) (p : Char → Bool) :
    Comes text most active pending (skipWhile p w) ()
      { r with cursor := (r.cursor.takeWhile p).2 } := by
  refine loop_of_turns (fun _ _ => True)
    (fun _ r out => Comes text most active pending out ()
      { r with cursor := (r.cursor.takeWhile p).2 }) (fun _ r w h _ => ?_) h trivial
  have hrun : whileTurn p () w = (if r.cursor.ahead.head?.any p then do
      advance
      return .inl ()
    else return .inr () : Checked (Unit ⊕ Unit)) w := bind_of_ok (peek_at h)
  rw [hrun]
  cases hahead : r.cursor.ahead with
  | nil =>
    refine .last ⟨w, rfl, ?_⟩
    rw [Cursor.takeWhile_snd, hahead]
    exact h
  | cons x rest =>
    rw [List.head?_cons, Option.any_some]
    by_cases hx : p x = true
    · rw [if_pos hx]
      obtain ⟨w₁, hadvance, h₁⟩ := advance_at h hfew
      rw [bind_of_ok hadvance]
      refine .again h₁ trivial (length_advance hahead) fun result hout => ?_
      have hsame : ((r.advanceBy 1).cursor.takeWhile p).2 = (r.cursor.takeWhile p).2 := by
        rw [Cursor.takeWhile_snd, Cursor.takeWhile_snd, Reader.ahead_advanceBy_one hahead, hahead,
          List.takeWhile_cons_of_pos hx, List.length_cons, Cursor.advanceBy_succ]
        rfl
      rw [hsame] at hout
      exact hout
    · rw [if_neg hx]
      refine .last ⟨w, rfl, ?_⟩
      rw [Cursor.takeWhile_snd, hahead, List.takeWhile_cons_of_neg hx]
      exact h

/-! ## Filler -/

/-- A comment is passed with the line feed that ends it. -/
theorem comment_at (h : w.At text most active pending r)
    (hfew : text.count '\n' < 2 ^ 32 - 1) :
    ∃ c, Comes text most active pending (loop commentTurn () w) () { r with cursor := c } ∧
      r.cursor.Passes c ∧ dropFiller false c.ahead = dropFiller true r.cursor.ahead ∧
      (r.cursor.ahead ≠ [] → c.ahead.length < r.cursor.ahead.length) := by
  refine loop_of_turns (fun _ _ => True)
    (fun _ r out => ∃ c, Comes text most active pending out () { r with cursor := c } ∧
      r.cursor.Passes c ∧ dropFiller false c.ahead = dropFiller true r.cursor.ahead ∧
      (r.cursor.ahead ≠ [] → c.ahead.length < r.cursor.ahead.length))
    (fun _ r w h _ => ?_) h trivial
  cases hahead : r.cursor.ahead with
  | nil =>
    have hpeek := peek_at h
    rw [hahead] at hpeek
    have hrun : commentTurn () w = .ok (.inr ()) w := bind_of_ok hpeek
    rw [hrun]
    exact .last ⟨r.cursor, ⟨w, rfl, h⟩, Cursor.passes_refl _, by rw [hahead]; rfl,
      fun hne => absurd hahead hne⟩
  | cons x rest =>
    have hpeek := peek_at h
    rw [hahead] at hpeek
    obtain ⟨w₁, hadvance, h₁⟩ := advance_at h hfew
    have hrun : commentTurn () w = .ok (if x = '\n' then .inr () else .inl ()) w₁ :=
      (bind_of_ok hpeek).trans (bind_of_ok hadvance)
    have hpass := Cursor.passes_advanceBy r.cursor 1
    have hshort := length_advance hahead
    have hbehind := Reader.ahead_advanceBy_one hahead
    rw [hrun]
    by_cases hx : x = '\n'
    · rw [if_pos hx]
      refine .last ⟨_, ⟨w₁, rfl, h₁⟩, hpass, ?_, fun _ => hahead ▸ hshort⟩
      show dropFiller false (r.advanceBy 1).cursor.ahead = _
      rw [hbehind, hahead, hx]
      rfl
    · rw [if_neg hx]
      refine .again h₁ trivial hshort fun result hout => ?_
      obtain ⟨c, hcomes, hpass', hdrop, _⟩ := hout
      refine ⟨c, hcomes, hpass.trans hpass', ?_, fun _ => ?_⟩
      · rw [hdrop, hbehind, hahead, dropFiller, if_pos rfl, bne_iff_ne.mpr hx]
      · exact Nat.lt_of_le_of_lt hpass'.length_le hshort

/-- Blanks in front make no difference to what filler leaves. -/
theorem dropFiller_dropWhile (cs : List Char) :
    dropFiller false (cs.dropWhile isBlank) = dropFiller false cs := by
  induction cs with
  | nil => rfl
  | cons x cs ih =>
    by_cases hx : isBlank x = true
    · rw [List.dropWhile_cons_of_pos hx, dropFiller_blank cs hx, ih]
    · rw [List.dropWhile_cons_of_neg hx]

/-- What is ahead behind blanks is filler only if it is a comment. -/
theorem dropFiller_of_dropWhile {cs : List Char} (h : (cs.dropWhile isBlank).head? ≠ some ';') :
    cs.dropWhile isBlank = dropFiller false cs := by
  rw [← dropFiller_dropWhile]
  cases hdrop : cs.dropWhile isBlank with
  | nil => rfl
  | cons x rest =>
    have hblank : isBlank x = false := by
      have hnot := List.head?_dropWhile_not isBlank cs
      rw [hdrop] at hnot
      simpa using hnot
    rw [hdrop, List.head?_cons] at h
    exact (dropFiller_of_solid rest hblank fun hsemi => h (by rw [hsemi])).symm

/-- White space and comments are passed as by the reading. -/
theorem filler_at (h : w.At text most active pending r)
    (hfew : text.count '\n' < 2 ^ 32 - 1) :
    Comes text most active pending (filler w) () r.skipFiller := by
  have hloop : ∃ c, Comes text most active pending (filler w) () { r with cursor := c } ∧
      r.cursor.Passes c ∧ c.ahead = dropFiller false r.cursor.ahead := by
    refine loop_of_turns (fun _ _ => True)
      (fun _ r out => ∃ c, Comes text most active pending out () { r with cursor := c } ∧
        r.cursor.Passes c ∧ c.ahead = dropFiller false r.cursor.ahead)
      (fun _ r w h _ => ?_) h trivial
    obtain ⟨w₁, hblanks, h₁⟩ := skipWhile_at h hfew isBlank
    have hpass : r.cursor.Passes (r.cursor.takeWhile isBlank).2 := Cursor.passes_advanceBy _ _
    have hahead := Cursor.ahead_takeWhile r.cursor isBlank
    have hrun : fillerTurn () w = (if (r.cursor.takeWhile isBlank).2.ahead.head? = some ';' then do
        loop commentTurn ()
        return .inl ()
      else return .inr () : Checked (Unit ⊕ Unit)) w₁ :=
      (bind_of_ok hblanks).trans (bind_of_ok (peek_at h₁))
    rw [hrun]
    by_cases hsemi : (r.cursor.takeWhile isBlank).2.ahead.head? = some ';'
    · obtain ⟨rest, hnext⟩ := List.head?_eq_some_iff.mp hsemi
      obtain ⟨c, ⟨w₂, hcomment, h₂⟩, hpass', hdrop, hshort⟩ := comment_at h₁ hfew
      rw [if_pos hsemi, bind_of_ok hcomment]
      refine .again h₂ trivial ?_ fun result hout => ?_
      · exact Nat.lt_of_lt_of_le (hshort (hnext ▸ List.cons_ne_nil _ _)) hpass.length_le
      · obtain ⟨c', hcomes, hpass'', hdrop'⟩ := hout
        refine ⟨c', hcomes, (hpass.trans hpass').trans hpass'', ?_⟩
        have hsame : dropFiller true (';' :: rest) = dropFiller false (';' :: rest) := rfl
        rw [hdrop', hdrop, hnext, hsame, ← hnext, hahead, dropFiller_dropWhile]
    · rw [if_neg hsemi]
      refine .last ⟨_, ⟨w₁, rfl, h₁⟩, hpass, ?_⟩
      rw [hahead] at hsemi ⊢
      exact dropFiller_of_dropWhile hsemi
  obtain ⟨c, hcomes, hpass, hahead⟩ := hloop
  have hplace : c = r.cursor.skipFiller := by
    refine hpass.eq_of_ahead r.cursor.passes_skipFiller ?_
    rw [hahead, Cursor.ahead_skipFiller]
  rw [hplace] at hcomes
  exact hcomes

end

end Checked

end Sexpr
