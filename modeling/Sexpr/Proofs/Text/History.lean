import Mathlib
import Sexpr.Proofs.Reader.Walks

/-!
# Histories of a cursor

A cursor is used by one call after the other: some only look, the others move it forward. Whatever
the calls were, it has passed a first part of the text and the rest is ahead of it. Its offset is
the size of the first part in bytes, so it lies between two characters, and its line is the one that
the line feeds of the first part make.

What is cut out of the text between two offsets depends on the text alone. There is something to
cut out exactly if the offsets are in order and none of them is beyond the end or inside a
character. Offsets at which the cursor was earlier are of that kind.

> `dropBytes?_eq_some_iff`, `takeBytes?_eq_some_iff`, `slice?_eq_some_iff`, `slice?_eq_none_iff`:
> what can be cut out.
> `passes_after`, `passes_afterAll`: every call moves the cursor forward, and so do several.
> `history_laws`: what is true of a cursor after any calls.
-/

namespace Sexpr

/-! ## Offsets of a string -/

/-- The size of a text in UTF-8 is the sum of the sizes of its characters. -/
theorem byteCount_toList (text : String) : byteCount text.toList = text.utf8ByteSize := by
  have hcount : ∀ cs : List Char, byteCount cs = (String.ofList cs).utf8ByteSize := by
    intro cs
    induction cs with
    | nil => rfl
    | cons c cs ih =>
      rw [byteCount, ih, ← List.singleton_append, String.ofList_append,
        String.utf8ByteSize_append, ← String.singleton_eq_ofList, String.utf8ByteSize_singleton]
  rw [hcount, String.ofList_toList]

/-- The text falls into two at the offset. -/
theorem isBoundary_iff_exists {text : String} {offset : Nat} :
    IsBoundary text.toList offset ↔
      ∃ before after : String, text = before ++ after ∧ offset = before.utf8ByteSize := by
  constructor
  · rintro ⟨before, after, htext, hoffset⟩
    refine ⟨String.ofList before, String.ofList after, ?_, ?_⟩
    · rw [← String.ofList_append, ← htext, String.ofList_toList]
    · rw [hoffset, ← byteCount_toList, String.toList_ofList]
  · rintro ⟨before, after, rfl, hoffset⟩
    exact ⟨before.toList, after.toList, String.toList_append, by rw [hoffset, byteCount_toList]⟩

/-- The boundaries are the valid positions of the text. -/
theorem isBoundary_iff_isValid {text : String} {offset : Nat} :
    IsBoundary text.toList offset ↔ (⟨offset⟩ : String.Pos.Raw).IsValid text := by
  rw [isBoundary_iff_exists, String.Pos.Raw.isValid_iff_exists_append]
  simp only [String.Pos.Raw.ext_iff, String.byteIdx_rawEndPos]

/-! ## Cutting out -/

/-- Bytes can be dropped only as whole characters. -/
theorem dropBytes?_eq_some_iff {n : Nat} {cs ds : List Char} :
    dropBytes? n cs = some ds ↔ ∃ before, cs = before ++ ds ∧ n = byteCount before := by
  constructor
  · intro h
    fun_induction dropBytes? n cs with
    | case1 cs =>
      obtain rfl := Option.some.inj h
      exact ⟨[], rfl, rfl⟩
    | case2 n => exact absurd h (by simp)
    | case3 n c cs hle ih =>
      obtain ⟨before, rfl, hn⟩ := ih h
      exact ⟨c :: before, rfl, by rw [byteCount]; omega⟩
    | case4 n c cs hlt => exact absurd h (by simp)
  · rintro ⟨before, rfl, rfl⟩
    exact dropBytes?_byteCount before ds

/-- Bytes can be taken only as whole characters. -/
theorem takeBytes?_eq_some_iff {n : Nat} {cs run : List Char} :
    takeBytes? n cs = some run ↔ ∃ after, cs = run ++ after ∧ n = byteCount run := by
  constructor
  · intro h
    fun_induction takeBytes? n cs generalizing run with
    | case1 cs =>
      obtain rfl := Option.some.inj h
      exact ⟨cs, rfl, rfl⟩
    | case2 n => exact absurd h (by simp)
    | case3 n c cs hle ih =>
      obtain ⟨rest, hrest, rfl⟩ := Option.map_eq_some_iff.mp h
      obtain ⟨after, rfl, hn⟩ := ih hrest
      exact ⟨after, rfl, by rw [byteCount]; omega⟩
    | case4 n c cs hlt => exact absurd h (by simp)
  · rintro ⟨after, rfl, rfl⟩
    exact takeBytes?_byteCount run after

/-- A text falls into two at an offset in one way only. -/
theorem append_inj_of_byteCount {before after before' after' : List Char}
    (h : before ++ after = before' ++ after') (hcount : byteCount before = byteCount before') :
    before = before' ∧ after = after' := by
  have htake := takeBytes?_byteCount before after
  rw [h, hcount, takeBytes?_byteCount] at htake
  obtain rfl := Option.some.inj htake
  exact ⟨rfl, List.append_cancel_left h⟩

namespace Cursor

variable {c c' : Cursor} {start stop : Nat}

/-- A slice is what stands between the part in front of it and the part behind it. -/
theorem slice?_eq_some_iff {piece : String} :
    c.slice? start stop = some piece ↔
      ∃ before after, c.text = before ++ (piece.toList ++ after) ∧ start = byteCount before ∧
        stop = byteCount (before ++ piece.toList) := by
  unfold slice?
  constructor
  · intro h
    split at h
    · next hle =>
      obtain ⟨run, hrun, rfl⟩ := Option.map_eq_some_iff.mp h
      obtain ⟨rest, hdrop, htake⟩ := Option.bind_eq_some_iff.mp hrun
      obtain ⟨before, htext, hstart⟩ := dropBytes?_eq_some_iff.mp hdrop
      obtain ⟨after, rfl, hstop⟩ := takeBytes?_eq_some_iff.mp htake
      refine ⟨before, after, ?_, hstart, ?_⟩
      · rw [String.toList_ofList, htext]
      · rw [String.toList_ofList, byteCount_append]
        omega
    · exact absurd h (by simp)
  · rintro ⟨before, after, htext, rfl, rfl⟩
    rw [byteCount_append, if_pos (Nat.le_add_right _ _), htext, dropBytes?_byteCount,
      Nat.add_sub_cancel_left, Option.bind_some, takeBytes?_byteCount, Option.map_some,
      String.ofList_toList]

/-- Between two boundaries in order there is a piece of the text. -/
theorem exists_piece {text : List Char} (hle : start ≤ stop) (hstart : IsBoundary text start)
    (hstop : IsBoundary text stop) :
    ∃ before run after, text = before ++ (run ++ after) ∧ start = byteCount before ∧
      stop = byteCount (before ++ run) := by
  obtain ⟨before, rest, htext, hstart⟩ := hstart
  obtain ⟨upto, after, htext', hstop⟩ := hstop
  have hparts := List.append_eq_append_iff.mp (htext.symm.trans htext')
  rcases hparts with ⟨run, rfl, rfl⟩ | ⟨run, rfl, -⟩
  · exact ⟨before, run, after, htext, hstart, hstop⟩
  · -- the first boundary is not in front of the second one, so they are the same
    have hcount : byteCount (upto ++ run) = byteCount upto := by
      rw [byteCount_append] at hstart ⊢
      omega
    obtain ⟨hsame, _⟩ := append_inj_of_byteCount (htext.symm.trans htext') hcount
    rw [hsame] at htext hstart
    exact ⟨upto, [], rest, htext, hstart, by rw [List.append_nil, hstop]⟩

/-- There is a piece between two offsets if they are boundaries of the text, in order. -/
theorem exists_slice?_iff :
    (∃ piece, c.slice? start stop = some piece) ↔ IsPiece c.text (start, stop) := by
  constructor
  · rintro ⟨piece, h⟩
    obtain ⟨before, after, htext, rfl, rfl⟩ := slice?_eq_some_iff.mp h
    have hstop : IsBoundary c.text (byteCount (before ++ piece.toList)) :=
      ⟨before ++ piece.toList, after, by rw [htext, List.append_assoc], rfl⟩
    refine ⟨?_, hstop.le, ⟨before, _, htext, rfl⟩, hstop⟩
    rw [byteCount_append]
    exact Nat.le_add_right _ _
  · rintro ⟨hle, _, hstart, hstop⟩
    obtain ⟨before, run, after, htext, hstart, hstop⟩ := exists_piece hle hstart hstop
    refine ⟨String.ofList run, slice?_eq_some_iff.mpr ⟨before, after, ?_, hstart, ?_⟩⟩
    · rw [String.toList_ofList, htext]
    · rw [String.toList_ofList]
      exact hstop

/-- There is none otherwise. -/
theorem slice?_eq_none_iff : c.slice? start stop = none ↔ ¬IsPiece c.text (start, stop) := by
  rw [← exists_slice?_iff, ← Option.ne_none_iff_exists', not_not]

/-! ## Calls -/

/-- What a cursor can be asked for on the way, apart from pieces of text. -/
inductive Call where
  | peek
  | peekAt (n : Nat)
  | advance
  | advanceBy (n : Nat)
  | accept (expected : Char)
  | hasMore
deriving DecidableEq

/-- The cursor after a call. -/
def after (c : Cursor) : Call → Cursor
  | .peek => c
  | .peekAt _ => c
  | .advance => c.advance
  | .advanceBy n => c.advanceBy n
  | .accept expected => (c.accept expected).2
  | .hasMore => c

/-- The cursor after one call and then the other. -/
def afterAll (c : Cursor) (calls : List Call) : Cursor :=
  calls.foldl after c

theorem afterAll_append (c : Cursor) (calls more : List Call) :
    c.afterAll (calls ++ more) = (c.afterAll calls).afterAll more :=
  List.foldl_append

theorem passes_accept (c : Cursor) (x : Char) : c.Passes (c.accept x).2 := by
  unfold accept
  split
  · exact passes_advanceBy c 1
  · exact passes_refl c

/-- No call leads back. -/
theorem passes_after (c : Cursor) (call : Call) : c.Passes (c.after call) := by
  cases call with
  | peek => exact passes_refl c
  | peekAt n => exact passes_refl c
  | advance => exact passes_advanceBy c 1
  | advanceBy n => exact passes_advanceBy c n
  | accept x => exact passes_accept c x
  | hasMore => exact passes_refl c

/-- No run of calls leads back. -/
theorem passes_afterAll (c : Cursor) (calls : List Call) : c.Passes (c.afterAll calls) := by
  induction calls generalizing c with
  | nil => exact passes_refl c
  | cons call calls ih => exact (passes_after c call).trans (ih (c.after call))

/-! ## Where a cursor is -/

/-- The way from one place to another is a piece of the text. -/
theorem Passes.exists_chunk (h : c.Passes c') :
    ∃ chunk, c.Between chunk c' ∧ c'.HasChunk c.position chunk := by
  obtain ⟨n, rfl⟩ := h
  refine ⟨c.ahead.take n, ⟨?_, ?_⟩, c.hasChunk_nil.advanceBy n⟩
  · rw [ahead_advanceBy, List.take_append_drop]
  · rw [passed_advanceBy, List.reverse_append, List.reverse_reverse]

/-- The offset never goes down. -/
theorem Passes.position_le (h : c.Passes c') : c.position ≤ c'.position := by
  obtain ⟨chunk, _, hchunk⟩ := h.exists_chunk
  rw [hchunk.position]
  exact Nat.le_add_right _ _

/-- From the beginning on the offset is the size of what has been passed. -/
theorem Passes.position_eq {text : String} (h : (ofText text).Passes c) :
    c.position = byteCount c.passed.reverse := by
  obtain ⟨chunk, hbetween, hchunk⟩ := h.exists_chunk
  rw [hchunk.position, hbetween.passed]
  exact Nat.zero_add _

/-- What stands between an offset and the cursor is found from the front as it is from behind. -/
theorem since?_eq_slice? (hposition : c.position = byteCount c.passed.reverse) (start : Nat) :
    c.since? start = c.slice? start c.position := by
  refine Option.ext fun piece => ?_
  rw [slice?_eq_some_iff]
  unfold since?
  constructor
  · intro h
    split at h
    · next hle =>
      obtain ⟨run, htake, rfl⟩ := Option.map_eq_some_iff.mp h
      obtain ⟨rest, hpassed, hcount⟩ := takeBytes?_eq_some_iff.mp htake
      have hsplit : c.passed.reverse = rest.reverse ++ run.reverse := by
        rw [hpassed, List.reverse_append]
      rw [String.toList_ofList]
      refine ⟨rest.reverse, c.ahead, ?_, ?_, ?_⟩
      · rw [text, hsplit, List.append_assoc]
      · rw [hsplit, byteCount_append, byteCount_reverse run] at hposition
        omega
      · rw [← hsplit, hposition]
    · exact absurd h (by simp)
  · rintro ⟨before, after, htext, rfl, hstop⟩
    have htexts : (before ++ piece.toList) ++ after = c.passed.reverse ++ c.ahead := by
      rw [List.append_assoc, ← htext, text]
    obtain ⟨hsplit, _⟩ := append_inj_of_byteCount htexts (hstop.symm.trans hposition)
    have hpassed : c.passed = piece.toList.reverse ++ before.reverse := by
      rw [← List.reverse_append, hsplit, List.reverse_reverse]
    have hcount : c.position - byteCount before = byteCount piece.toList.reverse := by
      rw [hstop, byteCount_append, byteCount_reverse, Nat.add_sub_cancel_left]
    rw [if_pos (by rw [hstop, byteCount_append]; exact Nat.le_add_right _ _), hcount, hpassed,
      takeBytes?_byteCount, Option.map_some, List.reverse_reverse, String.ofList_toList]

/-! ## Single calls -/

theorem hasMore_eq_false_iff (c : Cursor) : c.hasMore = false ↔ c.peek? = none := by
  unfold hasMore peek?
  cases c.ahead with
  | nil => exact iff_of_true rfl rfl
  | cons x rest => exact iff_of_false (by simp) (by simp)

/-- A character is accepted if it is the next one. -/
theorem fst_accept_iff (c : Cursor) (x : Char) : (c.accept x).1 = true ↔ c.peek? = some x := by
  unfold accept
  split
  · next h => exact iff_of_true rfl h
  · next h => exact iff_of_false Bool.false_ne_true h

/-- An expected character is passed, and it alone. -/
theorem between_accept {x : Char} (h : c.peek? = some x) :
    c.Between [x] (c.accept x).2 ∧ (c.accept x).2.position = c.position + x.utf8Size := by
  obtain ⟨rest, hahead⟩ := List.head?_eq_some_iff.mp h
  rw [accept, if_pos h]
  refine ⟨between_advance hahead, ?_⟩
  rw [advance, hahead]

/-- Without the expected character ahead the cursor stays. -/
theorem snd_accept_ne_iff (c : Cursor) (x : Char) : (c.accept x).2 ≠ c ↔ c.peek? = some x := by
  constructor
  · intro hne
    by_contra h
    rw [accept, if_neg h] at hne
    exact hne rfl
  · intro h hsame
    have hposition := (between_accept h).2
    have hpos := x.utf8Size_pos
    rw [hsame] at hposition
    omega

/-- Looking ahead is looking at the place that is so far ahead. -/
theorem peek?_advanceBy (c : Cursor) (n : Nat) : (c.advanceBy n).peek? = c.peekAt? n := by
  rw [peek?, ahead_advanceBy, List.head?_drop, peekAt?]

/-! ## After any calls -/

/-- What is true of a cursor that has got anywhere in the text. -/
structure Sound (text : String) (c : Cursor) : Prop where
  le_size : c.position ≤ text.utf8ByteSize
  boundary : (⟨c.position⟩ : String.Pos.Raw).IsValid text
  /-- The bytes and the line feeds in front of the place are counted, and what can be looked at is
  behind it. -/
  place : ∃ before after : String, text = before ++ after ∧ c.position = before.utf8ByteSize ∧
    c.line.toNat = 1 + before.toList.count '\n' ∧ ∀ n, c.peekAt? n = after.toList[n]?
  hasMore_iff : c.hasMore = true ↔ c.position < text.utf8ByteSize
  hasMore_false_iff : c.hasMore = false ↔ c.peek? = none
  accept_iff : ∀ x, (c.accept x).1 = true ↔ c.peek? = some x
  moves_iff : ∀ x, (c.accept x).2 ≠ c ↔ c.peek? = some x
  accepted : ∀ x, c.peek? = some x → c.Between [x] (c.accept x).2 ∧
    (c.accept x).2.position = c.position + x.utf8Size
  lookahead : ∀ n, c.peekAt? n = (c.advanceBy n).peek?
  moves : ∀ n m, (c.advanceBy n).advanceBy m = c.advanceBy (n + m)
  /-- A slice is what stands between two parts of the text of these sizes. -/
  slice_iff : ∀ start stop piece, c.slice? start stop = some piece ↔
    ∃ before after : String, text = before ++ piece ++ after ∧ start = before.utf8ByteSize ∧
      stop = (before ++ piece).utf8ByteSize
  slice_none_iff : ∀ start stop, c.slice? start stop = none ↔
    ¬(start ≤ stop ∧ stop ≤ text.utf8ByteSize ∧ (⟨start⟩ : String.Pos.Raw).IsValid text ∧
      (⟨stop⟩ : String.Pos.Raw).IsValid text)
  since : ∀ start, c.since? start = c.slice? start c.position

section

variable {text : String}

/-- What is ahead takes the bytes that are left. -/
theorem Passes.hasMore_iff (h : (ofText text).Passes c) :
    c.hasMore = true ↔ c.position < text.utf8ByteSize := by
  have htext : c.passed.reverse ++ c.ahead = text.toList := h.text_eq
  rw [h.position_eq, ← byteCount_toList, ← htext, byteCount_append, hasMore]
  cases c.ahead with
  | nil => exact iff_of_false (by simp) (by rw [byteCount]; omega)
  | cons x rest =>
    obtain ⟨n, hn, _⟩ := byteCount_cons x rest
    exact iff_of_true rfl (by omega)

/-- The piece between two offsets is the part of the text between texts of these sizes. -/
theorem slice?_eq_some_iff_exists (htext : c.text = text.toList) {piece : String} :
    c.slice? start stop = some piece ↔
      ∃ before after : String, text = before ++ piece ++ after ∧ start = before.utf8ByteSize ∧
        stop = (before ++ piece).utf8ByteSize := by
  rw [slice?_eq_some_iff, htext]
  simp only [← byteCount_toList]
  constructor
  · rintro ⟨before, after, hsplit, hstart, hstop⟩
    refine ⟨String.ofList before, String.ofList after, ?_, ?_, ?_⟩
    · apply String.toList_injective
      simp [hsplit]
    · rw [String.toList_ofList, hstart]
    · rw [String.toList_append, String.toList_ofList, hstop]
  · rintro ⟨before, after, rfl, hstart, hstop⟩
    refine ⟨before.toList, after.toList, ?_, hstart, ?_⟩
    · simp
    · rw [hstop, String.toList_append]

/-- Every cursor on the way is sound. -/
theorem sound_of_passes (h : (ofText text).Passes c) (hfew : text.toList.count '\n' < 2 ^ 32 - 1) :
    c.Sound text := by
  have htext : c.text = text.toList := h.text_eq
  have hboundary : IsBoundary text.toList c.position :=
    ⟨c.passed.reverse, c.ahead, htext.symm, h.position_eq⟩
  exact
    { le_size := by
        rw [← byteCount_toList]
        exact hboundary.le
      boundary := isBoundary_iff_isValid.mp hboundary
      place := by
        refine ⟨String.ofList c.passed.reverse, String.ofList c.ahead, ?_, ?_, ?_, ?_⟩
        · rw [← String.ofList_append, show c.passed.reverse ++ c.ahead = text.toList from htext,
            String.ofList_toList]
        · rw [← byteCount_toList, String.toList_ofList, h.position_eq]
        · rw [String.toList_ofList]
          exact h.line_toNat htext.symm hfew
        · intro n
          rw [String.toList_ofList, peekAt?]
      hasMore_iff := h.hasMore_iff
      hasMore_false_iff := c.hasMore_eq_false_iff
      accept_iff := c.fst_accept_iff
      moves_iff := c.snd_accept_ne_iff
      accepted := fun _ => between_accept
      lookahead := fun n => (c.peek?_advanceBy n).symm
      moves := fun n m => (c.advanceBy_add n m).symm
      slice_iff := fun _ _ _ => slice?_eq_some_iff_exists htext
      slice_none_iff := fun start stop => by
        rw [slice?_eq_none_iff, htext, ← byteCount_toList, ← isBoundary_iff_isValid,
          ← isBoundary_iff_isValid]
        rfl
      since := since?_eq_slice? h.position_eq }

end

/-- Whatever a cursor was asked for since the beginning of the text, it is at a place of the text,
counts right, looks and moves along the text and cuts pieces out of it. The more it was asked for,
the farther it is; and what it has passed since it was somewhere can be cut out. -/
theorem history_laws (text : String) (hfew : text.toList.count '\n' < 2 ^ 32 - 1)
    (earlier later : List Call) :
    ((ofText text).afterAll (earlier ++ later)).Sound text ∧
    ((ofText text).afterAll earlier).position
      ≤ ((ofText text).afterAll (earlier ++ later)).position ∧
    ∃ before run after : String, text = before ++ run ++ after ∧
      before.utf8ByteSize = ((ofText text).afterAll earlier).position ∧
      (before ++ run).utf8ByteSize = ((ofText text).afterAll (earlier ++ later)).position ∧
      ((ofText text).afterAll (earlier ++ later)).since? ((ofText text).afterAll earlier).position
        = some run := by
  have hstart := passes_afterAll (ofText text) earlier
  have hpass := passes_afterAll ((ofText text).afterAll earlier) later
  rw [afterAll_append]
  have hsound := sound_of_passes (hstart.trans hpass) hfew
  refine ⟨hsound, hpass.position_le, ?_⟩
  obtain ⟨chunk, _, hchunk⟩ := hpass.exists_chunk
  have hsince := hchunk.since?_eq
  obtain ⟨before, after, htext, hbefore, hupto⟩ :=
    (hsound.slice_iff _ _ _).mp ((hsound.since _).symm.trans hsince)
  exact ⟨before, String.ofList chunk, after, htext, hbefore.symm, hupto.symm, hsince⟩

/-- A line feed, a character of two bytes, and more moves than there are characters. -/
theorem history_laws_sample :
    "a\nλb".toList.count '\n' < 2 ^ 32 - 1 ∧
    ((ofText "a\nλb").afterAll [.accept 'a', .advance, .peekAt 1, .advanceBy 9]).Sound "a\nλb" ∧
    ∃ before run after : String, "a\nλb" = before ++ run ++ after ∧ before.utf8ByteSize = 2 ∧
      (before ++ run).utf8ByteSize = 5 ∧
      ((ofText "a\nλb").afterAll [.accept 'a', .advance, .peekAt 1, .advanceBy 9]).since? 2
        = some run := by
  obtain ⟨hsound, _, hrun⟩ :=
    history_laws "a\nλb" (by decide) [.accept 'a', .advance] [.peekAt 1, .advanceBy 9]
  exact ⟨by decide, hsound, hrun⟩

end Cursor

end Sexpr
