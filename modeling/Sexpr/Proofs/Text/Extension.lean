import Sexpr.Reader.Scan

/-!
# Cursors in a longer text

What a cursor does depends on the characters ahead of it only. Two operations make
that precise: `extend` puts more characters at the end of the text, and a cursor
`Passes` to another one if moving forward leads there. Moving and extending commute
as long as the move stays inside the shorter text:

> `advanceBy_extend`: a move that fits ends at the same place of the longer text.
> `skipFiller_extend`: filler that ends inside the text ends there in the longer one.
> `dropFiller_append_newline`: filler up to the end goes on behind a line feed.
-/

namespace Sexpr

namespace Cursor

/-! ## Moving forward -/

@[simp] theorem advanceBy_zero (c : Cursor) : c.advanceBy 0 = c := rfl

theorem advanceBy_succ (c : Cursor) (n : Nat) :
    c.advanceBy (n + 1) = c.advance.advanceBy n := rfl

/-- Passing characters twice is passing all of them at once. -/
theorem advanceBy_add (c : Cursor) (m n : Nat) :
    c.advanceBy (m + n) = (c.advanceBy m).advanceBy n := by
  induction m generalizing c with
  | zero => rw [Nat.zero_add, advanceBy_zero]
  | succ m ih => rw [Nat.succ_add, advanceBy_succ, advanceBy_succ, ih]

/-- Moving forward leads from one cursor to the other. -/
def Passes (c c' : Cursor) : Prop :=
  ∃ n, c' = c.advanceBy n

/-- A place passes none of the text to get to itself. -/
theorem passes_refl (c : Cursor) : c.Passes c :=
  ⟨0, rfl⟩

/-- Any number of characters may be passed. -/
theorem passes_advanceBy (c : Cursor) (n : Nat) : c.Passes (c.advanceBy n) :=
  ⟨n, rfl⟩

/-- Behind what is behind a place there are places behind it. -/
theorem Passes.trans {a b c : Cursor} (h₁ : a.Passes b) (h₂ : b.Passes c) : a.Passes c := by
  obtain ⟨m, rfl⟩ := h₁
  obtain ⟨n, rfl⟩ := h₂
  exact ⟨m + n, (advanceBy_add a m n).symm⟩

/-- What is ahead of a later place is the end of what was ahead of the earlier one. -/
theorem Passes.ahead_suffix {c c' : Cursor} (h : c.Passes c') : c'.ahead <:+ c.ahead := by
  obtain ⟨n, rfl⟩ := h
  rw [ahead_advanceBy]
  exact List.drop_suffix n c.ahead

/-- Only a line feed ends a line. -/
theorem line_advance_of_ne {c : Cursor} {x : Char} {rest : List Char} (h : c.ahead = x :: rest)
    (hx : x ≠ '\n') : c.advance.line = c.line := by
  unfold advance
  rw [h]
  exact if_neg hx

/-- Moving forward counts the line feeds on the way. -/
theorem line_advanceBy (c : Cursor) (n : Nat) :
    (c.advanceBy n).line = c.line + UInt32.ofNat ((c.ahead.take n).count '\n') := by
  induction n generalizing c with
  | zero => exact (UInt32.add_zero c.line).symm
  | succ n ih =>
    rw [advanceBy_succ, ih, ahead_advance]
    cases hahead : c.ahead with
    | nil =>
      rw [advance, hahead, List.tail_nil, List.take_nil, List.take_nil]
    | cons x rest =>
      rw [List.tail_cons, List.take_succ_cons]
      by_cases hx : x = '\n'
      · subst hx
        have hline : c.advance.line = c.line + 1 := by
          rw [advance, hahead]
          rfl
        rw [hline, List.count_cons_self, UInt32.ofNat_add, UInt32.add_assoc, UInt32.add_comm 1]
        rfl
      · rw [line_advance_of_ne hahead hx, List.count_cons_of_ne hx]

/-- Moving forward in one line stays in it. -/
theorem Passes.line_eq {c c' : Cursor} (h : c.Passes c') (hline : '\n' ∉ c.ahead) :
    c'.line = c.line := by
  obtain ⟨n, rfl⟩ := h
  have hnone : (c.ahead.take n).count '\n' = 0 :=
    List.count_eq_zero_of_not_mem fun hmem => hline (List.mem_of_mem_take hmem)
  rw [line_advanceBy, hnone]
  exact UInt32.add_zero c.line

/-- There is never more ahead than there was. -/
theorem Passes.length_le {c c' : Cursor} (h : c.Passes c') :
    c'.ahead.length ≤ c.ahead.length :=
  h.ahead_suffix.length_le

/-- If something is left, there was something. -/
theorem Passes.ahead_ne_nil {c c' : Cursor} (h : c.Passes c') (hne : c'.ahead ≠ []) :
    c.ahead ≠ [] := by
  intro hnil
  have hsuf := h.ahead_suffix
  rw [hnil, List.suffix_nil] at hsuf
  exact hne hsuf

/-! ## What has been passed -/

/-- Passing one character leaves the others ahead. -/
theorem ahead_advance_of_head {c : Cursor} {x : Char} {rest : List Char} (h : c.ahead = x :: rest) :
    c.advance.ahead = rest := by
  rw [ahead_advance, h, List.tail_cons]

/-- The character that was passed is the nearest one behind the cursor. -/
theorem passed_advance {c : Cursor} {x : Char} {rest : List Char} (h : c.ahead = x :: rest) :
    c.advance.passed = x :: c.passed := by
  rw [advance, h]

/-- What was passed lies behind the cursor in reverse. -/
theorem passed_advanceBy (c : Cursor) (n : Nat) :
    (c.advanceBy n).passed = (c.ahead.take n).reverse ++ c.passed := by
  induction n generalizing c with
  | zero => rfl
  | succ n ih =>
    rw [advanceBy_succ, ih]
    cases hahead : c.ahead with
    | nil => rw [ahead_advance, advance, hahead]; simp
    | cons x rest => rw [ahead_advance, hahead, passed_advance hahead]; simp

/-- Moving forward leaves the text as it is. -/
theorem Passes.text_eq {c c' : Cursor} (h : c.Passes c') : c'.text = c.text := by
  obtain ⟨n, rfl⟩ := h
  exact text_advanceBy c n

/-- At the end of the text a cursor stays. -/
theorem advanceBy_of_nil {c : Cursor} (h : c.ahead = []) (n : Nat) : c.advanceBy n = c := by
  induction n with
  | zero => rfl
  | succ n ih => rw [advanceBy_succ, advance, h, ih]

/-- Passing as many characters as there are leads to the end. -/
theorem ahead_advanceBy_length (c : Cursor) : (c.advanceBy c.ahead.length).ahead = [] := by
  rw [ahead_advanceBy, List.drop_length]

/-- How far a cursor was moved can be read off what it left behind. -/
theorem Passes.eq_advanceBy {c c' : Cursor} (h : c.Passes c') {run : List Char}
    (hrun : c.ahead = run ++ c'.ahead) : c' = c.advanceBy run.length := by
  obtain ⟨n, rfl⟩ := h
  have hlen := congrArg List.length hrun
  rw [List.length_append, ahead_advanceBy, List.length_drop] at hlen
  by_cases hn : n ≤ c.ahead.length
  · rw [show run.length = n by omega]
  · -- the moves beyond the end stay there
    rw [show n = c.ahead.length + (n - c.ahead.length) by omega, advanceBy_add,
      advanceBy_of_nil (ahead_advanceBy_length c), show run.length = c.ahead.length by omega]

/-- A later place is as many characters away as are missing ahead of it. -/
theorem Passes.eq_advanceBy_sub {c c' : Cursor} (h : c.Passes c') :
    c' = c.advanceBy (c.ahead.length - c'.ahead.length) := by
  obtain ⟨run, hrun⟩ := h.ahead_suffix
  rw [← hrun, List.length_append, Nat.add_sub_cancel_right]
  exact h.eq_advanceBy hrun.symm

/-- From one place on, places with the same text ahead are the same. -/
theorem Passes.eq_of_ahead {c c' c'' : Cursor} (h : c.Passes c') (h' : c.Passes c'')
    (hahead : c'.ahead = c''.ahead) : c' = c'' := by
  rw [h.eq_advanceBy_sub, h'.eq_advanceBy_sub, hahead]

/-- These characters are between the two places. -/
structure Between (c : Cursor) (run : List Char) (c' : Cursor) : Prop where
  ahead : c.ahead = run ++ c'.ahead
  passed : c'.passed.reverse = c.passed.reverse ++ run

/-- What is between two places is put together from what is between them and a third. -/
theorem Between.trans {a b c : Cursor} {u v : List Char} (h₁ : a.Between u b)
    (h₂ : b.Between v c) : a.Between (u ++ v) c := by
  refine ⟨?_, ?_⟩
  · rw [h₁.ahead, h₂.ahead, List.append_assoc]
  · rw [h₂.passed, h₁.passed, List.append_assoc]

/-- Between a place and itself there is nothing. -/
theorem between_refl (c : Cursor) : c.Between [] c :=
  ⟨rfl, (List.append_nil _).symm⟩

/-- Between a place and the next one there is one character. -/
theorem between_advance {c : Cursor} {x : Char} {rest : List Char} (h : c.ahead = x :: rest) :
    c.Between [x] c.advance := by
  refine ⟨?_, ?_⟩
  · rw [ahead_advance, h]
    rfl
  · rw [passed_advance h, List.reverse_cons]

/-- As many characters as the run has are the run. -/
theorem take_takeWhile (p : Char → Bool) (cs : List Char) :
    cs.take (cs.takeWhile p).length = cs.takeWhile p :=
  (List.prefix_iff_eq_take.mp (List.takeWhile_prefix p)).symm

/-- A run lies between its beginning and its end. -/
theorem between_takeWhile (c : Cursor) (p : Char → Bool) :
    c.Between (c.takeWhile p).1 (c.takeWhile p).2 := by
  refine ⟨?_, ?_⟩
  · rw [ahead_takeWhile]
    exact List.takeWhile_append_dropWhile.symm
  · show (c.advanceBy (c.ahead.takeWhile p).length).passed.reverse = _
    rw [passed_advanceBy, take_takeWhile, List.reverse_append, List.reverse_reverse]
    rfl

/-! ## Extending the text -/

/-- The same place in a text that goes on with `s`. -/
def extend (c : Cursor) (s : List Char) : Cursor :=
  { c with ahead := c.ahead ++ s }

/-- In the longer text there is more ahead. -/
@[simp] theorem ahead_extend (c : Cursor) (s : List Char) : (c.extend s).ahead = c.ahead ++ s :=
  rfl

/-- A text that goes on begins where the whole of it does. -/
theorem ofText_extend (t s : String) :
    (ofText t).extend s.toList = ofText (t ++ s) := by
  simp [ofText, extend]

/-- A character that is there is passed in the longer text as in the shorter one. -/
theorem advance_extend {c : Cursor} (s : List Char) (h : c.ahead ≠ []) :
    (c.extend s).advance = c.advance.extend s := by
  obtain ⟨passed, ahead, position, line⟩ := c
  cases ahead with
  | nil => exact absurd rfl h
  | cons ch rest => rfl

/-- So are several, if they are all there. -/
theorem advanceBy_extend {c : Cursor} {n : Nat} (s : List Char) (h : n ≤ c.ahead.length) :
    (c.extend s).advanceBy n = (c.advanceBy n).extend s := by
  induction n generalizing c with
  | zero => rfl
  | succ n ih =>
    have hne : c.ahead ≠ [] := by
      intro hnil
      rw [hnil] at h
      exact absurd h (Nat.not_succ_le_zero n)
    rw [advanceBy_succ, advanceBy_succ, advance_extend s hne]
    exact ih (by rw [ahead_advance, List.length_tail]; omega)

/-- A character that is there is seen in the longer text, too. -/
theorem peek_extend {c : Cursor} (s : List Char) (h : c.ahead ≠ []) :
    (c.extend s).peek? = c.peek? := by
  rw [peek?, peek?, ahead_extend]
  cases hc : c.ahead with
  | nil => exact absurd hc h
  | cons ch rest => rfl

/-! ## Runs of characters -/

theorem takeWhile_fst (c : Cursor) (p : Char → Bool) :
    (c.takeWhile p).1 = c.ahead.takeWhile p := rfl

theorem takeWhile_snd (c : Cursor) (p : Char → Bool) :
    (c.takeWhile p).2 = c.advanceBy (c.ahead.takeWhile p).length := rfl

/-- No run begins with a character of another kind. -/
theorem takeWhile_eq_nil {p : Char → Bool} {cs : List Char} (h : ∀ x ∈ cs.head?, p x = false) :
    cs.takeWhile p = [] := by
  cases cs with
  | nil => rfl
  | cons x rest => rw [List.takeWhile_cons, if_neg (by simp [h x rfl])]

/-- What a run leaves begins with a character of another kind. -/
theorem head_takeWhile (c : Cursor) (p : Char → Bool) :
    ∀ x ∈ (c.takeWhile p).2.ahead.head?, p x = false := by
  intro x hx
  have hnot := List.head?_dropWhile_not p c.ahead
  rw [← ahead_takeWhile, Option.mem_def.mp hx] at hnot
  simpa using hnot

/-- Behind a run there is no other one of the kind. -/
theorem takeWhile_takeWhile (c : Cursor) (p : Char → Bool) :
    ((c.takeWhile p).2.takeWhile p).2 = (c.takeWhile p).2 := by
  rw [takeWhile_snd (c.takeWhile p).2, takeWhile_eq_nil (head_takeWhile c p)]
  rfl

/-- A run that ends inside the text, or before a character that ends every run, is the
same in the longer text. -/
theorem takeWhile_extend {c : Cursor} {p : Char → Bool} {s : List Char}
    (h : (c.takeWhile p).2.ahead ≠ [] ∨ ∀ x ∈ s.head?, p x = false) :
    (c.extend s).takeWhile p = ((c.takeWhile p).1, (c.takeWhile p).2.extend s) := by
  have hrun : (c.ahead ++ s).takeWhile p = c.ahead.takeWhile p := by
    rcases h with hne | hs
    · rw [ahead_takeWhile] at hne
      rw [List.takeWhile_append, if_neg]
      intro hlen
      have hall : c.ahead.takeWhile p = c.ahead := (List.takeWhile_prefix p).eq_of_length hlen
      have hsplit := List.takeWhile_append_dropWhile (p := p) (l := c.ahead)
      rw [hall] at hsplit
      exact hne (List.self_eq_append_right.mp hsplit.symm)
    · rw [List.takeWhile_append, takeWhile_eq_nil hs, List.append_nil]
      split
      · next hlen =>
        exact ((List.takeWhile_prefix p).eq_of_length hlen).symm
      · rfl
  show ((c.ahead ++ s).takeWhile p, (c.extend s).advanceBy ((c.ahead ++ s).takeWhile p).length) = _
  rw [hrun, advanceBy_extend s (List.takeWhile_prefix p).length_le]
  rfl

end Cursor

/-! ## Filler -/

/-- No digit is filler. -/
theorem isDigit_solid {d : Char} (hd : d.isDigit = true) : isBlank d = false ∧ d ≠ ';' := by
  refine ⟨?_, isDigit_ne hd (by decide)⟩
  cases hb : isBlank d with
  | false => rfl
  | true => exact absurd (hd.symm.trans (isDigit_of_isBlank d hb)) (by decide)

/-- What is left of a text without the filler in front. -/
def dropFiller (inComment : Bool) : List Char → List Char
  | [] => []
  | c :: rest =>
    if inComment then dropFiller (c != '\n') rest
    else if isBlank c then dropFiller false rest
    else if c = ';' then dropFiller true rest
    else c :: rest

/-- The width of filler counts the characters that dropping it takes away. -/
theorem exists_fillerWidth (inComment : Bool) (width : Nat) (cs : List Char) :
    ∃ n, fillerWidth inComment width cs = width + n ∧ n ≤ cs.length ∧
      cs.drop n = dropFiller inComment cs := by
  fun_induction fillerWidth inComment width cs with
  | case1 => exact ⟨0, rfl, Nat.le_refl _, rfl⟩
  | case2 width c rest ih =>
    obtain ⟨n, hw, hle, hdrop⟩ := ih
    refine ⟨n + 1, by omega, Nat.succ_le_succ hle, ?_⟩
    rw [dropFiller, if_pos rfl, ← hdrop, List.drop_succ_cons]
  | case3 inComment width c rest hcom hblank ih =>
    obtain ⟨n, hw, hle, hdrop⟩ := ih
    refine ⟨n + 1, by omega, Nat.succ_le_succ hle, ?_⟩
    rw [dropFiller, if_neg hcom, if_pos hblank, ← hdrop, List.drop_succ_cons]
  | case4 inComment width rest hcom hblank ih =>
    obtain ⟨n, hw, hle, hdrop⟩ := ih
    refine ⟨n + 1, by omega, Nat.succ_le_succ hle, ?_⟩
    rw [dropFiller, if_neg hcom, if_neg hblank, if_pos rfl, ← hdrop, List.drop_succ_cons]
  | case5 inComment width c rest hcom hblank hsemi =>
    refine ⟨0, rfl, Nat.zero_le _, ?_⟩
    rw [dropFiller, if_neg hcom, if_neg hblank, if_neg hsemi, List.drop_zero]

/-- Filler that ends inside the text ends there in a longer text. -/
theorem dropFiller_append {inComment : Bool} {cs : List Char} (s : List Char)
    (h : dropFiller inComment cs ≠ []) :
    dropFiller inComment (cs ++ s) = dropFiller inComment cs ++ s := by
  fun_induction dropFiller inComment cs with
  | case1 => exact absurd rfl h
  | case2 c rest ih => rw [List.cons_append, dropFiller, if_pos rfl, ih h]
  | case3 inComment c rest hcom hblank ih =>
    rw [List.cons_append, dropFiller, if_neg hcom, if_pos hblank, ih h]
  | case4 inComment rest hcom hblank ih =>
    rw [List.cons_append, dropFiller, if_neg hcom, if_neg hblank, if_pos rfl, ih h]
  | case5 inComment c rest hcom hblank hsemi =>
    rw [List.cons_append, dropFiller, if_neg hcom, if_neg hblank, if_neg hsemi]

/-- Filler up to the end of the text, an unfinished comment included, goes on behind a
line feed. -/
theorem dropFiller_append_newline {inComment : Bool} {cs : List Char} (s : List Char)
    (h : dropFiller inComment cs = []) :
    dropFiller inComment (cs ++ '\n' :: s) = dropFiller false s := by
  fun_induction dropFiller inComment cs with
  | case1 inComment =>
    rw [List.nil_append, dropFiller]
    split
    · rfl
    · rw [if_pos (by decide)]
  | case2 c rest ih => rw [List.cons_append, dropFiller, if_pos rfl, ih h]
  | case3 inComment c rest hcom hblank ih =>
    rw [List.cons_append, dropFiller, if_neg hcom, if_pos hblank, ih h]
  | case4 inComment rest hcom hblank ih =>
    rw [List.cons_append, dropFiller, if_neg hcom, if_neg hblank, if_pos rfl, ih h]
  | case5 => exact absurd h (List.cons_ne_nil _ _)

/-- A comment that no line feed ends takes the rest of the text. -/
theorem dropFiller_comment {cs : List Char} (h : '\n' ∉ cs) : dropFiller true cs = [] := by
  induction cs with
  | nil => rfl
  | cons c cs ih =>
    rw [List.mem_cons, not_or] at h
    have hc : (c != '\n') = true := bne_iff_ne.mpr (Ne.symm h.1)
    rw [dropFiller, if_pos rfl, hc]
    exact ih h.2

/-- What filler leaves begins with a character that is none. -/
theorem head_dropFiller {inComment : Bool} {cs rest : List Char} {c : Char}
    (h : dropFiller inComment cs = c :: rest) : isBlank c = false ∧ c ≠ ';' := by
  fun_induction dropFiller inComment cs with
  | case1 => exact absurd h (by simp)
  | case2 _ _ ih => exact ih h
  | case3 _ _ _ _ _ ih => exact ih h
  | case4 _ _ _ _ ih => exact ih h
  | case5 inComment d rest' hcom hblank hsemi =>
    injection h with hd _
    subst hd
    exact ⟨by simpa using hblank, hsemi⟩

/-- A character that begins no filler ends it. -/
theorem dropFiller_of_solid {c : Char} (rest : List Char) (hblank : isBlank c = false)
    (hsemi : c ≠ ';') : dropFiller false (c :: rest) = c :: rest := by
  rw [dropFiller, if_neg Bool.false_ne_true, if_neg (by simp [hblank]), if_neg hsemi]

/-- White space is filler, one character at a time. -/
theorem dropFiller_blank {c : Char} (rest : List Char) (hblank : isBlank c = true) :
    dropFiller false (c :: rest) = dropFiller false rest := by
  rw [dropFiller, if_neg Bool.false_ne_true, if_pos hblank]

namespace Cursor

/-- Skipping filler moves forward. -/
theorem passes_skipFiller (c : Cursor) : c.Passes c.skipFiller :=
  passes_advanceBy c _

/-- What is ahead behind the filler is the text without the filler in front. -/
theorem ahead_skipFiller (c : Cursor) : c.skipFiller.ahead = dropFiller false c.ahead := by
  obtain ⟨n, hw, _, hdrop⟩ := exists_fillerWidth false 0 c.ahead
  rw [skipFiller, ahead_advanceBy, hw, Nat.zero_add, hdrop]

/-- Filler that ends before the text does is skipped in the longer text in the same way. -/
theorem skipFiller_extend {c : Cursor} (s : List Char) (h : c.skipFiller.ahead ≠ []) :
    (c.extend s).skipFiller = c.skipFiller.extend s := by
  obtain ⟨n, hw, hle, hdrop⟩ := exists_fillerWidth false 0 c.ahead
  obtain ⟨m, hw', hle', hdrop'⟩ := exists_fillerWidth false 0 (c.ahead ++ s)
  rw [ahead_skipFiller] at h
  rw [dropFiller_append s h, ← hdrop] at hdrop'
  have hmn : m = n := by
    have hlen := congrArg List.length hdrop'
    rw [List.length_append, List.length_drop, List.length_drop, List.length_append] at hlen
    rw [List.length_append] at hle'
    omega
  rw [skipFiller, skipFiller, ahead_extend, hw', hw, hmn, Nat.zero_add, advanceBy_extend s hle]

end Cursor

end Sexpr
