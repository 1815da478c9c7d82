import Sexpr.Proofs.Text.Extension

/-!
# Cutting out

What is cut out of a text is given by byte offsets. A cursor that was moved forward from an offset
has passed a chunk of characters since, and the bytes of the chunk are what the two offsets are
apart. So the chunk can be cut out, and no offset lies inside a character.

> `HasChunk`: what stands between an offset and the cursor, and how moving forward adds to it.
> `HasChunk.since?_eq`: it is what is cut out.
-/

namespace Sexpr

/-- Sizes add up. -/
theorem byteCount_append (cs ds : List Char) :
    byteCount (cs ++ ds) = byteCount cs + byteCount ds := by
  induction cs with
  | nil => exact (Nat.zero_add _).symm
  | cons c cs ih => rw [List.cons_append, byteCount, byteCount, ih, Nat.add_assoc]

theorem byteCount_reverse (cs : List Char) : byteCount cs.reverse = byteCount cs := by
  induction cs with
  | nil => rfl
  | cons c cs ih =>
    rw [List.reverse_cons, byteCount_append, ih, byteCount, byteCount, byteCount, Nat.add_zero,
      Nat.add_comm]

/-- A character takes at least one byte, and the rest takes what is left. -/
theorem byteCount_cons (c : Char) (cs : List Char) :
    ∃ n, byteCount (c :: cs) = n + 1 ∧ c.utf8Size ≤ n + 1 ∧ n + 1 - c.utf8Size = byteCount cs := by
  have hpos := c.utf8Size_pos
  refine ⟨byteCount (c :: cs) - 1, ?_, ?_, ?_⟩
  · rw [byteCount]
    omega
  · rw [byteCount]
    omega
  · rw [byteCount]
    omega

/-- Behind the bytes of some characters is what follows them. -/
theorem dropBytes?_byteCount (cs ds : List Char) :
    dropBytes? (byteCount cs) (cs ++ ds) = some ds := by
  induction cs with
  | nil => cases ds <;> rfl
  | cons c cs ih =>
    obtain ⟨n, hn, hle, hrest⟩ := byteCount_cons c cs
    rw [hn, List.cons_append, dropBytes?, if_pos hle, hrest, ih]

/-- The bytes of some characters are filled by these. -/
theorem takeBytes?_byteCount (cs ds : List Char) :
    takeBytes? (byteCount cs) (cs ++ ds) = some cs := by
  induction cs with
  | nil => cases ds <;> rfl
  | cons c cs ih =>
    obtain ⟨n, hn, hle, hrest⟩ := byteCount_cons c cs
    rw [hn, List.cons_append, takeBytes?, if_pos hle, hrest, ih]
    rfl

namespace Cursor

/-- The cursor has passed these characters since it was at the byte `start`. -/
structure HasChunk (c : Cursor) (start : Nat) (chunk : List Char) : Prop where
  position : c.position = start + byteCount chunk
  passed : ∃ before, c.passed = chunk.reverse ++ before

variable {c : Cursor} {start : Nat} {chunk : List Char}

/-- A chunk begins empty. -/
theorem hasChunk_nil (c : Cursor) : c.HasChunk c.position [] :=
  ⟨rfl, c.passed, rfl⟩

/-- A step forward takes the next character into the chunk. -/
theorem HasChunk.advance {x : Char} {rest : List Char} (h : c.HasChunk start chunk)
    (hahead : c.ahead = x :: rest) : c.advance.HasChunk start (chunk ++ [x]) := by
  obtain ⟨before, hpassed⟩ := h.passed
  refine ⟨?_, before, ?_⟩
  · have hmoved : c.advance.position = c.position + x.utf8Size := by rw [Cursor.advance, hahead]
    rw [hmoved, h.position, byteCount_append, Nat.add_assoc]
    rfl
  · rw [passed_advance hahead, hpassed, List.reverse_append]
    rfl

/-- Several steps take as many characters. -/
theorem HasChunk.advanceBy (h : c.HasChunk start chunk) (n : Nat) :
    (c.advanceBy n).HasChunk start (chunk ++ c.ahead.take n) := by
  induction n generalizing c chunk with
  | zero =>
    rw [List.take_zero, List.append_nil]
    exact h
  | succ n ih =>
    cases hahead : c.ahead with
    | nil =>
      rw [advanceBy_of_nil hahead, List.take_nil, List.append_nil]
      exact h
    | cons x rest =>
      have hnext := ih (h.advance hahead)
      rw [ahead_advance, hahead, List.tail_cons, List.append_assoc] at hnext
      exact hnext

theorem HasChunk.takeWhile (h : c.HasChunk start chunk) (p : Char → Bool) :
    (c.takeWhile p).2.HasChunk start (chunk ++ c.ahead.takeWhile p) := by
  have hchunk := h.advanceBy (c.ahead.takeWhile p).length
  rw [take_takeWhile] at hchunk
  exact hchunk

/-- The chunk is the text since the offset. -/
theorem HasChunk.since?_eq (h : c.HasChunk start chunk) :
    c.since? start = some (String.ofList chunk) := by
  obtain ⟨before, hpassed⟩ := h.passed
  have hle : start ≤ c.position := by rw [h.position]; exact Nat.le_add_right _ _
  have hcount : c.position - start = byteCount chunk.reverse := by
    rw [h.position, byteCount_reverse, Nat.add_sub_cancel_left]
  rw [since?, if_pos hle, hpassed, hcount, takeBytes?_byteCount, Option.map_some,
    List.reverse_reverse]

end Cursor

end Sexpr
